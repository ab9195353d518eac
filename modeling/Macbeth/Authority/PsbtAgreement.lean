import Macbeth.Authority.PsbtValidation
import Macbeth.Peg.Minting
import Macbeth.Wallet.Conservation

/-!
# Do the validators accept what the coordinator builds?

The builder takes the fee out of the pegouts by `calculate_fee_distribution`, the
validator expects every pegout to bear `fee / n`.  The two agree on everything else: the
ids, the single change output, the scripts.  So an honestly built PSBT is accepted
exactly when the required fee is a multiple of the number of pegouts it pays.
-/

namespace Macbeth

open Checked Outcome List Outcome

section resolves
variable (client : Client) (addressFromStr : List UInt8 → Option UncheckedAddress)
  (btcNetwork : Network)

/-- The pegout's id names a burn event with the same destination and gross amount, in a
block within the cutoff age. -/
structure Resolves (pegout : TxOut × PegoutId) : Prop where
  burn : ∃ logs log data, client.receiptByHash pegout.2.txid = .ok (some logs) ∧
    logs[pegout.2.idx.toNat]? = some log ∧
    tryParseBurnEvent addressFromStr log btcNetwork = .ok (some data) ∧
    data.destination = pegout.1.scriptPubkey ∧ data.amount = pegout.1.value
  age : ∃ number timestamp, client.transactionBlock pegout.2.txid = .ok (some number) ∧
    client.headerTimestamp number = .ok (some timestamp) ∧
    isBlockAgeAcceptable client.now timestamp maxBlockTsCutoffDurationSecs = true

/-- An address names an output somebody can spend: no address encodes `OP_RETURN`. -/
def AddressesSpendable : Prop :=
  ∀ text address, addressFromStr text = some address → isOpReturn address.scriptPubkey = false

variable {client addressFromStr btcNetwork}

theorem isOpReturn_of_tryParseBurnEvent (haddr : AddressesSpendable addressFromStr) {log : Log}
    {data : PegoutData} (h : tryParseBurnEvent addressFromStr log btcNetwork = .ok (some data)) :
    isOpReturn data.destination = false := by
  obtain ⟨text, address, haddress, hscript⟩ := address_of_tryParseBurnEvent h
  rw [← hscript]
  exact haddr text address haddress

variable {pegout : TxOut × PegoutId}

theorem Resolves.isOpReturn_eq_false (haddr : AddressesSpendable addressFromStr)
    (h : Resolves client addressFromStr btcNetwork pegout) :
    isOpReturn pegout.1.scriptPubkey = false := by
  obtain ⟨_, _, data, -, -, hparse, hscript, -⟩ := h.burn
  rw [← hscript]
  exact isOpReturn_of_tryParseBurnEvent haddr hparse

theorem Resolves.validatePsbtIdByMaximumCutoffAge_eq_ok
    (h : Resolves client addressFromStr btcNetwork pegout) :
    validatePsbtIdByMaximumCutoffAge client pegout.2 = .ok () := by
  obtain ⟨number, timestamp, hblock, hheader, hage⟩ := h.age
  simp [validatePsbtIdByMaximumCutoffAge, hblock, hheader, hage, Outcome.ofExcept, ofOption, ensure]

theorem Resolves.pegoutOfReceipt_eq_ok (h : Resolves client addressFromStr btcNetwork pegout) :
    ∃ data, pegoutOfReceipt client addressFromStr btcNetwork pegout.2 = .ok data ∧
      data.destination = pegout.1.scriptPubkey ∧ data.amount = pegout.1.value := by
  obtain ⟨logs, log, data, hreceipt, hlog, hparse, hscript, hamount⟩ := h.burn
  refine ⟨data, ?_, hscript, hamount⟩
  simp [pegoutOfReceipt, hreceipt, hlog, hparse, Outcome.ofExcept, ofOption]

/-- What acceptance amounts to. -/
theorem validatePsbtByIds_eq_ok {psbt : Psbt} :
    validatePsbtByIds client addressFromStr btcNetwork psbt = .ok () ↔
      psbt.outputs.length = psbt.unsignedTx.output.length ∧ extractPegoutIds psbt ≠ [] ∧
      ((extractPegoutIds psbt).map (·.2)).Nodup ∧
      (∀ x ∈ extractPegoutIds psbt, validatePsbtIdByMaximumCutoffAge client x.2 = .ok ()) ∧
      (List.range psbt.outputs.length).countP
        (fun i => !((extractPegoutIds psbt).map (·.1)).contains i) ≤ 1 ∧
      ∃ feePerOutput, psbt.feePerOutput (extractPegoutIds psbt).length = .ok feePerOutput ∧
        ∀ x ∈ extractPegoutIds psbt,
          validatePegout client addressFromStr btcNetwork psbt feePerOutput x = .ok () := by
  simp only [validatePsbtByIds, bind_eq_ok, ensure_eq_ok, mapErr_eq_ok, forM_eq_ok, exists_const]

end resolves

/-! ## The built PSBT under the validator -/

section built
variable {checks : Bool} {selectedInputs : List InputDTO} {kept : List (TxOut × PegoutId)}
  {changeScript : ScriptBuf} {feeRate : FeeRate} {fee change : Amount} {fees : List Amount}
  {psbt : Psbt}

theorem map_snd_afterFee : ∀ {kept : List Pegout} {fees : List Amount},
    fees.length = kept.length →
      (List.zipWith Pegout.afterFee kept fees).map (·.2) = kept.map (·.2)
  | [], [], _ => rfl
  | p :: kept, fee :: fees, h => by
    rw [zipWith_cons_cons, map_cons, map_cons, map_snd_afterFee (by simpa using h)]
    rfl

variable (h : BuiltFrom checks selectedInputs (toPegouts kept) changeScript feeRate fee fees change
  psbt)
include h

theorem BuiltFrom.length_fees : fees.length = kept.length := by
  rw [(calculateFeeDistribution_eq_ok h.shared).1, length_toPegouts]

theorem BuiltFrom.outputs_eq :
    psbt.outputs = (kept.map (·.2)).map (fun id => PsbtOutput.empty.setPegoutId id.asBytes) ++
      [PsbtOutput.empty] := by
  have hids : (zipWith Pegout.afterFee (toPegouts kept) fees).map (·.2) =
      (toPegouts kept).map (·.2) := map_snd_afterFee (by rw [h.length_fees, length_toPegouts])
  rw [h.psbt_eq, outputs_createPsbt]
  congr 1
  rw [← Function.comp_def PsbtOutput.empty.setPegoutId (fun o : Pegout => o.2), ← map_map,
    hids, toPegouts, map_map, map_map, map_map]
  rfl

theorem BuiltFrom.extractPegoutIds_eq :
    extractPegoutIds psbt = (kept.map (·.2)).zipIdx.map Prod.swap :=
  extractPegoutIds_of_outputs h.outputs_eq (by simp)

/-- Every output but the last carries an id. -/
theorem BuiltFrom.countP_change :
    (List.range psbt.outputs.length).countP
      (fun i => !((extractPegoutIds psbt).map (·.1)).contains i) ≤ 1 := by
  have hpos : (extractPegoutIds psbt).map (·.1) = List.range kept.length := by
    rw [h.extractPegoutIds_eq, map_map, range_eq_range']
    exact (zipIdx_map_snd ..).trans (by rw [length_map])
  rw [hpos, h.outputs_eq, length_append, length_map, length_map,
    length_singleton, range_succ, countP_append, countP_eq_zero.mpr (by simp),
    Nat.zero_add]
  exact countP_le_length

/-- The `i`-th output is the `i`-th pegout less its share. -/
theorem BuiltFrom.output_getElem? {i : Nat} {pegout : TxOut × PegoutId} {share : Amount}
    (hpegout : kept[i]? = some pegout) (hshare : fees[i]? = some share) :
    psbt.unsignedTx.output[i]? = some (Pegout.afterFee (pegout.1, pegout.2.asBytes) share).1 := by
  have hzip : (zipWith Pegout.afterFee (toPegouts kept) fees)[i]? =
      some (Pegout.afterFee (pegout.1, pegout.2.asBytes) share) := by
    rw [getElem?_zipWith, toPegouts, getElem?_map, hpegout, hshare]
    rfl
  rw [h.psbt_eq, output_createPsbt, getElem?_append_left, getElem?_map, hzip]
  · rfl
  · rw [length_map]
    exact (List.getElem?_eq_some_iff.mp hzip).1

variable {client : Client} {addressFromStr : List UInt8 → Option UncheckedAddress}
variable {btcNetwork : Network} {feePerOutput : Amount}

/-- An output passes exactly when the pegout's share is the one the validator expects. -/
theorem BuiltFrom.validatePegout_eq_ok (haddr : AddressesSpendable addressFromStr) {i : Nat}
    {pegout : TxOut × PegoutId} {share : Amount}
    (hres : Resolves client addressFromStr btcNetwork pegout) (hpegout : kept[i]? = some pegout)
    (hshare : fees[i]? = some share) :
    validatePegout client addressFromStr btcNetwork psbt feePerOutput (i, pegout.2) = .ok () ↔
      share.toNat = feePerOutput.toNat := by
  obtain ⟨data, hdata, hscript, hamount⟩ := hres.pegoutOfReceipt_eq_ok
  have hmem : Pegout.afterFee (pegout.1, pegout.2.asBytes) share ∈
      zipWith Pegout.afterFee (toPegouts kept) fees := by
    apply mem_of_getElem? (i := i)
    rw [getElem?_zipWith, toPegouts, getElem?_map, hpegout, hshare]
    rfl
  have hvalue := Pegout.value_afterFee (hres.isOpReturn_eq_false haddr) (h.viable _ hmem)
  rw [validatePegout, hdata, h.output_getElem? hpegout hshare, ok_bind, ofOption, ok_bind,
    validatePsbtByOutput_eq_ok, hscript, hamount]
  constructor
  · rintro ⟨-, hsum⟩
    exact Nat.add_left_cancel (hvalue.trans hsum.symm)
  · intro heq
    exact ⟨rfl, by rw [← heq]; exact hvalue⟩

theorem BuiltFrom.length_outputs_eq :
    psbt.outputs.length = psbt.unsignedTx.output.length := by
  rw [h.outputs_eq, h.psbt_eq, output_createPsbt]
  simp [h.length_fees]

/-- The whole loop passes exactly when every share is the expected one. -/
theorem BuiltFrom.validatePegouts_eq_ok (haddr : AddressesSpendable addressFromStr)
    (hres : ∀ p ∈ kept, Resolves client addressFromStr btcNetwork p) :
    (∀ x ∈ extractPegoutIds psbt,
      validatePegout client addressFromStr btcNetwork psbt feePerOutput x = .ok ()) ↔
      ∀ share ∈ fees, share.toNat = feePerOutput.toNat := by
  rw [h.extractPegoutIds_eq]
  constructor
  · intro hall share hshare
    obtain ⟨i, hi⟩ := mem_iff_getElem?.mp hshare
    have hlt : i < kept.length := h.length_fees ▸ (List.getElem?_eq_some_iff.mp hi).1
    have hpegout : kept[i]? = some kept[i] := getElem?_eq_getElem hlt
    refine (h.validatePegout_eq_ok haddr (hres _ (getElem_mem hlt)) hpegout hi).mp
      (hall (i, kept[i].2) (mem_map.mpr ⟨(kept[i].2, i), ?_, rfl⟩))
    rw [mem_zipIdx_iff_getElem?, getElem?_map, hpegout]
    rfl
  · intro hall x hx
    obtain ⟨⟨id, i⟩, hmem, rfl⟩ := mem_map.mp hx
    rw [mem_zipIdx_iff_getElem?, getElem?_map, Option.map_eq_some_iff] at hmem
    obtain ⟨pegout, hpegout, rfl⟩ := hmem
    have hlt : i < fees.length := h.length_fees ▸ (List.getElem?_eq_some_iff.mp hpegout).1
    exact (h.validatePegout_eq_ok haddr (hres _ (mem_of_getElem? hpegout)) hpegout
      (getElem?_eq_getElem hlt)).mpr (hall _ (getElem_mem hlt))

/-- The checks that do not look at amounts pass. -/
theorem BuiltFrom.validatePsbtByIds_eq_ok (haddr : AddressesSpendable addressFromStr)
    (hres : ∀ p ∈ kept, Resolves client addressFromStr btcNetwork p) (hne : kept ≠ [])
    (hdistinct : (kept.map (·.2)).Nodup)
    (hshare : psbt.feePerOutput (extractPegoutIds psbt).length = .ok feePerOutput) :
    validatePsbtByIds client addressFromStr btcNetwork psbt = .ok () ↔
      ∀ share ∈ fees, share.toNat = feePerOutput.toNat := by
  have hids : (extractPegoutIds psbt).map (·.2) = kept.map (·.2) := by
    rw [h.extractPegoutIds_eq, map_map]
    exact zipIdx_map_fst ..
  have hages : ∀ x ∈ extractPegoutIds psbt,
      validatePsbtIdByMaximumCutoffAge client x.2 = .ok () := by
    intro x hx
    obtain ⟨pegout, hpegout, heq⟩ := mem_map.mp (hids ▸ mem_map_of_mem hx)
    rw [← heq]
    exact (hres pegout hpegout).validatePsbtIdByMaximumCutoffAge_eq_ok
  have hids_ne : extractPegoutIds psbt ≠ [] := by
    intro hnil
    rw [hnil] at hids
    exact hne (map_eq_nil_iff.mp hids.symm)
  rw [Macbeth.validatePsbtByIds_eq_ok, ← h.validatePegouts_eq_ok haddr hres]
  constructor
  · rintro ⟨-, -, -, -, -, share, hshare', hall⟩
    obtain rfl := ok.inj (hshare'.symm.trans hshare)
    exact hall
  · intro hall
    exact ⟨h.length_outputs_eq, hids_ne, hids ▸ hdistinct, hages, h.countP_change, feePerOutput,
      hshare, hall⟩

end built

/-! ## Agreement -/

section agreement
variable {client : Client} {addressFromStr : List UInt8 → Option UncheckedAddress}
  {btcNetwork : Network} {checks : Bool} {algorithm : CoinSelectionAlgorithm}
  {optionalUtxos requiredUtxos : FinMap OutPoint Utxo} {outputs : List (TxOut × PegoutId)}
  {feeRate : FeeRate} {changeScript : ScriptBuf} {psbt : Psbt}

/-- The fee can be shared equally. -/
def FeeSplitsEvenly (checks : Bool) (algorithm : CoinSelectionAlgorithm)
    (optionalUtxos requiredUtxos : FinMap OutPoint Utxo) (outputs : List (TxOut × PegoutId))
    (feeRate : FeeRate) (changeScript : ScriptBuf) : Prop :=
  ∃ fee n, requiredFee checks algorithm optionalUtxos requiredUtxos outputs feeRate changeScript =
    .ok (fee, n) ∧ n ∣ fee.toNat

/-- An honestly built PSBT is accepted exactly when the required fee is a multiple of the
number of pegouts that bear it. -/
theorem coinSelection_accepted_iff (haddr : AddressesSpendable addressFromStr)
    (hdistinct : (outputs.map (·.2)).Nodup)
    (hres : ∀ p ∈ outputs, Resolves client addressFromStr btcNetwork p)
    (h : coinSelection checks algorithm optionalUtxos requiredUtxos outputs feeRate changeScript =
      .ok psbt) :
    validatePsbtByIds client addressFromStr btcNetwork psbt = .ok () ↔
      FeeSplitsEvenly checks algorithm optionalUtxos requiredUtxos outputs feeRate
        changeScript := by
  obtain ⟨selectedInputs, kept, fee, fees, change, paid, -, hsub, hfit, hrequired, hbuilt, hpaid⟩ :=
    coinSelection_eq_ok h
  replace hres : ∀ p ∈ kept, Resolves client addressFromStr btcNetwork p :=
    fun p hp => hres p (hsub.subset hp)
  have hpaid_eq : paid = fee := hbuilt.fee_eq (fun p hp => by
    obtain ⟨o, ho, rfl⟩ := mem_map.mp hp
    exact (hres o ho).isOpReturn_eq_false haddr) hfit hpaid
  subst hpaid_eq
  have hlen : (extractPegoutIds psbt).length = kept.length := by
    rw [hbuilt.extractPegoutIds_eq]; simp
  have hn : kept.length ≠ 0 := by
    obtain ⟨_, hne, -⟩ := bind_eq_ok.mp hbuilt.shared
    simpa using hne
  -- the share the validator expects
  obtain ⟨share, hdiv⟩ : ∃ share, checkedDiv paid kept.length = some share :=
    ⟨_, if_neg hn⟩
  have hshare : psbt.feePerOutput (extractPegoutIds psbt).length = .ok share := by
    rw [Psbt.feePerOutput, hpaid, mapErr, ok_bind, ofOption_eq_ok, hlen, hdiv]
  have hsplit : FeeSplitsEvenly checks algorithm optionalUtxos requiredUtxos outputs feeRate
      changeScript ↔ kept.length ∣ paid.toNat := by
    simp [FeeSplitsEvenly, hrequired]
  have hfees := fees_even_iff hbuilt.shared
  rw [length_toPegouts] at hfees
  rw [hsplit, ← hfees, ← (checkedDiv_eq_some.mp hdiv).2]
  exact hbuilt.validatePsbtByIds_eq_ok haddr hres (ne_nil_of_length_pos (by omega))
    ((hsub.map _).nodup hdistinct) hshare

end agreement

/-! ## Two pegouts and one coin -/

/-- The text of a mainnet address. -/
def sampleAddressText : List UInt8 :=
  "bc1qw508d6qejxtdg4y5r3zarvary0c5xw7kv8f3t4".toList.map fun c => UInt8.ofNat c.toNat

/-- The script that address stands for. -/
def sampleDestination : ScriptBuf :=
  0x00 :: 0x14 :: Bytes.toBE 20 0x751e76e8199196d454941c45d1b3a323f1433bd6

/-- The address parser on that text. -/
def sampleAddressFromStr (text : List UInt8) : Option UncheckedAddress :=
  if text = sampleAddressText then some ⟨sampleDestination, [.bitcoin]⟩ else none

/-- The burn of 100,000 satoshis to the address. -/
def sampleBurn : Log where
  address := mintContractAddress
  topics := [burnTopic, 9]
  data := abiWord 1000000000000000 ++ abiWord 0x60 ++ abiWord 0xc0 ++
    abiWord 42 ++ sampleAddressText ++ List.replicate 22 0 ++ abiWord 1 ++ List.replicate 32 0

/-- The transaction that burned twice. -/
def sampleBurnTx : BitVec 256 := 0xb0

def sampleClient : Client where
  receiptByHash h := .ok (if h = sampleBurnTx then some [sampleBurn, sampleBurn] else none)
  transactionBlock h := .ok (if h = sampleBurnTx then some 7 else none)
  headerTimestamp _ := .ok (some 1700000000)
  now := some 1700003600

def samplePegouts : List (TxOut × PegoutId) :=
  [(⟨100000, sampleDestination⟩, ⟨sampleBurnTx, 0⟩), (⟨100000, sampleDestination⟩, ⟨sampleBurnTx, 1⟩)]

/-- What the coordinator builds at a fee rate. -/
def samplePsbt (feeRate : FeeRate) : Outcome CoinSelectionError Psbt :=
  coinSelection true selectAll sampleCoins ∅ samplePegouts feeRate (p2tr 9)

theorem sampleAddresses_spendable : AddressesSpendable sampleAddressFromStr := by
  intro text address h
  unfold sampleAddressFromStr at h
  split at h
  · obtain rfl := Option.some.inj h
    decide
  · contradiction

theorem samplePegouts_resolve :
    ∀ p ∈ samplePegouts, Resolves sampleClient sampleAddressFromStr .bitcoin p := by
  have hparse : tryParseBurnEvent sampleAddressFromStr sampleBurn .bitcoin =
      .ok (some ⟨100000, sampleDestination, .bitcoin⟩) := by decide +kernel
  intro p hp
  have hage : isBlockAgeAcceptable sampleClient.now 1700000000 maxBlockTsCutoffDurationSecs = true :=
    by decide
  simp only [samplePegouts, mem_cons, not_mem_nil, or_false] at hp
  rcases hp with rfl | rfl
  · exact ⟨⟨_, sampleBurn, _, rfl, rfl, hparse, rfl, rfl⟩, 7, 1700000000, rfl, rfl, hage⟩
  · exact ⟨⟨_, sampleBurn, _, rfl, rfl, hparse, rfl, rfl⟩, 7, 1700000000, rfl, rfl, hage⟩

/-- At one satoshi per virtual byte the fee is 173 satoshis, which two pegouts cannot
share equally: the builder gives one of them 87, the validator expects 86 of both. -/
theorem samplePsbt_rejected :
    (samplePegouts.map (·.2)).Nodup ∧
    (∀ p ∈ samplePegouts, Resolves sampleClient sampleAddressFromStr .bitcoin p) ∧
    ∃ psbt, samplePsbt 250 = .ok psbt ∧
      validatePsbtByIds sampleClient sampleAddressFromStr .bitcoin psbt =
        .err (.failedToValidatePsbtByIds "The output value does not match the expected amount") := by
  have hrun : (samplePsbt 250).returns (fun psbt =>
      validatePsbtByIds sampleClient sampleAddressFromStr .bitcoin psbt =
        .err (.failedToValidatePsbtByIds "The output value does not match the expected amount")) =
      true := by decide +kernel
  obtain ⟨psbt, hpsbt, hrejected⟩ := returns_eq_true.mp hrun
  exact ⟨by decide, samplePegouts_resolve, psbt, hpsbt, of_decide_eq_true hrejected⟩

/-- At two satoshis per virtual byte the fee is 346, and both sides agree on 173 each. -/
theorem samplePsbt_accepted :
    ∃ psbt, samplePsbt 500 = .ok psbt ∧
      validatePsbtByIds sampleClient sampleAddressFromStr .bitcoin psbt = .ok () := by
  have hfee : requiredFee true selectAll sampleCoins ∅ samplePegouts 500 (p2tr 9) = .ok (346, 2) := by
    decide +kernel
  have hrun : (samplePsbt 500).returns (fun _ => true) = true := by decide +kernel
  obtain ⟨psbt, hpsbt, -⟩ := returns_eq_true.mp hrun
  exact ⟨psbt, hpsbt, (coinSelection_accepted_iff sampleAddresses_spendable (by decide)
    samplePegouts_resolve hpsbt).mpr ⟨346, 2, hfee, by decide⟩⟩

end Macbeth
