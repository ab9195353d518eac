import Macbeth.Wallet.CoinSelection

/-!
# What the pegout transaction does with the coins

`Conserving` says where the value of the selected inputs goes: the change gets what the
gross pegouts leave, the pegouts get what their shares of the fee leave, and the fee is the
one of the transaction itself at the requested rate.

The fee is computed on a draft, before the shares are taken.  `weight_createPsbt` is why it
is also the fee of the result: a value takes eight bytes, whatever it is.  The shares are
near each other because the remainder loop visits no pegout twice.

* `coinSelection_conserving` — every PSBT the builder returns is conserving, if no pegout
  pays to a script without a dust limit;
* `opReturn_not_conserving` — with such a pegout the fee falls short.
-/

namespace Macbeth

open Checked Outcome List Option BitVec Outcome

/-! ## The shares -/

/-- One round of the remainder loop. -/
theorem getElem?_of_addSat {fees fees' : List Amount} {i : Nat} (h : addSat fees i = .ok fees')
    {j : Nat} {y : Amount} (hy : fees'[j]? = some y) :
    ∃ x, fees[j]? = some x ∧ y.toNat = x.toNat + if i = j then 1 else 0 := by
  obtain ⟨fee, hfee, h⟩ := bind_eq_ok.mp h
  obtain ⟨fee', hadd, h⟩ := bind_eq_ok.mp h
  obtain rfl := ok.inj h
  have hfee' := checkedAdd_eq_some.mp (ofOption_eq_ok.mp hadd)
  rw [index_eq_ok] at hfee
  by_cases hij : i = j
  · subst hij
    obtain rfl : fee' = y := by
      obtain ⟨hlt, -⟩ := List.getElem?_eq_some_iff.mp hfee
      simpa [hlt] using hy
    exact ⟨fee, hfee, by rw [if_pos rfl]; exact hfee'⟩
  · rw [getElem?_set_ne hij] at hy
    exact ⟨y, hy, by rw [if_neg hij]; rfl⟩

theorem nodup_sortedIndices (pegouts : List Pegout) : (sortedIndices pegouts).Nodup :=
  (perm_insertionSort _ _).nodup_iff.mpr nodup_range

/-- A share is the quotient or one satoshi more. -/
theorem share_bounds {pegouts : List Pegout} {fee : Amount} {fees : List Amount}
    (h : calculateFeeDistribution pegouts fee = .ok fees) {share : Amount} (hmem : share ∈ fees) :
    fee.toNat / pegouts.length ≤ share.toNat ∧ share.toNat ≤ fee.toNat / pegouts.length + 1 := by
  obtain ⟨_, -, h⟩ := bind_eq_ok.mp h
  obtain ⟨base, hbase, h⟩ := bind_eq_ok.mp h
  have hbase := (checkedDiv_eq_some.mp (ofOption_eq_ok.mp hbase)).2
  -- each pegout has got one satoshi for each time the loop was at it
  have hloop := foldlM_ok_induction
    (fun done fees => ∀ j x, fees[j]? = some x → x.toNat = base.toNat + done.count j)
    (fun done i s s' hs hstep j y hy => by
      obtain ⟨x, hx, hxy⟩ := getElem?_of_addSat hstep hy
      rw [hxy, hs j x hx, count_append, count_singleton, Nat.add_assoc]
      simp)
    [] _ _ fees (fun j x hx => by
      rw [eq_of_mem_replicate (mem_of_getElem? hx)]
      simp) h
  obtain ⟨j, hj⟩ := mem_iff_getElem?.mp hmem
  have hshare := hloop j share hj
  have honce := nodup_iff_count_le_one.mp ((nodup_sortedIndices pegouts).sublist
    (take_sublist (fee.toNat % pegouts.length) _)) j
  rw [nil_append] at hshare
  omega

/-! ## The weight -/

/-- The weight of a transaction without witnesses depends on its outputs only through their
scripts. -/
theorem weight_createPsbt {inputs : List InputDTO} {outputs outputs' : List Pegout}
    (h : outputs.map (·.1.scriptPubkey) = outputs'.map (·.1.scriptPubkey)) (change : Option TxOut) :
    (createPsbt inputs outputs change).unsignedTx.weight =
      (createPsbt inputs outputs' change).unsignedTx.weight := by
  have hlen : outputs.length = outputs'.length := by simpa using congrArg List.length h
  have hsize : ∀ os : List Pegout, ((os.map (·.1)).flatMap fun o =>
      Bytes.toLE 8 o.value.toNat ++ serializeScript o.scriptPubkey).length =
      ((os.map (·.1.scriptPubkey)).map fun s => 8 + (serializeScript s).length).sum := by
    intro os
    simp [length_flatMap, Function.comp_def]
  have hbase : (createPsbt inputs outputs change).unsignedTx.baseSize =
      (createPsbt inputs outputs' change).unsignedTx.baseSize := by
    simp only [Transaction.baseSize, encodeStripped, output_createPsbt, flatMap_append,
      length_append, hsize, h, length_map, hlen]
    rfl
  simp only [Transaction.weight, Transaction.totalSize, hbase]
  rfl

/-- The transaction with a key-path signature as the witness of each input. -/
def Transaction.keySpend (tx : Transaction) (signatures : List (List UInt8)) : Transaction :=
  { tx with input := (tx.input.zip signatures).map fun e => { e.1 with witness := [e.2] } }

section keySpend
variable {tx : Transaction} {signatures : List (List UInt8)}

/-- Witnesses are not part of what the id is the hash of. -/
theorem baseSize_keySpend (hlen : signatures.length = tx.input.length) :
    (tx.keySpend signatures).baseSize = tx.baseSize := by
  have hinputs : (tx.input.zip signatures).map Prod.fst = tx.input := map_fst_zip hlen.ge
  conv_rhs => rw [Transaction.baseSize, encodeStripped, ← hinputs, flatMap_map, length_map]
  simp [Transaction.baseSize, encodeStripped, Transaction.keySpend, flatMap_map]

/-- The marker, the flag, and a count, a length and a signature for each input. -/
theorem weight_keySpend (hinput : tx.input ≠ []) (hlen : signatures.length = tx.input.length)
    (hsignatures : ∀ s ∈ signatures, s.length = 64) :
    (tx.keySpend signatures).weight = 4 * tx.baseSize + 2 + 66 * tx.input.length := by
  have hsegwit : (tx.keySpend signatures).usesSegwitSerialization = true := by
    obtain ⟨i, is, hi⟩ := exists_cons_of_ne_nil hinput
    obtain ⟨s, ss, hs⟩ := exists_cons_of_length_eq_add_one (hi ▸ hlen)
    simp [Transaction.usesSegwitSerialization, Transaction.keySpend, hi, hs]
  have hwitness : ∀ e ∈ tx.input.zip signatures, witnessSize [e.2] = 66 := by
    intro e he
    have hlength := hsignatures e.2 (of_mem_zip he).2
    have hscript : (serializeScript e.2).length = 65 := by
      simp [serializeScript, encodeVarInt, hlength]
    simp [witnessSize, hscript, encodeVarInt]
  have hsum : ((tx.keySpend signatures).input.map fun i => witnessSize i.witness).sum =
      66 * tx.input.length := by
    simp only [Transaction.keySpend, List.map_map, Function.comp_def]
    rw [List.map_congr_left hwitness]
    simp [hlen, Nat.mul_comm]
  rw [Transaction.weight, Transaction.totalSize, hsegwit, if_pos rfl, hsum, baseSize_keySpend hlen]
  omega

end keySpend

/-- Before it is signed a transaction with inputs has no witness data. -/
theorem weight_createPsbt_unsigned {inputs : List InputDTO} (hinputs : inputs ≠ [])
    (outputs : List Pegout) (change : Option TxOut) :
    (createPsbt inputs outputs change).unsignedTx.weight =
      4 * (createPsbt inputs outputs change).unsignedTx.baseSize := by
  have hplain : (createPsbt inputs outputs change).unsignedTx.usesSegwitSerialization = false := by
    simp [Transaction.usesSegwitSerialization, createPsbt, Psbt.fromUnsignedTx, hinputs]
  rw [Transaction.weight, Transaction.totalSize, hplain, if_neg Bool.false_ne_true]
  omega

/-- With inputs the estimate is the weight of the signed transaction. -/
theorem calculateSignedTxWeight_exact {inputs : List InputDTO} (hinputs : inputs ≠ [])
    (outputs : List Pegout) (change : Option TxOut) (signatures : List (List UInt8))
    (hlen : signatures.length = inputs.length) (hsignatures : ∀ s ∈ signatures, s.length = 64) :
    (∀ weight, calculateSignedTxWeight (createPsbt inputs outputs change) = .ok weight →
        weight = BitVec.ofNat 64
          ((createPsbt inputs outputs change).unsignedTx.keySpend signatures).weight) ∧
      (((createPsbt inputs outputs change).unsignedTx.keySpend signatures).weight < 2 ^ 64 →
        calculateSignedTxWeight (createPsbt inputs outputs change) = .ok (BitVec.ofNat 64
          ((createPsbt inputs outputs change).unsignedTx.keySpend signatures).weight)) := by
  have hcount : (createPsbt inputs outputs change).unsignedTx.input.length = inputs.length := by
    simp [createPsbt, Psbt.fromUnsignedTx]
  have hne : (createPsbt inputs outputs change).unsignedTx.input ≠ [] := by
    simpa [createPsbt, Psbt.fromUnsignedTx] using hinputs
  have hslots : (createPsbt inputs outputs change).inputs.length = inputs.length := by
    rw [inputs_createPsbt, length_map]
  rw [weight_keySpend hne (hlen.trans hcount.symm) hsignatures, hcount]
  simp only [calculateSignedTxWeight_eq_ok, weight_createPsbt_unsigned hinputs, hslots]
  generalize (createPsbt inputs outputs change).unsignedTx.baseSize = size
  constructor
  · intro weight hweight
    apply eq_of_toNat_eq
    rw [toNat_ofNat]
    have := weight.isLt
    omega
  · intro hfits
    rw [toNat_ofNat, Nat.mod_eq_of_lt hfits, Nat.mod_eq_of_lt (by omega),
      Nat.mod_eq_of_lt (by omega)]
    omega

/-- One input and one output. -/
theorem calculateSignedTxWeight_oneInput : calculateSignedTxWeight (createPsbt
    [⟨⟨1, 0⟩, ⟨5000, p2tr 1⟩, none, .v1⟩] [(⟨4000, p2tr 2⟩, [])] none) = .ok 444 :=
  (calculateSignedTxWeight_exact (cons_ne_nil _ _) _ _ [List.replicate 64 0] rfl
    (by decide)).2 (by decide +kernel)

/-- Without an input the transaction is taken to have a marker and a flag already. -/
theorem calculateSignedTxWeight_noInput : ¬ ∀ (inputs : List InputDTO) (outputs : List Pegout)
    (change : Option TxOut) (signatures : List (List UInt8)), signatures.length = inputs.length →
    (∀ s ∈ signatures, s.length = 64) →
    ∀ weight, calculateSignedTxWeight (createPsbt inputs outputs change) = .ok weight →
      weight = BitVec.ofNat 64
        ((createPsbt inputs outputs change).unsignedTx.keySpend signatures).weight := by
  intro h
  have hestimate : calculateSignedTxWeight (createPsbt [] [] none) = .ok 44 := by decide +kernel
  exact absurd (h [] [] none [] rfl (by simp) 44 hestimate) (by decide +kernel)

/-- Taking a share leaves the script. -/
theorem scripts_afterFee : ∀ {kept : List Pegout} {fees : List Amount},
    fees.length = kept.length →
    (List.zipWith Pegout.afterFee kept fees).map (·.1.scriptPubkey) = kept.map (·.1.scriptPubkey)
  | [], _, _ => rfl
  | p :: kept, fee :: fees, hlen => by
    rw [zipWith_cons_cons, map_cons, map_cons, scripts_afterFee (by simpa using hlen)]
    rfl

/-- So the fee of the draft is the fee of the result. -/
theorem BuiltFrom.weight {checks : Bool} {selectedInputs : List InputDTO} {kept : List Pegout}
    {changeScript : ScriptBuf} {feeRate : FeeRate} {fee change : Amount} {fees : List Amount}
    {psbt : Psbt}
    (h : BuiltFrom checks selectedInputs kept changeScript feeRate fee fees change psbt) :
    ∃ weight, calculateSignedTxWeight psbt = .ok weight ∧ feeWu feeRate weight = some fee := by
  obtain ⟨weight, hweight, hfee⟩ := bind_eq_ok.mp h.required
  have hscripts := scripts_afterFee (calculateFeeDistribution_eq_ok h.shared).1
  refine ⟨weight, ?_, ofOption_eq_ok.mp hfee⟩
  rw [h.psbt_eq, calculateSignedTxWeight, weight_createPsbt hscripts, inputs_createPsbt]
  rw [mapErr_eq_ok, calculateSignedTxWeight, inputs_createPsbt] at hweight
  exact hweight

/-- The fee in satoshis: rate times weight, rounded up. -/
theorem toNat_of_feeWu {feeRate : FeeRate} {weight : BitVec 64} {fee : Amount}
    (h : feeWu feeRate weight = some fee) :
    fee.toNat = (feeRate.toNat * weight.toNat + 999) / 1000 := by
  simp only [feeWu, map_eq_some_iff, bind_eq_some_iff] at h
  obtain ⟨sum, ⟨product, hproduct, hsum⟩, rfl⟩ := h
  have hsum := checkedAdd_eq_some.mp hsum
  rw [checkedMul_eq_some.mp hproduct] at hsum
  rw [toNat_udiv, hsum]
  rfl

/-! ## Conservation -/

/-- Where the value of the selected inputs goes. -/
structure Conserving (outputs : List (TxOut × PegoutId)) (feeRate : FeeRate)
    (changeScript : ScriptBuf) (psbt : Psbt) (selected : List InputDTO)
    (kept : List (TxOut × PegoutId)) (shares : List Amount) (change fee : Amount) : Prop where
  /-- The kept pegouts are some of the requested ones, in their order. -/
  kept_sublist : kept.Sublist outputs
  length_shares : shares.length = kept.length
  /-- The transaction spends the selected inputs and pays the kept pegouts less their
  shares, then the change. -/
  psbt_eq : psbt = createPsbt selected (List.zipWith Pegout.afterFee (toPegouts kept) shares)
    (some ⟨change, changeScript⟩)
  change_eq : change.toNat + natSum (kept.map (·.1.value)) = natSum (selected.map (·.output.value))
  paid : psbt.fee = .ok fee
  /-- The fee is the rate times the weight of the signed transaction, in whole satoshis. -/
  rate : ∃ weight, calculateSignedTxWeight psbt = .ok weight ∧
    fee.toNat = (feeRate.toNat * weight.toNat + 999) / 1000
  shares_near : ∀ s ∈ shares, ∀ t ∈ shares, s.toNat ≤ t.toNat + 1
  /-- A share is what its pegout gives up, and the rest is no dust. -/
  net : ∀ x ∈ (toPegouts kept).zip shares,
    (x.1.afterFee x.2).1.value.toNat + x.2.toNat = x.1.1.value.toNat ∧
    minimalNonDust x.1.1.scriptPubkey ≤ (x.1.afterFee x.2).1.value.toNat

section conservation
variable {checks : Bool} {algorithm : CoinSelectionAlgorithm}
  {optionalUtxos requiredUtxos : FinMap OutPoint Utxo} {outputs : List (TxOut × PegoutId)}
  {feeRate : FeeRate} {changeScript : ScriptBuf} {psbt : Psbt}

/-- Every returned PSBT is conserving. -/
theorem coinSelection_conserving
    (hspendable : ∀ o ∈ outputs, isOpReturn o.1.scriptPubkey = false)
    (h : coinSelection checks algorithm optionalUtxos requiredUtxos outputs feeRate changeScript =
      .ok psbt) :
    ∃ selected kept shares change fee,
      selectInputs algorithm optionalUtxos requiredUtxos (toPegouts outputs) feeRate changeScript =
        .ok selected ∧
      Conserving outputs feeRate changeScript psbt selected kept shares change fee := by
  obtain ⟨selected, kept, fee, shares, change, paid, hsel, hsub, hfit, -, hbuilt, hpaid⟩ :=
    coinSelection_eq_ok h
  have hkept : ∀ p ∈ toPegouts kept, isOpReturn p.1.scriptPubkey = false := by
    intro p hp
    obtain ⟨o, ho, rfl⟩ := mem_map.mp hp
    exact hspendable o (hsub.subset ho)
  obtain rfl := hbuilt.fee_eq hkept hfit hpaid
  obtain ⟨weight, hweight, hfee⟩ := hbuilt.weight
  obtain ⟨amount, ins, outs, hamount, hins, houts, hsum⟩ := createChange_eq_ok hbuilt.created
  obtain rfl : change = amount := congrArg TxOut.value (some.inj hamount)
  have hlt := (fee_createPsbt.mp (hbuilt.psbt_eq ▸ hpaid)).1
  refine ⟨selected, kept, shares, change, paid, hsel, ?_⟩
  exact {
    kept_sublist := hsub
    length_shares := by simpa using (calculateFeeDistribution_eq_ok hbuilt.shared).1
    psbt_eq := hbuilt.psbt_eq
    change_eq := by
      rw [← toNat_of_sumWord hins hlt, ← hsum, toNat_of_sumWord houts hfit]
      simp [toPegouts, Function.comp_def]
    paid := hpaid
    rate := ⟨weight, hweight, toNat_of_feeWu hfee⟩
    shares_near := fun s hs t ht =>
      (share_bounds hbuilt.shared hs).2.trans (Nat.succ_le_succ (share_bounds hbuilt.shared ht).1)
    net := fun x hx => by
      have hviable : (x.1.afterFee x.2).isViable = true :=
        hbuilt.viable _ (map_uncurry_zip_eq_zipWith ▸ mem_map_of_mem hx)
      exact ⟨Pegout.value_afterFee (hkept _ (of_mem_zip hx).1) hviable,
        of_decide_eq_true hviable⟩ }

end conservation

/-! ## A single coin -/

/-- A wallet with a single coin of 1,000,000 satoshis. -/
def sampleCoins : FinMap OutPoint Utxo :=
  FinMap.ofList [(⟨0xc0, 0⟩, ⟨⟨0xc0, 0⟩, ⟨1000000, p2tr 9⟩, none, UtxoVersion.v1.toU32⟩)]

/-- With one coin that covers the target, any selection is that coin. -/
def selectAll : CoinSelectionAlgorithm := fun required optionals _ _ _ =>
  .ok ((required ++ optionals).map (·.outpoint))

/-- A pegout of 100,000 satoshis next to another one. -/
def besidePegout (other : TxOut) : List (TxOut × PegoutId) :=
  [(⟨100000, p2tr 7⟩, ⟨0xb0, 0⟩), (other, ⟨0xb0, 1⟩)]

/-- Two payments to taproot outputs at one satoshi per virtual byte. -/
theorem payments_conserving :
    ∃ psbt, coinSelection true selectAll sampleCoins ∅ (besidePegout ⟨50000, p2tr 8⟩) 250 (p2tr 9) =
        .ok psbt ∧
      ∃ selected kept shares change fee,
        selectInputs selectAll sampleCoins ∅ (toPegouts (besidePegout ⟨50000, p2tr 8⟩)) 250
          (p2tr 9) = .ok selected ∧
        Conserving (besidePegout ⟨50000, p2tr 8⟩) 250 (p2tr 9) psbt selected kept shares change
          fee := by
  have hrun : (coinSelection true selectAll sampleCoins ∅ (besidePegout ⟨50000, p2tr 8⟩) 250
      (p2tr 9)).returns (fun _ => true) = true := by decide +kernel
  obtain ⟨psbt, hpsbt, -⟩ := returns_eq_true.mp hrun
  exact ⟨psbt, hpsbt, coinSelection_conserving (by decide) hpsbt⟩

/-- An output that burns one satoshi has no dust limit: its share is more than it has, it
stays with nothing, and the transaction pays less than its weight asks for. -/
theorem opReturn_not_conserving :
    ∃ psbt, coinSelection true selectAll sampleCoins ∅ (besidePegout ⟨1, [0x6a]⟩) 250 (p2tr 9) =
        .ok psbt ∧
      ¬ ∃ selected kept shares change fee, Conserving (besidePegout ⟨1, [0x6a]⟩) 250 (p2tr 9) psbt
        selected kept shares change fee := by
  have hrun : (coinSelection true selectAll sampleCoins ∅ (besidePegout ⟨1, [0x6a]⟩) 250
      (p2tr 9)).returns (fun psbt => calculateSignedTxWeight psbt = .ok 656 ∧ psbt.fee = .ok 83) =
      true := by decide +kernel
  obtain ⟨psbt, hpsbt, hfacts⟩ := returns_eq_true.mp hrun
  obtain ⟨hweight, hpaid⟩ := of_decide_eq_true hfacts
  refine ⟨psbt, hpsbt, ?_⟩
  rintro ⟨selected, kept, shares, change, fee, h⟩
  obtain ⟨weight, hweight', hfee⟩ := h.rate
  obtain rfl := ok.inj (hweight.symm.trans hweight')
  obtain rfl := ok.inj (hpaid.symm.trans h.paid)
  exact absurd hfee (by decide)

end Macbeth
