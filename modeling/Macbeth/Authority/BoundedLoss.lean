import Macbeth.Authority.PsbtAgreement
import Macbeth.BtcServer.App

/-!
# What an accepted PSBT can cost the wallet

A PSBT passes two validators in two processes.  The node checks each pegout output against
its burn event, less an equal share of the fee rounded down; btc-server checks that every
other output is the one that returns the change.  Neither bounds the fee, but together they
do: what leaves the wallet is what was burned, plus the remainder of the fee divided by the
number of pegouts.
-/

namespace Macbeth

open Checked Outcome List

/-! ## Which outputs are pegouts -/

/-- The loop of `validate_outputs` puts every output on one side: the ones with an id, and at
most one without. -/
theorem perm_of_collectOutputs : ∀ {outputs : List PsbtOutput} {k : Nat}
    {ids ids' : List PegoutId} {change change' : Option Nat},
    collectOutputs (outputs.zipIdx k) ids change = .ok (ids', change') →
    ∃ found : Option Nat, change' = change.or found ∧ (change.isSome → found = none) ∧
      (List.range' k outputs.length).Perm (((outputs.zipIdx k).filterMap fun x =>
        (x.1.pegoutId.bind PegoutId.fromBytes).map fun id => (x.2, id)).map (·.1) ++ found.toList)
  | [], k, ids, ids', change, change', h => by
    obtain ⟨-, rfl⟩ := Prod.mk.inj (Outcome.ok.inj h)
    exact ⟨none, by simp, fun _ => rfl, by simp⟩
  | output :: outputs, k, ids, ids', change, change', h => by
    rw [zipIdx_cons, collectOutputs] at h
    rw [length_cons, range'_succ, zipIdx_cons, filterMap_cons]
    cases hbytes : output.pegoutId with
    | none =>
      rw [hbytes] at h
      dsimp only at h
      by_cases hchange : change.isSome = true
      · rw [if_pos hchange] at h
        cases h
      · rw [if_neg hchange] at h
        obtain rfl : change = none := by simpa using hchange
        obtain ⟨found, rfl, hnone, hperm⟩ := perm_of_collectOutputs h
        obtain rfl := hnone rfl
        refine ⟨some k, rfl, by simp, ?_⟩
        simpa [hbytes] using (hperm.cons k).trans (perm_append_singleton k _).symm
    | some bytes =>
      rw [hbytes] at h
      obtain ⟨id, hid, h⟩ := bind_eq_ok.mp h
      obtain ⟨found, hchange, hnone, hperm⟩ := perm_of_collectOutputs h
      refine ⟨found, hchange, hnone, ?_⟩
      simpa [hbytes, ofOption_eq_ok.mp hid] using hperm

/-- What `validate_psbt` has passed on the outputs. -/
theorem validateOutputs_of_validatePsbt {btc : BitcoinLib} {lib : SigningLib} {psbt : Psbt}
    {flags : BitVec 8} {minSigners : Nat} {db db' : Db}
    (h : validatePsbt btc lib psbt flags minSigners db = (.ok (), db')) :
    ∃ db'', validateOutputs btc lib psbt db = (.ok (), db'') := by
  obtain ⟨_, s₁, hinputs, h₁⟩ := Handler.bind_eq_ok.mp h
  obtain ⟨-, rfl⟩ := Handler.lift_eq_ok.mp hinputs
  obtain ⟨_, _, hget, h₂⟩ := Handler.bind_eq_ok.mp h₁
  obtain ⟨rfl, rfl⟩ : s₁ = _ ∧ s₁ = _ := by simpa using hget
  obtain ⟨_, s₂, hconflict, h₃⟩ := Handler.bind_eq_ok.mp h₂
  obtain ⟨-, rfl⟩ := Handler.lift_eq_ok.mp hconflict
  obtain ⟨_, s₃, houtputs, h₄⟩ := Handler.bind_eq_ok.mp h₃
  obtain ⟨-, rfl⟩ := Handler.lift_eq_ok.mp houtputs
  obtain ⟨_, s₄, hvalidate, -⟩ := Handler.bind_eq_ok.mp h₄
  have hok := mapErr_eq_ok.mp (Prod.mk.inj hvalidate).1
  exact ⟨_, Prod.ext hok rfl⟩

/-! ## The balance -/

/-- The fee of a PSBT with the values of its inputs. -/
theorem Psbt.fee_eq_ok {psbt : Psbt} {fee : Amount} {value : OutPoint → Amount}
    (hreal : ∀ x ∈ psbt.unsignedTx.input.zip psbt.inputs, ∃ out, x.2.witnessUtxo = some out ∧
      out.value = value x.1.previousOutput) (h : psbt.fee = .ok fee) :
    fee.toNat + natSum (psbt.unsignedTx.output.map (·.value)) =
      natSum (psbt.unsignedTx.inputs.map value) := by
  unfold Psbt.fee at h
  split at h
  · cases h
  case isFalse hlength =>
    obtain ⟨inputs, hinputs, h⟩ := bind_eq_ok.mp h
    obtain ⟨outputs, houtputs, h⟩ := bind_eq_ok.mp h
    have hsub := checkedSub_eq_some.mp (ofOption_eq_ok.mp h)
    have hin : inputs.toNat =
        natSum ((psbt.unsignedTx.input.zip psbt.inputs).map fun x => value x.1.previousOutput) := by
      refine (checkedTotal_eq_ok fun x hx => ?_).mp hinputs
      obtain ⟨out, hwitness, hvalue⟩ := hreal x hx
      simp [fundingUtxo, hwitness, hvalue]
    have hout : outputs.toNat = natSum (psbt.unsignedTx.output.map (·.value)) :=
      (checkedTotal_eq_ok fun _ _ => rfl).mp houtputs
    have hzip : (psbt.unsignedTx.input.zip psbt.inputs).map (fun x => value x.1.previousOutput) =
        psbt.unsignedTx.inputs.map value := by
      have hfst : (psbt.unsignedTx.input.zip psbt.inputs).map Prod.fst = psbt.unsignedTx.input :=
        map_fst_zip (Nat.le_of_eq (not_not.mp hlength).symm)
      conv_rhs => rw [Transaction.inputs, ← hfst, map_map, map_map]
      rfl
    rw [← hout, ← hzip, ← hin]
    exact hsub

/-- Adding the values of outputs by position. -/
theorem natSum_map_getElem? (outputs : List TxOut) :
    ((List.range' 0 outputs.length).map fun i =>
      (outputs[i]?.map fun out => out.value.toNat).getD 0).sum =
      natSum (outputs.map (·.value)) := by
  rw [natSum, map_map]
  congr 1
  refine ext_getElem (by simp) fun i h₁ h₂ => ?_
  have hi : i < outputs.length := by simpa using h₁
  simp [hi]

section
variable {client : Client} {addressFromStr : List UInt8 → Option UncheckedAddress}
  {btcNetwork : Network} {btc : BitcoinLib} {lib : SigningLib} {psbt : Psbt}

/-- How the outputs of a PSBT divide: some pay burned pegouts, by position, id and event; at
most one pays the federation's change script; there are no others. -/
structure OutputsDivide (client : Client) (addressFromStr : List UInt8 → Option UncheckedAddress)
    (btcNetwork : Network) (changeScript : Option ScriptBuf) (psbt : Psbt)
    (burns : List (Nat × PegoutId × PegoutData)) (change : Option Nat) : Prop where
  distinct : (burns.map (·.2.1)).Nodup
  burned : ∀ burn ∈ burns,
    pegoutOfReceipt client addressFromStr btcNetwork burn.2.1 = .ok burn.2.2 ∧
      ∃ out, psbt.unsignedTx.output[burn.1]? = some out ∧
        out.scriptPubkey = burn.2.2.destination
  returned : ∀ idx ∈ change, ∃ out, psbt.unsignedTx.output[idx]? = some out ∧
    changeScript = some out.scriptPubkey
  all : (List.range psbt.unsignedTx.output.length).Perm (burns.map (·.1) ++ change.toList)

/-- The value of an output, by position. -/
def Psbt.outputValue (psbt : Psbt) (i : Nat) : Nat :=
  (psbt.unsignedTx.output[i]?.map fun out => out.value.toNat).getD 0

/-- What the last loop of the node's validation establishes for a pegout. -/
theorem exists_burn_of_validatePegout {fee : Amount} {x : Nat × PegoutId}
    (h : validatePegout client addressFromStr btcNetwork psbt fee x = .ok ()) :
    ∃ data, pegoutOfReceipt client addressFromStr btcNetwork x.2 = .ok data ∧
      (∃ out, psbt.unsignedTx.output[x.1]? = some out ∧ out.scriptPubkey = data.destination) ∧
      psbt.outputValue x.1 + fee.toNat = data.amount.toNat := by
  obtain ⟨data, hdata, h⟩ := bind_eq_ok.mp h
  obtain ⟨out, hout, h⟩ := bind_eq_ok.mp h
  obtain ⟨hscript, hvalue⟩ := validatePsbtByOutput_eq_ok.mp h
  have hat := ofOption_eq_ok.mp hout
  exact ⟨data, hdata, ⟨out, hat, hscript⟩, by simpa [Psbt.outputValue, hat] using hvalue⟩

/-- Pegouts that all bear the same fee share pay what was burned less the shares. -/
theorem sum_outputValue_add {fee : Amount} {data : Nat × PegoutId → PegoutData} :
    ∀ {xs : List (Nat × PegoutId)},
      (∀ x ∈ xs, psbt.outputValue x.1 + fee.toNat = (data x).amount.toNat) →
      (xs.map fun x => psbt.outputValue x.1).sum + xs.length * fee.toNat =
        natSum (xs.map fun x => (data x).amount)
  | [], _ => by simp
  | x :: xs, h => by
    have hhead := h x mem_cons_self
    have htail := sum_outputValue_add fun y hy => h y (mem_cons_of_mem x hy)
    rw [map_cons, map_cons, sum_cons, natSum_cons, length_cons, ← htail,
      Nat.succ_mul]
    omega

/-- For every PSBT that passes the node's `validate_psbt_by_ids` and btc-server's
`validate_psbt`, whose witness outputs tell the values of the inputs: every output pays a
distinct burned pegout or is the only one to the change script, and what leaves the wallet is
at least what was burned and less than that plus one satoshi per pegout. -/
theorem accepted_psbt_loss {flags : BitVec 8} {minSigners : Nat} {db db' : Db}
    {value : OutPoint → Amount}
    (hnode : validatePsbtByIds client addressFromStr btcNetwork psbt = .ok ())
    (hserver : validatePsbt btc lib psbt flags minSigners db = (.ok (), db'))
    (hreal : ∀ x ∈ psbt.unsignedTx.input.zip psbt.inputs, ∃ out, x.2.witnessUtxo = some out ∧
      out.value = value x.1.previousOutput) :
    ∃ pk burns change, db.publicKeyPackage = some pk ∧
      OutputsDivide client addressFromStr btcNetwork (changeScript btc lib pk) psbt burns change ∧
      natSum (burns.map (·.2.2.amount)) + (change.map psbt.outputValue).getD 0 ≤
        natSum (psbt.unsignedTx.inputs.map value) ∧
      natSum (psbt.unsignedTx.inputs.map value) <
        natSum (burns.map (·.2.2.amount)) + (change.map psbt.outputValue).getD 0 +
          burns.length := by
  obtain ⟨hlength, hne, hnodup, -, -, share, hshare, hpegouts⟩ := validatePsbtByIds_eq_ok.mp hnode
  obtain ⟨_, houtputs⟩ := validateOutputs_of_validatePsbt hserver
  obtain ⟨-, pk, ids, change, hpk, hcollect, -, -, hchange⟩ := validateOutputs_eq_ok houtputs
  obtain ⟨found, hfound, -, hperm⟩ := perm_of_collectOutputs hcollect
  obtain rfl : change = found := by simpa using hfound
  -- the two validators read the same ids
  change (range' 0 psbt.outputs.length).Perm
    ((extractPegoutIds psbt).map (·.1) ++ change.toList) at hperm
  rw [hlength] at hperm
  have hdata := fun x hx => exists_burn_of_validatePegout (hpegouts x hx)
  have : Nonempty PegoutData := ⟨⟨0, [], btcNetwork⟩⟩
  choose! data hburn hout hvalue using hdata
  refine ⟨pk, (extractPegoutIds psbt).map fun x => (x.1, x.2, data x), change, hpk, ?_, ?_⟩
  · refine ⟨by simpa [Function.comp_def] using hnodup, ?_, ?_, ?_⟩
    · intro burn hmem
      obtain ⟨x, hx, rfl⟩ := mem_map.mp hmem
      exact ⟨hburn x hx, hout x hx⟩
    · intro idx hidx
      obtain ⟨expected, out, hexpected, hat, rfl⟩ := hchange idx hidx
      exact ⟨out, hat, hexpected⟩
    · rw [range_eq_range', map_map]
      exact hperm
  -- the balance: the fee is what the shares take and a remainder
  obtain ⟨fee, hfee, hdiv⟩ := bind_eq_ok.mp hshare
  obtain ⟨hn, hdiv⟩ := checkedDiv_eq_some.mp (ofOption_eq_ok.mp hdiv)
  have hbalance := Psbt.fee_eq_ok hreal (mapErr_eq_ok.mp hfee)
  have hsum : natSum (psbt.unsignedTx.output.map (·.value)) =
      ((extractPegoutIds psbt).map fun x => psbt.outputValue x.1).sum +
        (change.map psbt.outputValue).getD 0 := by
    rw [← natSum_map_getElem?, (hperm.map _).sum_eq, map_append, sum_append, map_map]
    congr 1
    cases change <;> simp [Psbt.outputValue]
  have hburned := sum_outputValue_add hvalue
  have hmod := Nat.div_add_mod fee.toNat (extractPegoutIds psbt).length
  have hlt := Nat.mod_lt fee.toNat (Nat.pos_of_ne_zero hn)
  rw [hdiv] at hburned
  rw [map_map, length_map]
  simp only [Function.comp_def]
  omega

end

/-! ## Two pegouts from one coin -/

/-- The generator of the curve, as a group key. -/
def generatorKey : PublicKey :=
  ⟨false, 0x79be667ef9dcbbac55a06295ce870b07029bfcdb2dce28d959f2815b16f81798⟩

/-- The taproot output key of the generator. -/
def generatorOutputKey : BitVec 256 :=
  0xda4710964f7852695de2da025290e24af6d8c281de5a0b902b7135fd9fd74d21

/-- The signing library, with the output key of the generator. -/
def generatorSigning : SigningLib :=
  { fixedLengthSigning with
    tapTweak := fun x => if x = generatorKey.x then generatorOutputKey else x }

/-- A million satoshis pay two burns of 100,000, with 173 satoshis of fee each. -/
def twoPegoutsPsbt : Psbt where
  unsignedTx := ⟨2, 0, [⟨⟨0xc0, 0⟩, [], enableRbfNoLocktime, []⟩],
    [⟨99827, sampleDestination⟩, ⟨99827, sampleDestination⟩, ⟨800000, p2tr generatorOutputKey⟩]⟩
  inputs := [{ PsbtInput.empty with witnessUtxo := some ⟨1000000, p2tr 9⟩ }]
  outputs := [PsbtOutput.empty.setPegoutId (PegoutId.asBytes ⟨sampleBurnTx, 0⟩),
    PsbtOutput.empty.setPegoutId (PegoutId.asBytes ⟨sampleBurnTx, 1⟩), PsbtOutput.empty]

/-- The wallet with the generator as group key. -/
def generatorDb : Db := { freshDb with publicKeyPackage := some (.point generatorKey) }

/-- Both validators accept it, and the wallet loses what was burned, to the satoshi. -/
theorem twoPegoutsPsbt_loss :
    ∃ pk burns change, generatorDb.publicKeyPackage = some pk ∧
      OutputsDivide sampleClient sampleAddressFromStr .bitcoin
        (changeScript federationBitcoin generatorSigning pk) twoPegoutsPsbt burns change ∧
      natSum (burns.map (·.2.2.amount)) + (change.map twoPegoutsPsbt.outputValue).getD 0 ≤
        natSum (twoPegoutsPsbt.unsignedTx.inputs.map fun _ => (1000000 : Amount)) ∧
      natSum (twoPegoutsPsbt.unsignedTx.inputs.map fun _ => (1000000 : Amount)) <
        natSum (burns.map (·.2.2.amount)) + (change.map twoPegoutsPsbt.outputValue).getD 0 +
          burns.length := by
  have hnode : validatePsbtByIds sampleClient sampleAddressFromStr .bitcoin twoPegoutsPsbt =
      .ok () := by decide +kernel
  have hserver : (validatePsbt federationBitcoin generatorSigning twoPegoutsPsbt noFlags 2
      generatorDb).1 = .ok () := by decide +kernel
  have hreal : ∀ x ∈ twoPegoutsPsbt.unsignedTx.input.zip twoPegoutsPsbt.inputs,
      ∃ out, x.2.witnessUtxo = some out ∧ out.value = 1000000 := by
    intro x hx
    obtain rfl : x = _ := by simpa [twoPegoutsPsbt] using hx
    exact ⟨_, rfl, rfl⟩
  exact accepted_psbt_loss hnode (Prod.ext hserver rfl) hreal

end Macbeth
