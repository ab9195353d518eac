import Macbeth.BtcServer.PegoutId
import Macbeth.BtcServer.Utxo
import Macbeth.Lib.Checked
import Macbeth.Lib.FinMap

/-!
# Pegout PSBTs (`wallet/psbt.rs`)

A partially signed transaction as `rust-bitcoin` has it: the unsigned transaction and,
per input and output, the data signers exchange.  Everything of this repository's own
travels in the proprietary maps, under the prefix `btx`: the EVM address of an input's
tweak, the version of the wallet record, and the pegout id of an output.

`Psbt.fee` and `Psbt.extractTx` are the library's own checks, which the builder and the
validator of pegout transactions call.
-/

namespace Macbeth

open Bytes Checked Outcome List BitVec

/-! ## Data -/

structure ProprietaryKey where
  keyPrefix : List UInt8
  subtype : UInt8
  key : List UInt8
  deriving DecidableEq, Repr

abbrev Proprietary := FinMap ProprietaryKey (List UInt8)

structure PsbtInput where
  witnessUtxo : Option TxOut
  nonWitnessUtxo : Option Transaction
  finalScriptSig : Option ScriptBuf
  finalScriptWitness : Option (List (List UInt8))
  proprietary : Proprietary
  deriving DecidableEq

structure PsbtOutput where
  proprietary : Proprietary
  deriving DecidableEq

structure Psbt where
  unsignedTx : Transaction
  inputs : List PsbtInput
  outputs : List PsbtOutput
  deriving DecidableEq

/-- `Input::default()`. -/
def PsbtInput.empty : PsbtInput := ⟨none, none, none, none, ∅⟩

/-- `Output::default()`. -/
def PsbtOutput.empty : PsbtOutput := ⟨∅⟩

/-- `Psbt::from_unsigned_tx` of a transaction without signatures. -/
def Psbt.fromUnsignedTx (tx : Transaction) : Psbt :=
  ⟨tx, List.replicate tx.input.length .empty, List.replicate tx.output.length .empty⟩

/-! ## Proprietary fields -/

/-- `PROP_KEY_PREFIX`: the bytes of `btx`. -/
def propKeyPrefix : List UInt8 := [0x62, 0x74, 0x78]

/-- A key of this repository with the given subtype and data. -/
def propKey (subtype : UInt8) (key : List UInt8) : ProprietaryKey := ⟨propKeyPrefix, subtype, key⟩

/-- `ETH_ADDRESS_KEY`. -/
def ethAddressKey : ProprietaryKey := propKey 1 []

/-- `UTXO_VERSION_TYPE_KEY`. -/
def utxoVersionTypeKey : ProprietaryKey := propKey 4 []

/-- `PEGOUT_ID_KEY`: the subtype of the version, but in an output. -/
def pegoutIdKey : ProprietaryKey := propKey 4 []

def PsbtInput.setEthAddress (input : PsbtInput) (address : Address) : PsbtInput :=
  { input with proprietary := input.proprietary.insert ethAddressKey (Address.toBytes address) }

def PsbtInput.addVersionToPsbt (input : PsbtInput) (version : BitVec 32) : PsbtInput :=
  { input with
    proprietary := input.proprietary.insert utxoVersionTypeKey (toLE 4 version.toNat) }

/-- `eth_address`: a field of another length than 20 bytes counts as absent. -/
def PsbtInput.ethAddress (input : PsbtInput) : Option Address :=
  (input.proprietary.lookup ethAddressKey).bind fun b =>
    if b.length = 20 then some (Address.ofBytes b) else none

def PsbtOutput.setPegoutId (output : PsbtOutput) (pegoutId : List UInt8) : PsbtOutput :=
  { output with proprietary := output.proprietary.insert pegoutIdKey pegoutId }

/-- `pegout_id`: the 36 bytes, if the field has that length. -/
def PsbtOutput.pegoutId (output : PsbtOutput) : Option (List UInt8) :=
  (output.proprietary.lookup pegoutIdKey).bind fun b => if b.length = 36 then some b else none

/-- `pegout_ids`. -/
def Psbt.pegoutIds (psbt : Psbt) : List (List UInt8) := psbt.outputs.filterMap (·.pegoutId)

@[simp] theorem PsbtOutput.pegoutId_empty : PsbtOutput.empty.pegoutId = none := rfl

@[simp] theorem PsbtOutput.pegoutId_setPegoutId (output : PsbtOutput) (id : PegoutId) :
    (output.setPegoutId id.asBytes).pegoutId = some id.asBytes := by
  simp [setPegoutId, pegoutId, AList.lookup_insert]

/-! ## The library's fee and extraction checks -/

/-- `bitcoin::psbt::Error`, as far as the fee goes. -/
inductive PsbtError where
  | missingUtxo
  | psbtUtxoOutOfbounds
  | negativeFee
  | feeOverflow
  deriving DecidableEq, Repr

/-- One step of `iter_funding_utxos`: the output an input spends. -/
def fundingUtxo (x : TxIn × PsbtInput) : Outcome PsbtError TxOut :=
  match x.2.witnessUtxo, x.2.nonWitnessUtxo with
  | some out, _ => .ok out
  | none, some tx =>
    ofOption tx.output[x.1.previousOutput.vout.toNat]? .psbtUtxoOutOfbounds
  | none, none => .err .missingUtxo

/-- A running total with `checked_add`. -/
def checkedTotal {α : Type} (value : α → Outcome PsbtError Amount) (xs : List α) :
    Outcome PsbtError Amount :=
  xs.foldlM (fun (acc : Amount) x => do
    let v ← value x
    ofOption (checkedAdd acc v) .feeOverflow) 0

/-- `Psbt::fee`. -/
def Psbt.fee (psbt : Psbt) : Outcome PsbtError Amount := do
  -- `assert_eq!(self.inputs.len(), self.unsigned_tx.input.len())`
  if psbt.inputs.length ≠ psbt.unsignedTx.input.length then .panic
  else
    let inputs ← checkedTotal (fun x => do let out ← fundingUtxo x; pure out.value)
      (psbt.unsignedTx.input.zip psbt.inputs)
    let outputs ← checkedTotal (fun out => pure out.value) psbt.unsignedTx.output
    ofOption (checkedSub inputs outputs) .negativeFee

/-- `PsbtFeePerOutputError`. -/
inductive PsbtFeePerOutputError where
  | feeError (e : PsbtError)
  | divideByZero
  deriving DecidableEq, Repr

/-- `fee_per_output`: the fee divided evenly, rounded down. -/
def Psbt.feePerOutput (psbt : Psbt) (numOutputs : Nat) :
    Outcome PsbtFeePerOutputError Amount := do
  let fee ← psbt.fee.mapErr .feeError
  ofOption (checkedDiv fee numOutputs) .divideByZero

/-- `ExtractTxError`. -/
inductive ExtractTxError where
  | absurdFeeRate
  | missingInputValue
  | sendingTooMuch
  deriving DecidableEq, Repr

/-- `internal_extract_tx`: the unsigned transaction with the final scripts in place. -/
def Psbt.internalExtractTx (psbt : Psbt) : Transaction :=
  { psbt.unsignedTx with
    input := List.zipWith (fun (vin : TxIn) (input : PsbtInput) =>
      { vin with
        scriptSig := input.finalScriptSig.getD []
        witness := input.finalScriptWitness.getD [] }) psbt.unsignedTx.input psbt.inputs }

/-- `DEFAULT_MAX_FEE_RATE`: 25,000 sat/vB, in satoshis per thousand weight units. -/
def defaultMaxFeeRate : Nat := 25000 * 1000 / 4

/-- `Psbt::extract_tx`. -/
def Psbt.extractTx (psbt : Psbt) : Outcome ExtractTxError Transaction :=
  match psbt.fee with
  | .ok fee =>
    let tx := psbt.internalExtractTx
    if defaultMaxFeeRate < min (fee.toNat * 1000) (2 ^ 64 - 1) / tx.weight then
      .err .absurdFeeRate
    else .ok tx
  | .err .missingUtxo => .err .missingInputValue
  | .err .negativeFee => .err .sendingTooMuch
  | .err .feeOverflow => .err .absurdFeeRate
  | .err .psbtUtxoOutOfbounds => .panic
  | .panic => .panic

/-! ## What the checks read -/

/-- An input without what signers exchange. -/
def PsbtInput.bare (input : PsbtInput) : PsbtInput := { input with proprietary := ∅ }

/-- The PSBT without what signers exchange. -/
def Psbt.bare (psbt : Psbt) : Psbt := { psbt with inputs := psbt.inputs.map PsbtInput.bare }

theorem checkedTotal_map {α β : Type} (f : α → β) (value : β → Outcome PsbtError Amount)
    (xs : List α) : checkedTotal value (xs.map f) = checkedTotal (value ∘ f) xs :=
  foldlM_map ..

theorem Psbt.fee_bare (psbt : Psbt) : psbt.bare.fee = psbt.fee := by
  simp only [Psbt.fee, Psbt.bare, length_map, zip_map_right, checkedTotal_map]
  rfl

theorem Psbt.internalExtractTx_bare (psbt : Psbt) :
    psbt.bare.internalExtractTx = psbt.internalExtractTx := by
  simp only [Psbt.internalExtractTx, Psbt.bare, zipWith_map_right]
  rfl

/-- The extracted transaction does not depend on the proprietary fields. -/
theorem Psbt.extractTx_bare (psbt : Psbt) : psbt.bare.extractTx = psbt.extractTx := by
  simp only [Psbt.extractTx, Psbt.fee_bare, Psbt.internalExtractTx_bare]

/-- An extracted transaction is the unsigned one but for scripts and witnesses. -/
theorem Psbt.inputs_of_extractTx {psbt : Psbt} {tx : Transaction} (h : psbt.extractTx = .ok tx) :
    tx.inputs = psbt.unsignedTx.inputs ∧ tx.input.length = psbt.inputs.length := by
  unfold Psbt.extractTx at h
  cases hfee : psbt.fee with
  | err e => rw [hfee] at h; cases e <;> cases h
  | panic => rw [hfee] at h; cases h
  | ok fee =>
    have hlen : psbt.inputs.length = psbt.unsignedTx.input.length := by
      by_contra hne
      rw [Psbt.fee, if_pos hne] at hfee
      cases hfee
    rw [hfee] at h
    dsimp only at h
    split at h
    · cases h
    · obtain rfl := Outcome.ok.inj h
      refine ⟨?_, by simp [Psbt.internalExtractTx, hlen]⟩
      apply ext_getElem
      · simp [Psbt.internalExtractTx, Transaction.inputs, hlen]
      · intro i _ _
        simp [Psbt.internalExtractTx, Transaction.inputs]

/-! ## Building a pegout PSBT -/

/-- `InputDTO`. -/
structure InputDTO where
  outpoint : OutPoint
  output : TxOut
  ethAddress : Option Address
  version : UtxoVersion
  deriving DecidableEq, Repr

/-- `Sequence::ENABLE_RBF_NO_LOCKTIME`. -/
def enableRbfNoLocktime : BitVec 32 := 0xFFFFFFFD

/-- The metadata `create_psbt` adds to an input. -/
def PsbtInput.withUtxo (input : PsbtInput) (utxo : InputDTO) : PsbtInput :=
  let input := { input with witnessUtxo := some utxo.output }
  let input := match utxo.ethAddress with
    | some address => input.setEthAddress address
    | none => input
  input.addVersionToPsbt utxo.version.toU32

/-- A pass of `for (x, y) in xs.iter_mut().zip(ys)`: elements without a partner stay. -/
def zipModify {α β : Type} (f : α → β → α) : List α → List β → List α
  | x :: xs, y :: ys => f x y :: zipModify f xs ys
  | xs, _ => xs

/-- `create_psbt`. -/
def createPsbt (inputs : List InputDTO) (outputs : List (TxOut × List UInt8))
    (change : Option TxOut) : Psbt :=
  let tx : Transaction :=
    { version := 2
      lockTime := 0
      input := inputs.map fun u => ⟨u.outpoint, [], enableRbfNoLocktime, []⟩
      output := outputs.map (·.1) ++ change.toList }
  let psbt := Psbt.fromUnsignedTx tx
  { psbt with
    inputs := zipModify PsbtInput.withUtxo psbt.inputs inputs
    outputs := zipModify (fun output o => output.setPegoutId o.2) psbt.outputs outputs }

section created
variable {inputs : List InputDTO} {outputs : List (TxOut × List UInt8)} {change : Option TxOut}

theorem zipModify_replicate {α β : Type} (f : α → β → α) (a : α) :
    ∀ (n : Nat) (ys : List β), ys.length ≤ n →
      zipModify f (List.replicate n a) ys = ys.map (f a) ++ List.replicate (n - ys.length) a
  | 0, [], _ => rfl
  | n + 1, [], _ => rfl
  | n + 1, y :: ys, h => by
    have hn : ys.length ≤ n := by simpa using h
    rw [List.replicate_succ, zipModify, zipModify_replicate f a n ys hn]
    simp

@[simp] theorem output_createPsbt :
    (createPsbt inputs outputs change).unsignedTx.output = outputs.map (·.1) ++ change.toList :=
  rfl

theorem inputs_createPsbt :
    (createPsbt inputs outputs change).inputs = inputs.map PsbtInput.empty.withUtxo := by
  show zipModify _ (List.replicate _ _) inputs = _
  rw [zipModify_replicate _ _ _ _ (by simp)]
  simp

/-- The outputs of the pegouts carry their ids, the change output carries none. -/
theorem outputs_createPsbt :
    (createPsbt inputs outputs change).outputs =
      outputs.map (fun o => PsbtOutput.empty.setPegoutId o.2) ++
        change.toList.map fun _ => PsbtOutput.empty := by
  show zipModify _ (List.replicate _ _) outputs = _
  rw [zipModify_replicate _ _ _ _ (by simp)]
  cases change <;> simp

@[simp] theorem PsbtInput.witnessUtxo_withUtxo (input : PsbtInput) (utxo : InputDTO) :
    (input.withUtxo utxo).witnessUtxo = some utxo.output := by
  unfold withUtxo
  cases utxo.ethAddress <;> rfl

end created

/-- A checked total of known values is their sum. -/
theorem checkedTotal_eq_ok {α : Type} {value : α → Outcome PsbtError Amount} {v : α → Amount}
    {xs : List α} {t : Amount} (h : ∀ x ∈ xs, value x = .ok (v x)) :
    checkedTotal value xs = .ok t ↔ t.toNat = natSum (xs.map v) := by
  have hfold : ∀ (xs : List α) (acc : Amount), (∀ x ∈ xs, value x = .ok (v x)) →
      xs.foldlM (fun (acc : Amount) x => do
        let v ← value x
        ofOption (checkedAdd acc v) .feeOverflow) acc =
      ofOption (checkedSumFrom acc (xs.map v)) .feeOverflow := by
    intro xs
    induction xs with
    | nil => intros; rfl
    | cons x xs ih =>
      intro acc h
      rw [foldlM_cons, h x mem_cons_self, map_cons, checkedSumFrom, ok_bind]
      cases checkedAdd acc (v x) with
      | none => rfl
      | some acc' => exact ih acc' fun y hy => h y (mem_cons_of_mem x hy)
  rw [checkedTotal, hfold xs 0 h, ofOption_eq_ok]
  exact checkedSum_eq_some

/-- The fee of a pegout PSBT is what its inputs are worth more than its outputs. -/
theorem fee_createPsbt {inputs : List InputDTO} {outputs : List (TxOut × List UInt8)}
    {change : Option TxOut} {fee : Amount} :
    (createPsbt inputs outputs change).fee = .ok fee ↔
      natSum (inputs.map (·.output.value)) < 2 ^ 64 ∧
      fee.toNat + natSum ((outputs.map (·.1) ++ change.toList).map (·.value)) =
        natSum (inputs.map (·.output.value)) := by
  have hlen : (createPsbt inputs outputs change).inputs.length =
      (createPsbt inputs outputs change).unsignedTx.input.length := by
    rw [inputs_createPsbt]; simp [createPsbt, Psbt.fromUnsignedTx]
  have hfunding : ∀ x ∈ (createPsbt inputs outputs change).unsignedTx.input.zip
      (createPsbt inputs outputs change).inputs,
      (do let out ← fundingUtxo x; pure out.value : Outcome PsbtError Amount) =
        .ok ((x.2.witnessUtxo.map (·.value)).getD 0) := by
    intro x hx
    rw [inputs_createPsbt] at hx
    obtain ⟨utxo, -, hutxo⟩ := mem_map.mp (of_mem_zip hx).2
    simp [fundingUtxo, ← hutxo]
  have hvalues : ((createPsbt inputs outputs change).unsignedTx.input.zip
      (createPsbt inputs outputs change).inputs).map
        (fun x => (x.2.witnessUtxo.map (·.value)).getD 0) = inputs.map (·.output.value) := by
    rw [← Function.comp_def (fun y : PsbtInput => (y.witnessUtxo.map (·.value)).getD 0) Prod.snd,
      ← map_map, map_snd_zip (by rw [hlen]), inputs_createPsbt, map_map]
    simp [Function.comp_def]
  have houtputs : ∀ {t : Amount},
      checkedTotal (fun out : TxOut => pure out.value) (outputs.map (·.1) ++ change.toList) =
        .ok t ↔ t.toNat = natSum ((outputs.map (·.1) ++ change.toList).map (·.value)) :=
    checkedTotal_eq_ok fun _ _ => rfl
  unfold Psbt.fee
  rw [if_neg (not_not.mpr hlen)]
  simp only [bind_eq_ok, checkedTotal_eq_ok hfunding, hvalues, ofOption_eq_ok, houtputs,
    checkedSub_eq_some, output_createPsbt]
  constructor
  · rintro ⟨ins, hins, outs, houts, hfee⟩
    exact ⟨hins ▸ ins.isLt, by rw [← houts, ← hins, hfee]⟩
  · rintro ⟨hlt, hfee⟩
    have hins := Nat.mod_eq_of_lt hlt
    have houts := Nat.mod_eq_of_lt (Nat.lt_of_le_of_lt (Nat.le.intro (Nat.add_comm _ _ ▸ hfee)) hlt)
    refine ⟨BitVec.ofNat 64 _, by rw [toNat_ofNat, hins], BitVec.ofNat 64 _,
      by rw [toNat_ofNat, houts], ?_⟩
    rw [toNat_ofNat, toNat_ofNat, hins, houts]
    exact hfee

end Macbeth
