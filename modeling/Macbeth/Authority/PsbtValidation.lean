import Macbeth.Peg.MintValidation
import Macbeth.Wallet.Psbt

/-!
# Validating a proposed pegout PSBT (`consensus/authority/src/utils.rs`)

Before a member of the federation asks its signer for anything, the node checks the
coordinator's PSBT against its own receipts: every output but one names a pegout, no
pegout twice, each is young enough, and each output pays the burn event's destination
the burnt amount less an equal share of the fee.
-/

namespace Macbeth

open Checked Outcome List

/-- `PsbtValidationError`.  Where the source formats a hash or a number into the text,
the constructor carries it beside the text. -/
inductive PsbtValidationError where
  | failedToValidatePsbtByIds (msg : String)
  | failedToGetOutput (msg : String) (position : Nat)
  | failedToGetTransactionByPegoutId (msg : String) (txid : BitVec 256)
  | failedToGetHeaderForPegoutId (msg : String) (key : BitVec 256)
  | pegoutIdOutsideMaximumCutoffAge (msg : String) (txHash : BitVec 256)
  deriving DecidableEq, Repr

/-- A failed read of the node's database. -/
structure ProviderError where
  deriving DecidableEq, Repr

/-- The node's database as the validation reads it, and its clock. -/
structure Client where
  /-- `receipt_by_hash`: the logs of the receipt. -/
  receiptByHash : BitVec 256 → Except ProviderError (Option (List Log))
  /-- `transaction_by_hash_with_meta`: the number of the block the transaction is in. -/
  transactionBlock : BitVec 256 → Except ProviderError (Option (BitVec 64))
  /-- `header_by_number`: the timestamp of the header. -/
  headerTimestamp : BitVec 64 → Except ProviderError (Option (BitVec 64))
  /-- Seconds since the epoch; none when the clock stands before it. -/
  now : Option (BitVec 64)

/-- `MAX_BLOCK_TS_CUTOFF_DURATION_SECS`: three months. -/
def maxBlockTsCutoffDurationSecs : Nat := 30 * 24 * 60 * 60 * 3

/-- `is_block_age_acceptable`. -/
def isBlockAgeAcceptable (now : Option (BitVec 64)) (timestamp : BitVec 64)
    (maxAgeCutoff : Nat) : Bool :=
  match now with
  | none => false
  | some now => now.toNat - maxAgeCutoff < timestamp.toNat

/-- `validate_psbt_id_by_maximum_cutoff_age`. -/
def validatePsbtIdByMaximumCutoffAge (client : Client) (pegoutId : PegoutId) :
    Outcome PsbtValidationError Unit := do
  let block ← ofExcept (client.transactionBlock pegoutId.txid) fun _ =>
    .failedToGetTransactionByPegoutId "Failed to get transaction by pegout id from database"
      pegoutId.txid
  let number ← ofOption block
    (.failedToGetTransactionByPegoutId "Transaction not found for pegout id" pegoutId.txid)
  let header ← ofExcept (client.headerTimestamp number) fun _ =>
    .failedToGetHeaderForPegoutId "Failed to get header by number from database"
      (number.setWidth 256)
  let timestamp ← ofOption header
    (.failedToGetHeaderForPegoutId "Header not found for pegout id" pegoutId.txid)
  ensure (isBlockAgeAcceptable client.now timestamp maxBlockTsCutoffDurationSecs = true)
    (.pegoutIdOutsideMaximumCutoffAge "is outside the maximum cutoff range" pegoutId.txid)

/-- `extract_pegout_ids`: with the position of the output that carries each. -/
def extractPegoutIds (psbt : Psbt) : List (Nat × PegoutId) :=
  psbt.outputs.zipIdx.filterMap fun x =>
    (x.1.pegoutId.bind PegoutId.fromBytes).map fun id => (x.2, id)

/-- `validate_psbt_by_output`. -/
def validatePsbtByOutput (txOut : TxOut) (destination : ScriptBuf) (amount feePerOutput : Amount) :
    Outcome PsbtValidationError Unit := do
  ensure (txOut.scriptPubkey = destination)
    (.failedToValidatePsbtByIds "Output script pubkey does not match destination")
  let expectedAmount ← ofOption (checkedSub amount feePerOutput)
    (.failedToValidatePsbtByIds "Calculating expected amount caused an underflow")
  ensure (txOut.value = expectedAmount)
    (.failedToValidatePsbtByIds "The output value does not match the expected amount")

section validate
variable (client : Client) (addressFromStr : List UInt8 → Option UncheckedAddress)
  (btcNetwork : Network)

/-- The burn event a pegout id names, as the last loop reads it. -/
def pegoutOfReceipt (pegoutId : PegoutId) : Outcome PsbtValidationError PegoutData := do
  let log ← ofOption
    (match client.receiptByHash pegoutId.txid with
      | .ok (some logs) => logs[pegoutId.idx.toNat]?
      | _ => none)
    (.failedToValidatePsbtByIds "Failed to get log from receipts")
  let pegout ← ofExcept (tryParseBurnEvent addressFromStr log btcNetwork) fun _ =>
    .failedToValidatePsbtByIds "Failed to parse burn event"
  ofOption pegout (.failedToValidatePsbtByIds "Failed to get pegout data from burn event")

/-- The body of the last loop. -/
def validatePegout (psbt : Psbt) (feePerOutput : Amount) (pegout : Nat × PegoutId) :
    Outcome PsbtValidationError Unit := do
  let data ← pegoutOfReceipt client addressFromStr btcNetwork pegout.2
  let txOut ← ofOption psbt.unsignedTx.output[pegout.1]?
    (.failedToGetOutput "Failed to get output in unsigned_tx at position" pegout.1)
  validatePsbtByOutput txOut data.destination data.amount feePerOutput

/-- `validate_psbt_by_ids`. -/
def validatePsbtByIds (psbt : Psbt) : Outcome PsbtValidationError Unit := do
  ensure (psbt.outputs.length = psbt.unsignedTx.output.length)
    (.failedToValidatePsbtByIds
      "Mismatch between number of PSBT outputs and unsigned transaction outputs")
  let pegoutIds := extractPegoutIds psbt
  ensure (pegoutIds ≠ []) (.failedToValidatePsbtByIds "No pegout ids found in psbt")
  ensure (pegoutIds.map (·.2)).Nodup
    (.failedToValidatePsbtByIds "Duplicate pegout ID found in PSBT outputs")
  pegoutIds.forM fun x => validatePsbtIdByMaximumCutoffAge client x.2
  let changeOutputCount := (List.range psbt.outputs.length).countP
    fun i => !(pegoutIds.map (·.1)).contains i
  ensure (changeOutputCount ≤ 1)
    (.failedToValidatePsbtByIds "Multiple change outputs (non-pegout IDs) found in PSBT outputs")
  let feePerOutput ← (psbt.feePerOutput pegoutIds.length).mapErr fun _ =>
    .failedToValidatePsbtByIds "Failed to get fee per output"
  pegoutIds.forM (validatePegout client addressFromStr btcNetwork psbt feePerOutput)

end validate

theorem validatePsbtByOutput_eq_ok {txOut : TxOut} {destination : ScriptBuf}
    {amount feePerOutput : Amount} :
    validatePsbtByOutput txOut destination amount feePerOutput = .ok () ↔
      txOut.scriptPubkey = destination ∧ txOut.value.toNat + feePerOutput.toNat = amount.toNat := by
  simp only [validatePsbtByOutput, bind_eq_ok, ensure_eq_ok, ofOption_eq_ok, exists_const]
  constructor
  · rintro ⟨hscript, expected, hsub, rfl⟩
    exact ⟨hscript, checkedSub_eq_some.mp hsub⟩
  · rintro ⟨hscript, hsub⟩
    exact ⟨hscript, txOut.value, checkedSub_eq_some.mpr hsub, rfl⟩

/-- The ids found in a PSBT whose first outputs carry ids and whose others carry none. -/
theorem extractPegoutIds_of_outputs {psbt : Psbt} {ids : List PegoutId} {rest : List PsbtOutput}
    (h : psbt.outputs = ids.map (fun id => PsbtOutput.empty.setPegoutId id.asBytes) ++ rest)
    (hrest : ∀ output ∈ rest, output.pegoutId = none) :
    extractPegoutIds psbt = ids.zipIdx.map Prod.swap := by
  rw [extractPegoutIds, h, zipIdx_append, filterMap_append]
  have hnone : (rest.zipIdx (0 + (ids.map fun id =>
      PsbtOutput.empty.setPegoutId id.asBytes).length)).filterMap (fun x =>
        (x.1.pegoutId.bind PegoutId.fromBytes).map fun id => (x.2, id)) = [] := by
    rw [filterMap_eq_nil_iff]
    intro x hx
    rw [hrest x.1 (fst_mem_of_mem_zipIdx hx)]
    rfl
  rw [hnone, append_nil, zipIdx_map, filterMap_map, ← filterMap_eq_map]
  refine filterMap_congr fun x _ => ?_
  simp only [Function.comp_apply, Prod.map_fst, Prod.map_snd, PsbtOutput.pegoutId_setPegoutId,
    Option.bind_some, PegoutId.fromBytes_asBytes, Option.map_some, id_eq]
  rfl

end Macbeth
