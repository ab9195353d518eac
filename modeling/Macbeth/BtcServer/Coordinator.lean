import Macbeth.BtcServer.PsbtChecks
import Macbeth.Wallet.CoinSelection

/-!
# The coordinator's side of a signing session (`coordinator/mod.rs`)

The coordinator builds the PSBT of the pending pegouts, with an input of every tracked
transaction that already delivers one of them, collects what the signers add to it, and in
the end aggregates the signatures.
-/

namespace Macbeth

open Outcome

inductive CoordinatorError where
  | coinSelection (e : CoinSelectionError)
  | validatePsbt (e : ValidatePSBTError)
  | walletCalculation (e : WalletCalculationError)
  | noConflictingInputs
  | missingUtxoForConflictingInput
  | transactionTooLarge
  | couldNotFindParticipantInformation
  | couldNotFindPsbt
  | missingKeyPackage
  | conversion (e : PsbtToSigningPackageConversionError)
  | finalizationFailed
  | combineFailed
  deriving DecidableEq, Repr

/-- `MAX_PEGOUT_TX_WEIGHT`. -/
def maxPegoutTxWeight : Nat := 50000

/-- What building a transaction depends on besides the tables. -/
structure MakeTxConfig where
  /-- Overflow checks of the build. -/
  checks : Bool
  algorithm : CoinSelectionAlgorithm
  excludedEthAddresses : List Address

/-- `filter_excluded_utxos`. -/
def filterExcludedUtxos (utxos : FinMap OutPoint Utxo) (excluded : List Address) :
    FinMap OutPoint Utxo :=
  if excluded.isEmpty then utxos
  else utxos.filter fun _ utxo => !utxo.ethAddress.any (excluded.contains ·)

section coordinator
variable (btc : BitcoinLib) (lib : SigningLib) (minSigners : Nat)

/-- The coins to be spent so that the transaction conflicts with the tracked ones that
deliver the same pegouts: the first input of each. -/
def conflictingUtxos (utxos : FinMap OutPoint Utxo) (trackedTxs : List Tx) (ids : List PegoutId) :
    Outcome CoordinatorError (FinMap OutPoint Utxo) := do
  let inputs ← (trackedTxs.filter fun tx => tx.pegoutIds.any (ids.contains ·)).mapM fun tx =>
    ofOption tx.inputs.head? .noConflictingInputs
  let coins ← inputs.mapM fun op =>
    (ofOption (utxos.lookup op) .missingUtxoForConflictingInput : Outcome CoordinatorError Utxo)
  pure (FinMap.ofList (inputs.zip coins))

/-- `attempt_make_tx`. -/
def attemptMakeTx (config : MakeTxConfig) (outputs : List (TxOut × PegoutId)) (feeRate : FeeRate)
    (script : ScriptBuf) (trackedTxs : List Tx) : Handler Db CoordinatorError Psbt := do
  let utxos := (← Handler.get).utxos
  let trackedInputs := trackedTxs.flatMap Tx.inputs
  let optionalUtxos := (filterExcludedUtxos utxos config.excludedEthAddresses).filter
    fun op _ => !trackedInputs.contains op
  let conflicting ← Handler.lift (conflictingUtxos utxos trackedTxs (outputs.map (·.2)))
  let psbt ← Handler.lift ((coinSelection config.checks config.algorithm optionalUtxos conflicting
    outputs feeRate script).mapErr .coinSelection)
  Handler.zoom id (fun db _ => db) .validatePsbt (validatePsbt btc lib psbt noFlags minSigners)
  pure psbt

/-- `make_tx`: while the transaction is too heavy, a tenth of the pegouts is dropped. -/
def makeTx (config : MakeTxConfig) (feeRate : FeeRate) (script : ScriptBuf)
    (trackedTxs : List Tx) :
    Nat → List (TxOut × PegoutId) → Handler Db CoordinatorError Psbt
  | 0, _ => Handler.lift .panic
  | fuel + 1, outputs => do
    let psbt ← attemptMakeTx btc lib minSigners config outputs feeRate script trackedTxs
    let weight ← Handler.lift ((calculateSignedTxWeight psbt).mapErr .walletCalculation)
    if weight.toNat ≤ maxPegoutTxWeight then pure psbt
    else if outputs.length ≤ 1 then Handler.fail .transactionTooLarge
    else
      makeTx config feeRate script trackedTxs fuel
        (outputs.take (outputs.length - outputs.length / 10))

/-- `update_psbt`: combined with what the session has. -/
def updatePsbt (sessionId : List UInt8) (psbt : Psbt) : Handler Db CoordinatorError Unit := do
  let merged ← match (← Handler.get).psbts.lookup sessionId with
    | some existing => Handler.lift (ofOption (lib.combine existing psbt) .combineFailed)
    | none => pure psbt
  Handler.update fun db => { db with psbts := db.psbts.insert sessionId merged }

/-- `add_round1_signing`. -/
def addRound1Signing (sessionId : List UInt8) (frostId : Identifier) (psbt : Psbt) :
    Handler Db CoordinatorError Unit := do
  Handler.zoom id (fun db _ => db) .validatePsbt (validatePsbt btc lib psbt round1 minSigners)
  Handler.lift (ensure (∀ input ∈ psbt.inputs, (input.signingCommitments lib frostId).isSome = true)
    .couldNotFindParticipantInformation)
  updatePsbt lib sessionId psbt

/-- `add_round2_signing`. -/
def addRound2Signing (sessionId : List UInt8) (psbt : Psbt) : Handler Db CoordinatorError Unit := do
  Handler.zoom id (fun db _ => db) .validatePsbt (validatePsbt btc lib psbt round2 minSigners)
  updatePsbt lib sessionId psbt

/-- `coordinator::finalize_signing`: the session's PSBT with the final witnesses. -/
def finalizePsbt (db : Db) (sessionId : List UInt8) : Outcome CoordinatorError Psbt := do
  let psbt ← ofOption (db.psbts.lookup sessionId) .couldNotFindPsbt
  let pk ← ofOption db.publicKeyPackage .missingKeyPackage
  let packages ← (psbt.signingPackages lib).mapErr .conversion
  let witnesses ← ofOption (lib.finalizeWitnesses psbt pk packages) .finalizationFailed
  pure { psbt with
    inputs := List.zipWith (fun input witness => { input with finalScriptWitness := some witness })
      psbt.inputs witnesses }

end coordinator

/-! ## What the coordinator changes -/

section spec
variable {btc : BitcoinLib} {lib : SigningLib} {minSigners : Nat} {db : Db}

open Handler

theorem validate_spec {psbt : Psbt} {flags : BitVec 8} :
    Triple (· = db) (zoom id (fun db _ => db) CoordinatorError.validatePsbt
      (validatePsbt btc lib psbt flags minSigners)) (fun _ db' => db' = db) db.AfterCheck :=
  Triple.zoom fun _ h => (validatePsbt_spec flags minSigners).conseq (fun _ h' => h'.trans h)
    (fun _ _ h' => h'.2) fun _ => id

/-- Building a transaction leaves the tables as they are. -/
theorem attemptMakeTx_spec (config : MakeTxConfig) (outputs : List (TxOut × PegoutId))
    (feeRate : FeeRate) (script : ScriptBuf) (trackedTxs : List Tx) :
    Triple (· = db) (attemptMakeTx btc lib minSigners config outputs feeRate script trackedTxs)
      (fun _ db' => db' = db) db.AfterCheck := by
  refine Triple.get_bind fun d h => ?_
  subst h
  refine Triple.bind lift_spec fun _ => Triple.of_fact fun _ => ?_
  refine Triple.bind lift_spec fun _ => Triple.of_fact fun _ => ?_
  exact Triple.bind validate_spec fun _ => Triple.pure fun _ => id

theorem makeTx_spec (config : MakeTxConfig) (feeRate : FeeRate) (script : ScriptBuf)
    (trackedTxs : List Tx) : ∀ (fuel : Nat) (outputs : List (TxOut × PegoutId)),
    Triple (· = db) (makeTx btc lib minSigners config feeRate script trackedTxs fuel outputs)
      (fun _ db' => db' = db) db.AfterCheck
  | 0, _ => fun _ => .inl
  | fuel + 1, outputs => by
    refine Triple.bind (attemptMakeTx_spec config outputs feeRate script trackedTxs) fun _ => ?_
    refine Triple.bind lift_spec fun _ => Triple.of_fact fun _ => ?_
    refine Triple.ite (fun _ => Triple.pure fun _ => id) fun _ => ?_
    exact Triple.ite (fun _ => Triple.fail fun _ => .inl) fun _ =>
      makeTx_spec config feeRate script trackedTxs fuel _

/-- Only the table of sessions changes. -/
def Db.OnlyPsbts (db db' : Db) : Prop := ∃ psbts, db' = { db with psbts := psbts }

theorem updatePsbt_spec (sessionId : List UInt8) (psbt : Psbt) :
    Triple (· = db) (updatePsbt lib sessionId psbt) (fun _ => db.OnlyPsbts) db.AfterCheck := by
  refine Triple.get_bind fun d h => ?_
  subst h
  have hinsert : ∀ merged, Triple (· = d) (update fun db : Db =>
      { db with psbts := db.psbts.insert sessionId merged } : Handler Db CoordinatorError Unit)
      (fun _ => d.OnlyPsbts) d.AfterCheck :=
    fun merged => Triple.update fun _ h => ⟨d.psbts.insert sessionId merged, by rw [h]⟩
  dsimp only
  cases d.psbts.lookup sessionId with
  | none => exact hinsert psbt
  | some existing =>
    exact Triple.bind lift_spec fun merged => Triple.of_fact fun _ => hinsert merged

theorem addRound1Signing_spec (sessionId : List UInt8) (frostId : Identifier) (psbt : Psbt) :
    Triple (· = db) (addRound1Signing btc lib minSigners sessionId frostId psbt)
      (fun _ => db.OnlyPsbts) db.AfterCheck :=
  Triple.bind validate_spec fun _ => Triple.bind lift_spec fun _ => Triple.of_fact fun _ =>
    updatePsbt_spec sessionId psbt

theorem addRound2Signing_spec (sessionId : List UInt8) (psbt : Psbt) :
    Triple (· = db) (addRound2Signing btc lib minSigners sessionId psbt)
      (fun _ => db.OnlyPsbts) db.AfterCheck :=
  Triple.bind validate_spec fun _ => updatePsbt_spec sessionId psbt

end spec

end Macbeth
