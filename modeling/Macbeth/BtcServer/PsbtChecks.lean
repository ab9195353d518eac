import Macbeth.BtcServer.Signing
import Macbeth.Lib.Handler

/-!
# Validating a PSBT in btc-server (`util.rs`)

What a signer checks of a PSBT against its own tables before it commits to nonces and
before it signs, and what the coordinator checks of the answers.  How much is checked is
selected by flags.  The validation is not read-only: a pegout that turns out to be
finalized is taken off the pending ones.
-/

namespace Macbeth

open Checked Outcome List Option

/-! ## Flags -/

def noFlags : BitVec 8 := 0
def round1 : BitVec 8 := 1
def round1Transition : BitVec 8 := (1 <<< 1) ||| round1
def round2 : BitVec 8 := (1 <<< 2) ||| round1Transition
def round2Transition : BitVec 8 := (1 <<< 3) ||| round1Transition

/-- All bits of `flag` are set. -/
def hasFlag (flags flag : BitVec 8) : Bool := flags &&& flag = flag

/-- `UPPER_PEGOUT_BOUND`. -/
def upperPegoutBound : Nat := 100

/-! ## Errors -/

inductive ConflictingInputError where
  | failedToDeserializePegoutId
  | noConflictingInput
  deriving DecidableEq, Repr

inductive ValidateOutputsError where
  | missingKeyPackage
  | invalidPegoutId
  | alreadyFinalizedPegouts (ids : List PegoutId)
  | expectingOnlyOneChangeOutput
  | invalidChangeOutput
  | duplicateOutputs
  | outputCountMismatch (outputs txOutputs : Nat)
  deriving DecidableEq, Repr

inductive ValidatePSBTError where
  | noInputs
  | noOutputs
  | psbtError (e : PsbtError)
  | feeSanityCheck (fee total : Amount)
  | invalidNumberOfSigningCommitments
  | invalidNumberOfPartialSignatures
  | frostIdMismatch
  | ethTweakMismatch
  | missingWitnessUtxo
  | txOutMismatch
  | extractTxError (e : ExtractTxError)
  | invalidOutputs (e : ValidateOutputsError)
  | conflictingInputError (e : ConflictingInputError)
  | negativeFee
  | feeOverflow
  deriving DecidableEq, Repr

/-! ## Conflicting inputs -/

/-- The pegout ids of a PSBT, or an error for one that does not parse. -/
def Psbt.parsedPegoutIds {ε : Type} (psbt : Psbt) (e : ε) : Outcome ε (List PegoutId) :=
  psbt.pegoutIds.mapM fun bytes => ofOption (PegoutId.fromBytes bytes) e

/-- `has_conflicting_input`: a tracked transaction that delivers one of the pegouts must
share an input. -/
def hasConflictingInput (db : Db) (psbt : Psbt) : Outcome ConflictingInputError Unit := do
  let psbtInputs := psbt.unsignedTx.inputs
  let pegoutIds ← psbt.parsedPegoutIds .failedToDeserializePegoutId
  db.getTrackedTxs.forM fun tx =>
    if tx.pegoutIds.any (pegoutIds.contains ·) then
      ensure (tx.inputs.any (psbtInputs.contains ·) = true) .noConflictingInput
    else .ok ()

/-! ## Outputs -/

/-- The loop over the outputs: the ids so far and the position of the change. -/
def collectOutputs : List (PsbtOutput × Nat) → List PegoutId → Option Nat →
    Outcome ValidateOutputsError (List PegoutId × Option Nat)
  | [], ids, change => .ok (ids, change)
  | (output, idx) :: rest, ids, change =>
    match output.pegoutId with
    | some bytes => do
      let id ← ofOption (PegoutId.fromBytes bytes) .invalidPegoutId
      collectOutputs rest (ids ++ [id]) change
    | none =>
      if change.isSome then .err .expectingOnlyOneChangeOutput
      else collectOutputs rest ids (some idx)

section validate
variable (btc : BitcoinLib) (lib : SigningLib)

/-- The script of the change output: the aggregate key's own. -/
def changeScript (pk : VerifyingKey) : Option ScriptBuf :=
  match pk.toSecpPk btc with
  | .ok secpPk => some (lib.generateTaprootChangeScriptpubkey secpPk)
  | .error _ => none

/-- A pegout that is finalized is taken off the pending ones, so that it is not processed
again, and refused. -/
def rejectFinalized (db : Db) (id : PegoutId) : Handler Db ValidateOutputsError Unit :=
  if db.finalizedIds.contains id then do
    Handler.update (·.removePendingPegout [id])
    Handler.fail (.alreadyFinalizedPegouts [id])
  else pure ()

/-- `validate_outputs`. -/
def validateOutputs (psbt : Psbt) : Handler Db ValidateOutputsError Unit := do
  let db ← Handler.get
  Handler.lift (ensure (psbt.outputs.length = psbt.unsignedTx.output.length)
    (.outputCountMismatch psbt.outputs.length psbt.unsignedTx.output.length))
  let pk ← Handler.lift (ofOption db.publicKeyPackage .missingKeyPackage)
  let (ids, change) ← Handler.lift (collectOutputs psbt.outputs.zipIdx [] none)
  ids.forM (rejectFinalized db)
  Handler.lift (ensure ids.Nodup .duplicateOutputs)
  match change with
  | none => pure ()
  | some idx =>
    let expected ← Handler.expect (changeScript btc lib pk)
    let out ← Handler.lift (ofOption psbt.unsignedTx.output[idx]? .invalidChangeOutput)
    Handler.lift (ensure (out.scriptPubkey = expected) .invalidChangeOutput)

/-! ## The whole PSBT -/

/-- The fee as `validate_psbt` reports it. -/
def sanityFee (psbt : Psbt) : Outcome ValidatePSBTError Amount :=
  psbt.fee.mapErr fun
    | .negativeFee => .negativeFee
    | .feeOverflow => .feeOverflow
    | e => .psbtError e

/-- The total of the outputs; an overflow starts again from zero. -/
def totalOutputsAmount (psbt : Psbt) : Amount :=
  psbt.unsignedTx.output.foldl (fun total out => (checkedAdd total out.value).getD 0) 0

/-- The checks of commitments and shares the flags ask for. -/
def checkRounds (psbt : Psbt) (flags : BitVec 8) (minSigners : Nat) :
    Outcome ValidatePSBTError Unit := do
  let scs := psbt.inputs.map (·.allSigningCommitments lib)
  let sigs := psbt.inputs.map (·.allPartialSignatures lib)
  if hasFlag flags round1Transition then
    ensure (∀ sc ∈ scs, minSigners ≤ sc.entries.length) .invalidNumberOfSigningCommitments
  if hasFlag flags round2 then
    ensure (∀ sig ∈ sigs, sig.entries.length ≤ minSigners) .invalidNumberOfPartialSignatures
  if hasFlag flags round2Transition then
    ensure (∀ sig ∈ sigs, sig.entries.length = minSigners) .invalidNumberOfPartialSignatures
    ensure (∀ x ∈ scs.zip sigs, ∀ id, id ∈ x.1.keys ++ x.2.keys → id ∈ x.1 ∧ id ∈ x.2)
      .frostIdMismatch

/-- The last loop: the first input whose coin is unknown ends it, with success. -/
def checkCoins (db : Db) (tx : Transaction) :
    List (PsbtInput × Nat) → Outcome ValidatePSBTError Unit
  | [] => .ok ()
  | (input, index) :: rest => do
    let txin ← Outcome.index tx.input index
    match db.utxos.lookup txin.previousOutput with
    | none => .ok ()
    | some utxo =>
      ensure (utxo.ethAddress.isNone ∨ input.ethAddress = utxo.ethAddress) .ethTweakMismatch
      let txout ← ofOption input.witnessUtxo .missingWitnessUtxo
      ensure (utxo.output = txout) .txOutMismatch
      checkCoins db tx rest

/-- `validate_psbt`. -/
def validatePsbt (psbt : Psbt) (flags : BitVec 8) (minSigners : Nat) :
    Handler Db ValidatePSBTError Unit := do
  Handler.lift (ensure (psbt.inputs ≠ []) .noInputs)
  Handler.lift ((hasConflictingInput (← Handler.get) psbt).mapErr .conflictingInputError)
  Handler.lift (ensure (psbt.outputs ≠ []) .noOutputs)
  Handler.zoom id (fun db _ => db) .invalidOutputs (validateOutputs btc lib psbt)
  let fee ← Handler.lift (sanityFee psbt)
  let total := totalOutputsAmount psbt
  Handler.lift (ensure (fee.toNat ≤ total.toNat) (.feeSanityCheck fee total))
  if flags = noFlags then pure ()
  else
    Handler.lift (checkRounds lib psbt flags minSigners)
    let tx ← Handler.lift (psbt.extractTx.mapErr .extractTxError)
    if hasFlag flags round1 then
      Handler.lift (checkCoins (← Handler.get) tx psbt.inputs.zipIdx)
    else pure ()

end validate

/-! ## What a validated PSBT has passed -/

/-- The pegouts a PSBT pays. -/
def Psbt.paidIds (psbt : Psbt) : List PegoutId := psbt.pegoutIds.filterMap PegoutId.fromBytes

theorem Psbt.paidIds_eq {psbt : Psbt} {ids : List PegoutId}
    (h : psbt.pegoutIds.mapM PegoutId.fromBytes = some ids) : psbt.paidIds = ids := by
  unfold Psbt.paidIds
  revert ids
  induction psbt.pegoutIds with
  | nil => intro ids h; simpa using h
  | cons bytes rest ih =>
    intro ids h
    rw [mapM_cons] at h
    obtain ⟨id, hid, h⟩ := bind_eq_some_iff.mp h
    obtain ⟨ids', hids', h⟩ := bind_eq_some_iff.mp h
    rw [filterMap_cons_some hid, ih hids', ← some.inj h]

/-- The tables after a failed validation. -/
def Db.AfterCheck (db db' : Db) : Prop :=
  db' = db ∨ ∃ id ∈ db.finalizedPegoutIds, db' = db.removePendingPegout [id]

/-- What a validation has established when it succeeds. -/
structure Psbt.Passes (db : Db) (psbt : Psbt) : Prop where
  conflicts : hasConflictingInput db psbt = .ok ()
  unpaid : ∀ ids, psbt.pegoutIds.mapM PegoutId.fromBytes = some ids →
    ∀ id ∈ ids, id ∉ db.finalizedPegoutIds

open Handler

theorem ids_of_collectOutputs : ∀ {outputs : List PsbtOutput} {k : Nat} {ids ids' : List PegoutId}
    {change change' : Option Nat},
    collectOutputs (outputs.zipIdx k) ids change = .ok (ids', change') →
    (outputs.filterMap (·.pegoutId)).mapM PegoutId.fromBytes = some (ids'.drop ids.length) ∧
      ids'.take ids.length = ids
  | [], k, ids, ids', change, change', h => by
    obtain ⟨rfl, -⟩ := Prod.mk.inj (Outcome.ok.inj h)
    simp
  | output :: outputs, k, ids, ids', change, change', h => by
    rw [zipIdx_cons, collectOutputs] at h
    cases hbytes : output.pegoutId with
    | none =>
      rw [hbytes] at h
      dsimp only at h
      by_cases hchange : change.isSome = true
      · rw [if_pos hchange] at h
        cases h
      · rw [if_neg hchange] at h
        rw [filterMap_cons_none hbytes]
        exact ids_of_collectOutputs h
    | some bytes =>
      rw [hbytes] at h
      obtain ⟨id, hid, h⟩ := bind_eq_ok.mp h
      obtain ⟨hdrop, htake⟩ := ids_of_collectOutputs h
      have hsplit : ids' = ids ++ [id] ++ ids'.drop (ids ++ [id]).length := by
        conv_lhs => rw [← take_append_drop (ids ++ [id]).length ids', htake]
      rw [filterMap_cons_some hbytes, hsplit]
      simp [hdrop, ofOption_eq_ok.mp hid]

section spec
variable {btc : BitcoinLib} {lib : SigningLib} {db : Db} {psbt : Psbt}

theorem rejectFinalized_spec (id : PegoutId) :
    Triple (· = db) (rejectFinalized db id)
      (fun _ db' => id ∉ db.finalizedPegoutIds ∧ db' = db) db.AfterCheck := by
  intro db' h
  subst h
  by_cases hid : id ∈ db'.finalizedPegoutIds
  · have hcontains : db'.finalizedIds.contains id = true := contains_iff_mem.mpr hid
    simp only [rejectFinalized, hcontains, if_true, bind_run, update_run, fail_run]
    exact .inr ⟨id, hid, rfl⟩
  · have hcontains : ¬ db'.finalizedIds.contains id = true := fun h =>
      hid (contains_iff_mem.mp h)
    rw [rejectFinalized, if_neg hcontains]
    exact ⟨hid, rfl⟩

theorem forM_rejectFinalized_spec : ∀ ids : List PegoutId,
    Triple (· = db) (ids.forM (rejectFinalized db))
      (fun _ db' => (∀ id ∈ ids, id ∉ db.finalizedPegoutIds) ∧ db' = db) db.AfterCheck
  | [] => fun _ h => ⟨forall_mem_nil _, h⟩
  | id :: ids => Triple.bind (rejectFinalized_spec id) fun _ => Triple.of_fact fun hid =>
      (forM_rejectFinalized_spec ids).conseq (fun _ h => h)
        (fun _ _ h => ⟨forall_mem_cons.mpr ⟨hid, h.1⟩, h.2⟩) fun _ h => h

/-- A step that does not touch the tables. -/
theorem lift_spec {ε α : Type} {x : Outcome ε α} :
    Triple (· = db) (lift x) (fun a db' => x = .ok a ∧ db' = db) db.AfterCheck :=
  Triple.lift_eq fun _ => .inl

theorem validateOutputs_spec :
    Triple (· = db) (validateOutputs btc lib psbt)
      (fun _ db' => (∀ ids, psbt.pegoutIds.mapM PegoutId.fromBytes = some ids →
        ∀ id ∈ ids, id ∉ db.finalizedPegoutIds) ∧ db' = db) db.AfterCheck := by
  refine Triple.get_bind fun db' h => ?_
  subst h
  refine Triple.bind lift_spec fun _ => Triple.of_fact fun _ => ?_
  refine Triple.bind lift_spec fun pk => Triple.of_fact fun _ => ?_
  refine Triple.bind lift_spec fun x => Triple.of_fact fun hx => ?_
  obtain ⟨hids, -⟩ := ids_of_collectOutputs hx
  refine Triple.bind (forM_rejectFinalized_spec x.1) fun _ => Triple.of_fact fun hunpaid => ?_
  have hgoal : ∀ ids, psbt.pegoutIds.mapM PegoutId.fromBytes = some ids →
      ∀ id ∈ ids, id ∉ db'.finalizedPegoutIds := by
    intro ids h
    obtain rfl : x.1 = ids := some.inj (hids.symm.trans h)
    exact hunpaid
  refine Triple.bind lift_spec fun _ => Triple.of_fact fun _ => ?_
  cases x.2 with
  | none => exact Triple.pure fun _ h => ⟨hgoal, h⟩
  | some idx =>
    refine Triple.bind lift_spec fun _ => Triple.of_fact fun _ => ?_
    refine Triple.bind lift_spec fun _ => Triple.of_fact fun _ => ?_
    exact lift_spec.conseq (fun _ => id) (fun _ _ h => ⟨hgoal, h.2⟩) fun _ => id

/-- What validated outputs have passed: their ids are distinct and none is finalized, and an
output without an id pays the change script. -/
theorem validateOutputs_eq_ok {db' : Db} (h : validateOutputs btc lib psbt db = (.ok (), db')) :
    psbt.outputs.length = psbt.unsignedTx.output.length ∧ ∃ pk ids change,
      db.publicKeyPackage = some pk ∧
      collectOutputs psbt.outputs.zipIdx [] none = .ok (ids, change) ∧
      (∀ id ∈ ids, id ∉ db.finalizedPegoutIds) ∧ ids.Nodup ∧
      ∀ idx ∈ change, ∃ expected out, changeScript btc lib pk = some expected ∧
        psbt.unsignedTx.output[idx]? = some out ∧ out.scriptPubkey = expected := by
  have hrejected : ∀ (ids : List PegoutId) (s : Db),
      ids.forM (rejectFinalized db) db = (.ok (), s) →
      (∀ id ∈ ids, id ∉ db.finalizedPegoutIds) ∧ s = db := by
    intro ids s hs
    have hspec : Handler.Triple (· = db) (ids.forM (rejectFinalized db)) _ _ :=
      forM_rejectFinalized_spec ids
    have := hspec db rfl
    rw [hs] at this
    exact this
  obtain ⟨_, _, hget, h₁⟩ := bind_eq_ok.mp h
  obtain ⟨rfl, rfl⟩ : db = _ ∧ db = _ := by simpa using hget
  obtain ⟨_, s₁, hcount, h₂⟩ := bind_eq_ok.mp h₁
  obtain ⟨hlength, rfl⟩ := lift_eq_ok.mp hcount
  obtain ⟨pk, s₂, hpackage, h₃⟩ := bind_eq_ok.mp h₂
  obtain ⟨hpk, rfl⟩ := lift_eq_ok.mp hpackage
  obtain ⟨⟨ids, change⟩, s₃, hloop, h₄⟩ := bind_eq_ok.mp h₃
  obtain ⟨hcollect, rfl⟩ := lift_eq_ok.mp hloop
  obtain ⟨_, s₄, hreject, h₅⟩ := bind_eq_ok.mp h₄
  obtain ⟨hunpaid, rfl⟩ := hrejected ids s₄ hreject
  obtain ⟨_, s₅, hdistinct, h₆⟩ := bind_eq_ok.mp h₅
  obtain ⟨hnodup, rfl⟩ := lift_eq_ok.mp hdistinct
  refine ⟨ensure_eq_ok.mp hlength, pk, ids, change, ofOption_eq_ok.mp hpk, hcollect, hunpaid,
    ensure_eq_ok.mp hnodup, ?_⟩
  rintro idx ⟨⟩
  obtain ⟨expected, s₆, hexpected, h₇⟩ := bind_eq_ok.mp h₆
  obtain ⟨out, s₇, hout, h₈⟩ := bind_eq_ok.mp h₇
  refine ⟨expected, out, ?_, ofOption_eq_ok.mp (lift_eq_ok.mp hout).1,
    ensure_eq_ok.mp (lift_eq_ok.mp h₈).1⟩
  have hscript := (lift_eq_ok.mp hexpected).1
  cases hchange : changeScript btc lib pk with
  | none => simp [hchange] at hscript
  | some script => simpa [hchange] using hscript

/-- A PSBT that pays a finalized pegout is refused. -/
theorem validateOutputs_ne_ok {id : PegoutId} (hid : id ∈ psbt.paidIds)
    (hfinal : id ∈ db.finalizedPegoutIds) : (validateOutputs btc lib psbt db).1 ≠ .ok () := by
  intro h
  obtain ⟨-, _, ids, change, -, hcollect, hunpaid, -⟩ :=
    validateOutputs_eq_ok (Prod.ext h rfl : validateOutputs btc lib psbt db = (.ok (), _))
  obtain ⟨hids, -⟩ := ids_of_collectOutputs hcollect
  have hpaid : psbt.paidIds = ids := Psbt.paidIds_eq hids
  exact hunpaid id (hpaid ▸ hid) hfinal

/-- A validation that succeeds changes nothing, one that fails at most drops a finalized
pegout from the pending ones. -/
theorem validatePsbt_spec (flags : BitVec 8) (minSigners : Nat) :
    Triple (· = db) (validatePsbt btc lib psbt flags minSigners)
      (fun _ db' => psbt.Passes db ∧ db' = db) db.AfterCheck := by
  refine Triple.bind lift_spec fun _ => Triple.of_fact fun _ => ?_
  refine Triple.get_bind fun db' h => ?_
  subst h
  refine Triple.bind lift_spec fun _ => Triple.of_fact fun hconflicts => ?_
  refine Triple.bind lift_spec fun _ => Triple.of_fact fun _ => ?_
  refine Triple.bind (Triple.zoom fun d h => validateOutputs_spec.conseq (fun _ h' => h'.trans h)
    (fun _ _ => id) fun _ => id) fun _ => Triple.of_fact fun hunpaid => ?_
  have hpasses : psbt.Passes db' := ⟨mapErr_eq_ok.mp hconflicts, hunpaid⟩
  refine Triple.bind lift_spec fun fee => Triple.of_fact fun _ => ?_
  refine Triple.bind lift_spec fun _ => Triple.of_fact fun _ => ?_
  refine Triple.ite (fun _ => Triple.pure fun _ h => ⟨hpasses, h⟩) fun _ => ?_
  refine Triple.bind lift_spec fun _ => Triple.of_fact fun _ => ?_
  refine Triple.bind lift_spec fun tx => Triple.of_fact fun _ => ?_
  refine Triple.ite (fun _ => ?_) fun _ => Triple.pure fun _ h => ⟨hpasses, h⟩
  refine Triple.get_bind fun db'' h => ?_
  subst h
  exact lift_spec.conseq (fun _ => id) (fun _ _ h => ⟨hpasses, h.2⟩) fun _ => id

end spec

end Macbeth
