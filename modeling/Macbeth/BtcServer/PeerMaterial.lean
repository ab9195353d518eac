import Macbeth.BtcServer.App

/-!
# What a peer can change in a session

The coordinator checks a PSBT a peer sends against its tables, looks in round one for the
peer's own commitments, and then hands the PSBT to `Psbt::combine`.  That compares the
transactions and takes every field of every map over, the peer's value in the place of the
stored one.

So the transaction stays, and everything else stays exactly if the peer sends nothing of
others that differs from what is stored: `peer_adds_own_iff`.
-/

namespace Macbeth

open Handler List Option AList

/-! ## Combining PSBTs -/

/-- `BTreeMap::extend`: the entries of `other` win. -/
def extendMap (self other : Proprietary) : Proprietary := other ∪ self

/-- `Input::combine`: a witness UTXO that is new displaces a full previous transaction. -/
def PsbtInput.combine (self other : PsbtInput) : PsbtInput where
  witnessUtxo := self.witnessUtxo.or other.witnessUtxo
  nonWitnessUtxo :=
    if self.witnessUtxo = none ∧ other.witnessUtxo ≠ none then none
    else self.nonWitnessUtxo.or other.nonWitnessUtxo
  finalScriptSig := self.finalScriptSig.or other.finalScriptSig
  finalScriptWitness := self.finalScriptWitness.or other.finalScriptWitness
  proprietary := extendMap self.proprietary other.proprietary

/-- `Output::combine`. -/
def PsbtOutput.combine (self other : PsbtOutput) : PsbtOutput where
  proprietary := extendMap self.proprietary other.proprietary

/-- `Psbt::combine`. -/
def Psbt.combine (self other : Psbt) : Option Psbt :=
  if self.unsignedTx = other.unsignedTx then
    some
      { unsignedTx := self.unsignedTx
        inputs := zipModify PsbtInput.combine self.inputs other.inputs
        outputs := zipModify PsbtOutput.combine self.outputs other.outputs }
  else none

/-- The library combines PSBTs as it documents. -/
def SigningLib.Combines (lib : SigningLib) : Prop := lib.combine = Psbt.combine

theorem lookup_extendMap (self other : Proprietary) (k : ProprietaryKey) :
    (extendMap self other).lookup k = (other.lookup k).or (self.lookup k) := by
  unfold extendMap
  cases hk : other.lookup k with
  | none =>
    rw [lookup_union_right (lookup_eq_none.mp hk), none_or]
  | some v =>
    rw [lookup_union_left (lookup_isSome.mp (by rw [hk]; rfl)), hk, some_or]

/-- A pass over paired elements is related to its start, if each pair's result is. -/
theorem forall₂_zipModify {α β : Type} {f : α → β → α} {R : α → α → Prop} (hrefl : ∀ x, R x x) :
    ∀ {xs : List α} {ys : List β},
      List.Forall₂ R xs (zipModify f xs ys) ↔ ∀ p ∈ xs.zip ys, R p.1 (f p.1 p.2)
  | [], ys => by simp [zipModify]
  | x :: xs, [] => by simp [zipModify, hrefl]
  | x :: xs, y :: ys => by
    simp only [zipModify, forall₂_cons, zip_cons_cons, forall_mem_cons,
      forall₂_zipModify hrefl]

/-! ## What a peer has to leave -/

section material
variable (lib : SigningLib) (f : Identifier)

/-- The same signing material of everybody but `f` in an input. -/
def PsbtInput.SameForOthers (before after : PsbtInput) : Prop :=
  ∀ id, id ≠ f →
    (after.allSigningCommitments lib).lookup id = (before.allSigningCommitments lib).lookup id ∧
    (after.allPartialSignatures lib).lookup id = (before.allPartialSignatures lib).lookup id

/-- The same fields in an output. -/
def PsbtOutput.SameFields (before after : PsbtOutput) : Prop :=
  ∀ k, after.proprietary.lookup k = before.proprietary.lookup k

/-- Nothing but the material of `f` differs. -/
structure Psbt.OthersUntouched (before after : Psbt) : Prop where
  unsignedTx : after.unsignedTx = before.unsignedTx
  outputs : List.Forall₂ PsbtOutput.SameFields before.outputs after.outputs
  inputs : List.Forall₂ (PsbtInput.SameForOthers lib f) before.inputs after.inputs

/-- A field for somebody's commitments or share reads as the stored one does. -/
def AgreesOn {β : Type} (subtype : UInt8) (decode : List UInt8 → Option β)
    (stored sent : Proprietary) (id : Identifier) : Prop :=
  ∀ v, sent.lookup (propKey subtype (lib.serializeId id)) = some v →
    decode v = (stored.lookup (propKey subtype (lib.serializeId id))).bind decode

/-- What the peer sends of others is what is stored: every field of an output, and in the
inputs the commitments and shares of every identifier but `f`. -/
structure Psbt.OnlyOwn (stored sent : Psbt) : Prop where
  outputs : ∀ x ∈ stored.outputs.zip sent.outputs, ∀ k v,
    x.2.proprietary.lookup k = some v → x.1.proprietary.lookup k = some v
  inputs : ∀ x ∈ stored.inputs.zip sent.inputs, ∀ id, id ≠ f →
    AgreesOn lib signingCommitmentsKeyType lib.deserializeCommitments x.1.proprietary
      x.2.proprietary id ∧
    AgreesOn lib partialSignatureKeyType lib.deserializeShare x.1.proprietary x.2.proprietary id

end material

section frame
variable {lib : SigningLib} {f : Identifier}

theorem lookup_collectById_extendMap {β : Type} {subtype : UInt8}
    {decode : List UInt8 → Option β} {stored sent : Proprietary} {id : Identifier} :
    (collectById lib subtype decode (extendMap stored sent)).lookup id =
        (collectById lib subtype decode stored).lookup id ↔
      AgreesOn lib subtype decode stored sent id := by
  rw [lookup_collectById, lookup_collectById, lookup_extendMap, AgreesOn]
  cases sent.lookup (propKey subtype (lib.serializeId id)) <;> simp

theorem sameFields_combine {stored sent : PsbtOutput} :
    stored.SameFields (stored.combine sent) ↔
      ∀ k v, sent.proprietary.lookup k = some v → stored.proprietary.lookup k = some v := by
  simp only [PsbtOutput.SameFields, PsbtOutput.combine, lookup_extendMap]
  refine forall_congr' fun k => ?_
  cases sent.proprietary.lookup k <;> simp [eq_comm]

theorem sameForOthers_combine {stored sent : PsbtInput} :
    stored.SameForOthers lib f (stored.combine sent) ↔ ∀ id, id ≠ f →
      AgreesOn lib signingCommitmentsKeyType lib.deserializeCommitments stored.proprietary
        sent.proprietary id ∧
      AgreesOn lib partialSignatureKeyType lib.deserializeShare stored.proprietary
        sent.proprietary id := by
  refine forall_congr' fun id => forall_congr' fun _ => ?_
  exact and_congr lookup_collectById_extendMap lookup_collectById_extendMap

/-- What is stored is untouched exactly if the peer sends no other's material. -/
theorem othersUntouched_combine_iff {stored sent merged : Psbt}
    (h : stored.combine sent = some merged) :
    stored.OthersUntouched lib f merged ↔ stored.OnlyOwn lib f sent := by
  unfold Psbt.combine at h
  split at h
  case isFalse => cases h
  case isTrue =>
    obtain rfl := some.inj h
    have houtputs : List.Forall₂ PsbtOutput.SameFields stored.outputs
        (zipModify PsbtOutput.combine stored.outputs sent.outputs) ↔ _ :=
      forall₂_zipModify fun _ _ => rfl
    have hinputs : List.Forall₂ (PsbtInput.SameForOthers lib f) stored.inputs
        (zipModify PsbtInput.combine stored.inputs sent.inputs) ↔ _ :=
      forall₂_zipModify fun _ _ _ => ⟨rfl, rfl⟩
    simp only [sameFields_combine] at houtputs
    simp only [sameForOthers_combine] at hinputs
    constructor
    · intro huntouched
      exact ⟨houtputs.mp huntouched.outputs, hinputs.mp huntouched.inputs⟩
    · intro hown
      exact ⟨rfl, houtputs.mpr hown.outputs, hinputs.mpr hown.inputs⟩

/-! ## Requests that are accepted -/

/-- A request that stores a PSBT combines it with the stored one. -/
theorem combine_of_updatePsbt (hlib : lib.Combines) {db db' : Db} {sessionId : List UInt8}
    {stored sent : Psbt} (hstored : db.psbts.lookup sessionId = some stored)
    (h : updatePsbt lib sessionId sent db = (.ok (), db')) :
    ∃ merged, stored.combine sent = some merged ∧ db'.psbts.lookup sessionId = some merged := by
  rw [updatePsbt, get_bind_eq_ok, hstored] at h
  obtain ⟨merged, d, hmerged, hinsert⟩ := bind_eq_ok.mp h
  obtain ⟨hcombine, rfl⟩ := lift_eq_ok.mp hmerged
  obtain rfl : _ = db' := (Prod.mk.inj hinsert).2
  refine ⟨merged, ?_, lookup_insert _⟩
  rw [← hlib]
  exact Outcome.ofOption_eq_ok.mp hcombine

variable {btc : BitcoinLib} {minSigners : Nat}

/-- The request of either round with which a peer adds its material. -/
def AddsMaterial (btc : BitcoinLib) (lib : SigningLib) (minSigners : Nat) (sessionId : List UInt8)
    (f : Identifier) (sent : Psbt) (db db' : Db) : Prop :=
  addRound1Signing btc lib minSigners sessionId f sent db = (.ok (), db') ∨
    addRound2Signing btc lib minSigners sessionId sent db = (.ok (), db')

/-- Both validate what is sent, which leaves the tables, and then store it. -/
theorem updatePsbt_of_addsMaterial {db db' : Db} {sessionId : List UInt8} {sent : Psbt}
    (h : AddsMaterial btc lib minSigners sessionId f sent db db') :
    updatePsbt lib sessionId sent db = (.ok (), db') := by
  have hvalidated : ∀ {flags : BitVec 8} {d : Db}, zoom id (fun db _ => db)
      CoordinatorError.validatePsbt (validatePsbt btc lib sent flags minSigners) db = (.ok (), d) →
      d = db := fun hrun => validate_spec.of_run rfl hrun
  rcases h with h | h
  · obtain ⟨_, _, hrun, h⟩ := bind_eq_ok.mp h
    obtain ⟨_, _, hown, h⟩ := bind_eq_ok.mp h
    rw [(lift_eq_ok.mp hown).2, hvalidated hrun] at h
    exact h
  · obtain ⟨_, _, hrun, h⟩ := bind_eq_ok.mp h
    rw [hvalidated hrun] at h
    exact h

/-- After a request that is accepted the session still has its transaction, and it has kept
the outputs' fields and the material of all other signers exactly if the peer sent nothing of
theirs that differs. -/
theorem peer_adds_own_iff (hlib : lib.Combines) {db db' : Db} {sessionId : List UInt8}
    {stored sent : Psbt} (hstored : db.psbts.lookup sessionId = some stored)
    (haccepted : AddsMaterial btc lib minSigners sessionId f sent db db') :
    (∃ after, db'.psbts.lookup sessionId = some after ∧ stored.OthersUntouched lib f after) ↔
      stored.OnlyOwn lib f sent := by
  obtain ⟨merged, hcombine, hmerged⟩ := combine_of_updatePsbt hlib hstored
    (updatePsbt_of_addsMaterial haccepted)
  rw [← othersUntouched_combine_iff hcombine, hmerged]
  simp

/-- The commitments of another signer are the same, input by input. -/
theorem Psbt.OthersUntouched.commitmentsOf {before after : Psbt}
    (h : before.OthersUntouched lib f after) {id : Identifier} (hid : id ≠ f) :
    after.commitmentsOf lib id = before.commitmentsOf lib id := by
  have heq : ∀ {xs ys : List PsbtInput}, List.Forall₂ (PsbtInput.SameForOthers lib f) xs ys →
      ys.map (·.signingCommitments lib id) = xs.map (·.signingCommitments lib id) := by
    intro xs ys hall
    induction hall with
    | nil => rfl
    | cons hxy _ ih =>
      rw [map_cons, map_cons, ih, ← PsbtInput.lookup_allSigningCommitments,
        (hxy id hid).1, PsbtInput.lookup_allSigningCommitments]
  exact heq h.inputs

end frame

/-! ## The first signer's commitments -/

/-- The library with fields as the code writes them, combining PSBTs field by field. -/
def combiningSigning : SigningLib := { fixedLengthSigning with combine := Psbt.combine }

theorem combines_combiningSigning : combiningSigning.Combines := rfl

/-- A session that has the commitments of the first signer. -/
def sessionDb : Db :=
  { freshDb with psbts := FinMap.ofList [([0], paymentPsbt firstCoin [(1, (noncePair 10).2)])] }

/-- The PSBT the second signer sends. -/
def secondSignerSends (others : List (Identifier × SigningCommitments)) : Psbt :=
  paymentPsbt firstCoin (others ++ [(2, (noncePair 100).2)])

/-- Round one of the second signer. -/
def secondSignerAdds (others : List (Identifier × SigningCommitments)) :
    Outcome CoordinatorError Unit × Db :=
  addRound1Signing federationBitcoin combiningSigning 2 [0] 2 (secondSignerSends others) sessionDb

theorem accepted_of_secondSignerAdds {others : List (Identifier × SigningCommitments)}
    (h : (secondSignerAdds others).1 = .ok ()) :
    AddsMaterial federationBitcoin combiningSigning 2 [0] 2 (secondSignerSends others) sessionDb
      (secondSignerAdds others).2 :=
  .inl (Prod.ext h rfl)

/-- With its own commitments alone the second signer leaves those of the first. -/
theorem own_commitments_added :
    (secondSignerAdds []).1 = .ok () ∧
    ∃ after, (secondSignerAdds []).2.psbts.lookup [0] = some after ∧
      (paymentPsbt firstCoin [(1, (noncePair 10).2)]).OthersUntouched combiningSigning 2 after := by
  have hrun : (secondSignerAdds []).1 = .ok () := by decide +kernel
  refine ⟨hrun, (peer_adds_own_iff combines_combiningSigning rfl
    (accepted_of_secondSignerAdds hrun)).mpr ?_⟩
  constructor
  · intro x hx k v hv
    obtain rfl : x = _ := mem_singleton.mp hx
    exact hv
  · intro x hx id hid
    obtain rfl : x = _ := mem_singleton.mp hx
    -- the one field that is sent is under the key of the second signer
    have hnone : ∀ subtype, (AList.insert (propKey signingCommitmentsKeyType
        (combiningSigning.serializeId 2)) (combiningSigning.serializeCommitments (noncePair 100).2)
        (∅ : Proprietary)).lookup (propKey subtype (combiningSigning.serializeId id)) = none := by
      intro subtype
      rw [lookup_insert_ne]
      · rfl
      · intro hkey
        have hids : combiningSigning.deserializeId (combiningSigning.serializeId id) =
            combiningSigning.deserializeId (combiningSigning.serializeId 2) :=
          congrArg (combiningSigning.deserializeId ·.key) hkey
        rw [combiningSigning.deserializeId_serializeId,
          combiningSigning.deserializeId_serializeId] at hids
        exact hid (some.inj hids)
    exact ⟨fun v hv => absurd (hv.symm.trans (hnone _)) (some_ne_none v),
      fun v hv => absurd (hv.symm.trans (hnone _)) (some_ne_none v)⟩

/-- With other commitments of the first signer it replaces them. -/
theorem first_commitments_replaced :
    (secondSignerAdds [(1, (noncePair 20).2)]).1 = .ok () ∧
    ¬ ∃ after, (secondSignerAdds [(1, (noncePair 20).2)]).2.psbts.lookup [0] = some after ∧
      (paymentPsbt firstCoin [(1, (noncePair 10).2)]).OthersUntouched combiningSigning 2 after := by
  refine ⟨by decide +kernel, ?_⟩
  rintro ⟨after, hafter, huntouched⟩
  have hnow : ((secondSignerAdds [(1, (noncePair 20).2)]).2.psbts.lookup [0]).map
      (Psbt.commitmentsOf combiningSigning 1) = some [some (noncePair 20).2] := by
    decide +kernel
  have hkept : after.commitmentsOf combiningSigning 1 = _ := huntouched.commitmentsOf (by decide)
  rw [hafter, map_some, hkept] at hnow
  exact absurd hnow (by decide +kernel)

end Macbeth
