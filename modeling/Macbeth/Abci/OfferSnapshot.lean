import Macbeth.Abci.ChunkOrder

/-!
# Offers of snapshots (`abci.rs`)

`offer_snapshot` is called with what a peer says about its snapshot.  It answers at once if

1. there is no snapshot in the request, or the history is being synced;
2. the application hash is missing, or is the node's own;
3. the format is another, or the chunks or the hash are missing;
4. the snapshot is the one that is being synced, or it is not above it, or the node has the
   block already or is beyond it;

and otherwise records a new sync.  A poisoned lock or an error of the database is an answer,
too.  Of the fields of the record only the index of the last chunk is read again, but the hash
is converted to 32 bytes for it, and that conversion is not guarded.
-/

namespace Macbeth

open Outcome Checked

/-- `Snapshot`, as a peer describes it. -/
structure OfferedSnapshot where
  height : BitVec 64
  format : BitVec 32
  chunks : BitVec 32
  hash : List UInt8
  metadata : List UInt8
  deriving DecidableEq, Repr

/-- `RequestOfferSnapshot`. -/
structure RequestOfferSnapshot where
  snapshot : Option OfferedSnapshot
  appHash : List UInt8
  deriving DecidableEq, Repr

/-- `SnapshotOfferResult`. -/
inductive SnapshotOfferResult where
  | unknown
  | accept
  | abort
  | reject
  | rejectFormat
  | rejectSender
  deriving DecidableEq, Repr

/-- `SnapshotSyncStateLock`: the snapshot that is being synced. -/
structure SnapshotSyncStateLock where
  snapshotHeight : BitVec 64
  snapshotHash : List UInt8
  snapshotChunks : BitVec 64
  snapshotFormat : BitVec 64
  deriving DecidableEq, Repr

/-- `SnapshotSyncStateLock::from`. -/
def OfferedSnapshot.toLock (snapshot : OfferedSnapshot) : SnapshotSyncStateLock where
  snapshotHeight := snapshot.height
  snapshotHash := snapshot.hash
  snapshotChunks := snapshot.chunks.setWidth 64
  snapshotFormat := snapshot.format.setWidth 64

/-- The node with its locks. -/
structure OfferNode where
  node : SyncNode
  /-- Whether the lock of the snapshot manager is poisoned. -/
  managerPoisoned : Bool
  /-- The lock of the sync, if there is one; `none` in it if it is poisoned. -/
  syncLock : Option (Option SnapshotSyncStateLock)

/-- What else the handler asks: the database and the configuration. -/
structure OfferEnv where
  snapshotFormat : BitVec 32
  /-- `latest_header` fails or finds nothing. -/
  headerMissing : Bool
  /-- `block_by_id` finds a block of this number. -/
  hasBlock : BitVec 64 → Bool
  /-- Recording the sync fails. -/
  createFails : Bool
  /-- Whether the build has overflow checks. -/
  checks : Bool

namespace OfferEnv

variable (env : OfferEnv)

/-- The checks before the sync is recorded; an error is the answer that is given at once. -/
def screen (state : OfferNode) (request : RequestOfferSnapshot) :
    Except SnapshotOfferResult OfferedSnapshot :=
  match request.snapshot with
  | none => .error .unknown
  | some snapshot =>
    if state.managerPoisoned then .error .reject
    else if state.node.isSyncingHistory then .error .reject
    else if request.appHash = [] then .error .reject
    else if env.headerMissing then .error .reject
    else if Bytes.toBE 32 state.node.chain.bestHash.toNat = request.appHash then .error .reject
    else if snapshot.format ≠ env.snapshotFormat then .error .rejectFormat
    else if snapshot.chunks = 0 then .error .reject
    else if snapshot.hash = [] then .error .reject
    else if state.syncLock = some none then .error .reject
    else if state.syncLock = some (some snapshot.toLock) then .error .accept
    else if env.hasBlock snapshot.height then .error .reject
    else if state.node.chain.best.header.number > snapshot.height then .error .reject
    else if state.syncLock.any (·.any fun lock => lock.snapshotHeight ≥ snapshot.height) then
      .error .reject
    else .ok snapshot

/-- The id of the last sync of the database, or 0. -/
def lastSyncId (node : SyncNode) : BitVec 64 :=
  BitVec.ofNat 64 ((node.snapshotSyncs.last?.map Prod.fst).getD 0)

/-- `create_new_snapshot_sync`. -/
def createNewSnapshotSync (node : SyncNode) : Outcome Empty (Option SyncNode) :=
  if env.createFails then ok none
  else do
    let id ← addWord env.checks (lastSyncId node) 1
    return some { node with snapshotSyncs := node.snapshotSyncs.put id.toNat ⟨0⟩ }

/-- `offer_snapshot`. -/
def offerSnapshot (state : OfferNode) (request : RequestOfferSnapshot) :
    Outcome Empty (SnapshotOfferResult × OfferNode) :=
  match env.screen state request with
  | .error result => ok (result, state)
  | .ok snapshot => do
    -- "slice with incorrect length"
    let _ ← expect (if snapshot.hash.length = 32 then some snapshot.hash else none)
    match ← env.createNewSnapshotSync state.node with
    | none => return (.unknown, state)
    | some node =>
      -- the lock was read before, so it is not poisoned
      return (.accept, { state with
        node, syncLock := state.syncLock.map fun _ => some snapshot.toLock })

/-! ## Where the handler panics -/

/-- The offer passes every check, and a sync would be recorded for it. -/
structure Passes (state : OfferNode) (request : RequestOfferSnapshot)
    (snapshot : OfferedSnapshot) : Prop where
  present : request.snapshot = some snapshot
  unlocked : state.managerPoisoned = false ∧ state.node.isSyncingHistory = false ∧
    state.syncLock ≠ some none
  appHash : request.appHash ≠ [] ∧ env.headerMissing = false ∧
    Bytes.toBE 32 state.node.chain.bestHash.toNat ≠ request.appHash
  described : snapshot.format = env.snapshotFormat ∧ snapshot.chunks ≠ 0 ∧ snapshot.hash ≠ []
  fresh : state.syncLock ≠ some (some snapshot.toLock) ∧
    ∀ lock ∈ state.syncLock, ∀ current ∈ lock, current.snapshotHeight < snapshot.height
  ahead : env.hasBlock snapshot.height = false ∧
    state.node.chain.best.header.number ≤ snapshot.height

section
variable {env} {state : OfferNode} {request : RequestOfferSnapshot} {snapshot : OfferedSnapshot}

theorem screen_eq_ok :
    env.screen state request = .ok snapshot ↔ env.Passes state request snapshot := by
  have hbelow : ∀ offered : OfferedSnapshot,
      (¬ state.syncLock.any (·.any fun lock => lock.snapshotHeight ≥ offered.height) = true) ↔
        ∀ lock ∈ state.syncLock, ∀ current ∈ lock, current.snapshotHeight < offered.height := by
    intro offered
    rcases state.syncLock with _ | _ | current <;> simp
  constructor
  · intro h
    unfold screen at h
    split at h
    · cases h
    · next offered hoffered =>
      simp only [except_check_eq_ok, hbelow] at h
      obtain ⟨h₁, h₂, h₃, h₄, h₅, h₆, h₇, h₈, h₉, h₁₀, h₁₁, h₁₂, h₁₃, hsome⟩ := h
      cases hsome
      exact {
        present := hoffered
        unlocked := ⟨by simpa using h₁, by simpa using h₂, h₉⟩
        appHash := ⟨h₃, by simpa using h₄, h₅⟩
        described := ⟨by simpa using h₆, h₇, h₈⟩
        fresh := ⟨h₁₀, h₁₃⟩
        ahead := ⟨by simpa using h₁₁, by simpa using h₁₂⟩ }
  · intro h
    obtain ⟨hpresent, ⟨h₁, h₂, h₉⟩, ⟨h₃, h₄, h₅⟩, ⟨h₆, h₇, h₈⟩, ⟨h₁₀, h₁₃⟩, ⟨h₁₁, h₁₂⟩⟩ := h
    simp only [screen, hpresent, except_check_eq_ok, hbelow]
    exact ⟨by simp [h₁], by simp [h₂], h₃, by simp [h₄], h₅, by simp [h₆], h₇, h₈, h₉, h₁₀,
      by simp [h₁₁], by simpa using h₁₂, h₁₃, trivial⟩

/-- An offer that is answered at once. -/
theorem offerSnapshot_of_error {result : SnapshotOfferResult}
    (h : env.screen state request = .error result) :
    env.offerSnapshot state request = ok (result, state) := by
  simp only [offerSnapshot, h]

theorem createNewSnapshotSync_returns_iff {node : SyncNode} :
    (∃ created, env.createNewSnapshotSync node = ok created) ↔
      (env.createFails = false → env.checks = true → (lastSyncId node).toNat + 1 < 2 ^ 64) := by
  unfold createNewSnapshotSync addWord
  cases env.createFails <;> cases env.checks <;> simp
  split
  · simp; omega
  · simp; omega

/-- An offer that passes the checks is answered if its hash has 32 bytes and there is an id
for it. -/
theorem offerSnapshot_of_passes (h : env.Passes state request snapshot) :
    (∃ answer, env.offerSnapshot state request = ok answer) ↔
      snapshot.hash.length = 32 ∧ ∃ created, env.createNewSnapshotSync state.node = ok created := by
  simp only [offerSnapshot, screen_eq_ok.mpr h]
  by_cases hlen : snapshot.hash.length = 32
  · simp only [hlen, if_true, expect, ok_bind, true_and]
    cases hcreate : env.createNewSnapshotSync state.node with
    | ok created => cases created <;> simp
    | err e => exact e.elim
    | panic => simp
  · simp [hlen, expect]

end

/-- An offer is answered unless it passes every check and then has a hash of another length, or
no id is left for the sync. -/
theorem offers_answered_iff (env : OfferEnv) (state : OfferNode)
    (request : RequestOfferSnapshot) :
    (∃ answer, env.offerSnapshot state request = ok answer) ↔
      ∀ snapshot, env.Passes state request snapshot → snapshot.hash.length = 32 ∧
        (env.createFails = false → env.checks = true →
          (lastSyncId state.node).toNat + 1 < 2 ^ 64) := by
  constructor
  · intro hanswer snapshot hpasses
    obtain ⟨hlen, hcreated⟩ := (offerSnapshot_of_passes hpasses).mp hanswer
    exact ⟨hlen, createNewSnapshotSync_returns_iff.mp hcreated⟩
  · intro hsafe
    cases hscreen : env.screen state request with
    | error result => exact ⟨_, offerSnapshot_of_error hscreen⟩
    | ok snapshot =>
      have hpasses := screen_eq_ok.mp hscreen
      obtain ⟨hlen, hid⟩ := hsafe snapshot hpasses
      exact (offerSnapshot_of_passes hpasses).mpr
        ⟨hlen, createNewSnapshotSync_returns_iff.mpr hid⟩

/-! ## A new sync -/

section
variable {env} {state : OfferNode} {request : RequestOfferSnapshot} {snapshot : OfferedSnapshot}

end

end OfferEnv

/-! ## A hash of one byte -/

/-- A node with the second block, and locks as they are when it starts. -/
def offeredNode : OfferNode where
  node := { syncingNode with snapshotSyncs := Table.empty }
  managerPoisoned := false
  syncLock := some (some ⟨0, [], 0, 0⟩)

def offeredEnv : OfferEnv where
  snapshotFormat := 1
  headerMissing := false
  hasBlock number := number ≤ 2
  createFails := false
  checks := true

/-- A snapshot of the tenth block. -/
def tenthSnapshot (hash : List UInt8) : RequestOfferSnapshot where
  snapshot := some ⟨10, 1, 1, hash, []⟩
  appHash := [1]

/-- With 32 bytes the snapshot is accepted, and its chunks are awaited. -/
theorem tenthSnapshot_answered :
    (tenthSnapshot (List.replicate 32 7)).snapshot.any (·.hash.length = 32) = true ∧
    ∃ answer, offeredEnv.offerSnapshot offeredNode (tenthSnapshot (List.replicate 32 7)) =
      ok answer := by
  refine ⟨by decide +kernel, (OfferEnv.offers_answered_iff _ _ _).mpr ?_⟩
  intro snapshot hpasses
  obtain rfl := Option.some.inj hpasses.present
  exact ⟨by decide, fun _ _ => by decide +kernel⟩

/-- With one byte it takes the node down. -/
theorem short_hash_panics :
    ¬ ∃ answer, offeredEnv.offerSnapshot offeredNode (tenthSnapshot [7]) = ok answer := by
  intro h
  obtain ⟨answer, hanswer⟩ := h
  have hpanic : offeredEnv.offerSnapshot offeredNode (tenthSnapshot [7]) = panic :=
    eq_panic_of_isPanic (by decide +kernel)
  rw [hpanic] at hanswer
  cases hanswer

end Macbeth
