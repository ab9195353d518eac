import Macbeth.Abci.StateSync
import Macbeth.Lib.Run

/-!
# The order of the chunks of a snapshot (`abci.rs`)

A sync records the index of the last chunk.  `apply_snapshot_chunk` refuses a chunk only if

```
last applied index - 1 > index
```

(with `0 - 1 = 0`), then records the index, and only then decodes and executes the chunk.  So
the order is left to the caller: a chunk may be skipped or come again.  After a failure the
answer is `RetrySnapshot`, by which the caller starts again at chunk 0; but the index that was
recorded stays, and from index 2 on the check refuses chunk 0.
-/

namespace Macbeth

open Outcome List Option BitVec

/-- A call of `apply_snapshot_chunk`; the content is `none` if the chunk does not decode. -/
structure ChunkDelivery where
  index : BitVec 32
  content : Option (List SnapshotBlock)

namespace StateSync

variable (sync : StateSync)

/-- The index is written for the sync that is recorded last. -/
def recordIndex (node : SyncNode) (index : BitVec 32) : SyncNode :=
  match lastSnapshotSync node with
  | none => node
  | some (id, _) => { node with snapshotSyncs := node.snapshotSyncs.put id ⟨index.setWidth 64⟩ }

/-- A call as a step of the node; one that panics has written the index. -/
def deliver (node : SyncNode) (chunk : ChunkDelivery) : Option ApplySnapshotResult × SyncNode :=
  match sync.applySnapshotChunk node chunk.index chunk.content with
  | .ok (result, node') => (some result, node')
  | _ => (none, recordIndex node chunk.index)

/-- The indices of the chunks whose blocks were executed and written, in order. -/
def storedChunks : History SyncNode ChunkDelivery (Option ApplySnapshotResult) → List Nat
  | [] => []
  | t :: h =>
    if t.output = some .accept then storedChunks h ++ [t.input.index.toNat] else storedChunks h

/-- Chunks delivered one after the other from an index on are taken, each of them. -/
def TakesInOrder : (node : SyncNode) → (index : Nat) → List (Option (List SnapshotBlock)) → Prop
  | _, _, [] => True
  | node, index, content :: rest => Expects node (BitVec.ofNat 32 index) ∧
      TakesInOrder (sync.deliver node ⟨BitVec.ofNat 32 index, content⟩).2 (index + 1) rest

/-- The chunks `0, 1, 2, …` were written, and if the last answer asks for the snapshot again,
the chunks are taken again from the first on. -/
structure Sequenced (h : History SyncNode ChunkDelivery (Option ApplySnapshotResult)) : Prop where
  inOrder : storedChunks h = List.range (storedChunks h).length
  resumes : ∀ t ∈ h.head?, t.output = some .retrySnapshot →
    ∀ contents : List (Option (List SnapshotBlock)), contents.length ≤ 2 ^ 32 →
      sync.TakesInOrder t.post 0 contents

/-- The chunk decodes to blocks that are executed to the end. -/
def Runs (node : SyncNode) (content : Option (List SnapshotBlock)) : Prop :=
  ∃ blocks outcome, content = some blocks ∧ sync.Executes node blocks outcome

/-- The chunk does not decode, or the execution of its blocks ends with an error. -/
def Fails (node : SyncNode) (content : Option (List SnapshotBlock)) : Prop :=
  content = none ∨ ∃ blocks e, content = some blocks ∧
    sync.builder.batchExecute sync.rules node.stateAt blocks = err e

/-- The chunk is not refused; if it is executed, it is the next one; if it fails, it is one of
the first two. -/
structure Orderly (h : History SyncNode ChunkDelivery (Option ApplySnapshotResult))
    (node : SyncNode) (chunk : ChunkDelivery) : Prop where
  expected : Expects node chunk.index
  next : sync.Runs node chunk.content → chunk.index.toNat = (storedChunks h).length
  early : sync.Fails node chunk.content → chunk.index.toNat ≤ 1

/-! ## One call -/

/-- A sync is recorded, with the index of its last chunk, and no history is synced. -/
def Ready (node : SyncNode) (last : BitVec 64) : Prop :=
  node.isSyncingHistory = false ∧ ∃ id, lastSnapshotSync node = some (id, ⟨last⟩)

section
variable {sync} {node : SyncNode} {last : BitVec 64} {index : BitVec 32}

theorem Ready.expects_iff (h : Ready node last) :
    Expects node index ↔ last.toNat ≤ index.toNat + 1 := by
  obtain ⟨hsync, id, hlast⟩ := h
  constructor
  · intro hexpects
    obtain ⟨-, id', snapshot, hlast', horder⟩ := hexpects
    obtain ⟨rfl, rfl⟩ := Prod.mk.inj (some.inj (hlast.symm.trans hlast'))
    simp only [outOfOrder, gt_iff_lt, decide_eq_false_iff_not] at horder
    omega
  · intro hle
    refine ⟨hsync, id, ⟨last⟩, hlast, ?_⟩
    simp only [outOfOrder, gt_iff_lt, decide_eq_false_iff_not]
    omega

/-- The sync that was recorded last is still the last after its index is written. -/
theorem lastSnapshotSync_put {id : Nat} {snapshot snapshot' : SnapshotSync}
    (h : lastSnapshotSync node = some (id, snapshot)) :
    lastSnapshotSync { node with snapshotSyncs := node.snapshotSyncs.put id snapshot' } =
      some (id, snapshot') := by
  obtain ⟨entry, hentry, h⟩ := bind_eq_some_iff.mp h
  obtain ⟨found, -, heq⟩ := map_eq_some_iff.mp h
  obtain rfl : entry.1 = id := congrArg Prod.fst heq
  have hput : (node.snapshotSyncs.put entry.1 snapshot').last? = some (entry.1, snapshot') := by
    obtain ⟨before, hbefore⟩ := Table.last?_eq_some_iff.mp hentry
    exact Table.last?_eq_some_iff.mpr ⟨before, Table.entries_put_last hbefore⟩
  simp [lastSnapshotSync, hput]

theorem Ready.recordIndex (h : Ready node last) :
    Ready (recordIndex node index) (index.setWidth 64) := by
  obtain ⟨hsync, id, hlast⟩ := h
  simp only [StateSync.recordIndex, hlast]
  exact ⟨hsync, id, lastSnapshotSync_put hlast⟩

/-- Appending blocks leaves the record of the sync. -/
theorem Ready.appendBlocksWithState (h : Ready node last) (blocks : List SnapshotBlock)
    (outcome : ExecutionOutcome) :
    Ready (sync.appendBlocksWithState node blocks outcome) last := by
  unfold StateSync.appendBlocksWithState
  split
  · exact h
  · exact h

@[simp] theorem stateAt_recordIndex (node : SyncNode) (index : BitVec 32) :
    (recordIndex node index).stateAt = node.stateAt := by
  unfold recordIndex
  split <;> rfl

/-- An expected chunk is decoded and executed after its index is written. -/
theorem applySnapshotChunk_of_expects {content : Option (List SnapshotBlock)}
    (h : Expects node index) :
    sync.applySnapshotChunk node index content = match content with
      | none => ok (.retrySnapshot, recordIndex node index)
      | some blocks => sync.applyBlocks (recordIndex node index) blocks := by
  obtain ⟨hsync, id, snapshot, hlast, horder⟩ := h
  unfold applySnapshotChunk recordIndex
  rw [if_neg (by simp [hsync]), hlast]
  cases content <;> simp [horder]

/-- What a call does: the chunk is refused, fails, is executed, or is given up by a panic. -/
theorem Ready.deliver_cases (sync : StateSync) (h : Ready node last) (chunk : ChunkDelivery) :
    (¬ Expects node chunk.index ∧ sync.deliver node chunk = (some .retrySnapshot, node)) ∨
    (Expects node chunk.index ∧ Ready (sync.deliver node chunk).2 (chunk.index.setWidth 64) ∧
      ((sync.Fails node chunk.content ∧ ¬ sync.Runs node chunk.content ∧
          (sync.deliver node chunk).1 = some .retrySnapshot) ∨
        (sync.Runs node chunk.content ∧ ¬ sync.Fails node chunk.content ∧
          (sync.deliver node chunk).1 = some .accept) ∨
        (¬ sync.Runs node chunk.content ∧ ¬ sync.Fails node chunk.content ∧
          (sync.deliver node chunk).1 = none))) := by
  obtain ⟨index, content⟩ := chunk
  by_cases hexpects : Expects node index
  · have hrecord : Ready (StateSync.recordIndex node index) (index.setWidth 64) := h.recordIndex
    refine .inr ⟨hexpects, ?_⟩
    simp only [deliver, applySnapshotChunk_of_expects hexpects]
    cases content with
    | none => exact ⟨hrecord, .inl (by simp [Fails, Runs])⟩
    | some blocks =>
      simp only [applyBlocks, stateAt_recordIndex, Runs, Fails, Executes, some.injEq,
        reduceCtorEq, false_or, exists_and_left, exists_eq_left']
      cases hbatch : sync.builder.batchExecute sync.rules node.stateAt blocks with
      | panic => exact ⟨hrecord, .inr (.inr (by simp))⟩
      | err e => exact ⟨hrecord, .inl (by simp)⟩
      | ok outcome =>
        cases hupdate : sync.updateChain blocks with
        | ok u => exact ⟨hrecord.appendBlocksWithState blocks outcome, .inr (.inl (by simp))⟩
        | err e => cases e
        | panic => exact ⟨hrecord, .inr (.inr (by simp))⟩
  · refine .inl ⟨hexpects, ?_⟩
    obtain ⟨hsync, id, hlast⟩ := h
    have horder : outOfOrder ⟨last⟩ index = true := by
      by_contra horder
      exact hexpects ⟨hsync, id, ⟨last⟩, hlast, by simpa using horder⟩
    simp [deliver, applySnapshotChunk, hsync, hlast, horder]

/-- Once a chunk is taken, the chunks after it are taken in order. -/
theorem Ready.takesInOrder : ∀ {contents : List (Option (List SnapshotBlock))} {node : SyncNode}
    {last : BitVec 64} {index : Nat}, Ready node last → last.toNat ≤ index + 1 →
    index + contents.length ≤ 2 ^ 32 → sync.TakesInOrder node index contents
  | [], _, _, _, _, _, _ => trivial
  | content :: rest, node, last, index, h, hle, hlen => by
    rw [length_cons] at hlen
    have hindex : (BitVec.ofNat 32 index).toNat = index := by
      rw [toNat_ofNat, Nat.mod_eq_of_lt (by omega)]
    have hexpects : Expects node (BitVec.ofNat 32 index) := h.expects_iff.mpr (by rwa [hindex])
    rcases h.deliver_cases sync ⟨BitVec.ofNat 32 index, content⟩ with hrefused | htaken
    · exact absurd hexpects hrefused.1
    · refine ⟨hexpects, htaken.2.1.takesInOrder ?_ (by omega)⟩
      rw [toNat_setWidth_of_le (by decide), hindex]
      omega

/-- The chunks are taken again from the first on, if the last index is at most one. -/
theorem Ready.resumes_iff (h : Ready node last) :
    (∀ contents : List (Option (List SnapshotBlock)), contents.length ≤ 2 ^ 32 →
      sync.TakesInOrder node 0 contents) ↔ last.toNat ≤ 1 := by
  constructor
  · intro htakes
    exact h.expects_iff.mp (htakes [none] (by decide)).1
  · intro hle contents hlen
    exact h.takesInOrder (by omega) (by omega)

/-! ## Runs -/

variable {h : History SyncNode ChunkDelivery (Option ApplySnapshotResult)}

theorem range_snoc {xs : List Nat} {n : Nat} (hxs : xs = List.range xs.length) :
    xs ++ [n] = List.range (xs ++ [n]).length ↔ n = xs.length := by
  rw [length_append, length_singleton, range_succ, ← hxs]
  simp

/-- A call keeps the chunks in sequence exactly if it is orderly. -/
theorem Sequenced.fire_iff (hready : Ready node last) (hseq : sync.Sequenced h)
    (chunk : ChunkDelivery) :
    sync.Sequenced (fire sync.deliver node chunk :: h) ↔ sync.Orderly h node chunk := by
  rcases hready.deliver_cases sync chunk with ⟨hrefused, hdeliver⟩ |
    ⟨hexpects, hready', hcases⟩
  · -- refused: chunk 0 is refused as well
    constructor
    · intro hnew
      have hpost : (fire sync.deliver node chunk).post = node := congrArg Prod.snd hdeliver
      have hresumes := hnew.resumes _ rfl (congrArg Prod.fst hdeliver)
      rw [hpost, hready.resumes_iff] at hresumes
      exact absurd (hready.expects_iff.mpr (by omega)) hrefused
    · exact fun horderly => absurd horderly.expected hrefused
  · rcases hcases with ⟨hfails, hruns, hout⟩ | ⟨hruns, hfails, hout⟩ | ⟨hruns, hfails, hout⟩
    · have hstored : storedChunks (fire sync.deliver node chunk :: h) = storedChunks h := by
        simp [storedChunks, fire, hout]
      have hindex : (chunk.index.setWidth 64).toNat = chunk.index.toNat :=
        toNat_setWidth_of_le (by decide)
      constructor
      · intro hnew
        have hle := hready'.resumes_iff.mp (hnew.resumes _ rfl hout)
        exact ⟨hexpects, fun hrun => absurd hrun hruns, fun _ => hindex ▸ hle⟩
      · intro horderly
        refine ⟨by rw [hstored]; exact hseq.inOrder, fun t ht _ => ?_⟩
        obtain rfl := some.inj ht
        exact hready'.resumes_iff.mpr (hindex ▸ horderly.early hfails)
    · have hstored : storedChunks (fire sync.deliver node chunk :: h) =
          storedChunks h ++ [chunk.index.toNat] := by
        simp [storedChunks, fire, hout]
      constructor
      · intro hnew
        have hnext := hnew.inOrder
        rw [hstored] at hnext
        exact ⟨hexpects, fun _ => (range_snoc hseq.inOrder).mp hnext, fun hfail => absurd hfail hfails⟩
      · intro horderly
        refine ⟨?_, fun t ht hretry => ?_⟩
        · rw [hstored]
          exact (range_snoc hseq.inOrder).mpr (horderly.next hruns)
        · obtain rfl := some.inj ht
          rw [show (fire sync.deliver node chunk).output = some .accept from hout] at hretry
          cases hretry
    · have hstored : storedChunks (fire sync.deliver node chunk :: h) = storedChunks h := by
        simp [storedChunks, fire, hout]
      constructor
      · exact fun _ => ⟨hexpects, fun hrun => absurd hrun hruns, fun hfail => absurd hfail hfails⟩
      · intro _
        refine ⟨by rw [hstored]; exact hseq.inOrder, fun t ht hretry => ?_⟩
        obtain rfl := some.inj ht
        rw [show (fire sync.deliver node chunk).output = none from hout] at hretry
        cases hretry

/-- In a run a sync stays recorded. -/
theorem Ready.run {node₀ : SyncNode} (h₀ : Ready node₀ 0) (hrun : Run sync.deliver node₀ h node) :
    ∃ last, Ready node last := by
  refine Run.always (I := fun node => ∃ last, Ready node last) ⟨0, h₀⟩ ?_ hrun
  intro node chunk hready
  obtain ⟨last, hready⟩ := hready
  rcases hready.deliver_cases sync chunk with hrefused | htaken
  · rw [hrefused.2]
    exact ⟨last, hready⟩
  · exact ⟨_, htaken.2.1⟩

end

/-- After a snapshot is offered, the chunks are in sequence at every point of a run exactly if
no chunk is refused, every chunk that is executed is the next one, and none but the first two
fails to decode or to execute. -/
theorem chunks_sequenced_iff (sync : StateSync) {node₀ node : SyncNode} (h₀ : Ready node₀ 0)
    {h : History SyncNode ChunkDelivery (Option ApplySnapshotResult)}
    (hrun : Run sync.deliver node₀ h node) :
    (∀ earlier, earlier <:+ h → sync.Sequenced earlier) ↔ Meets sync.Orderly h := by
  induction hrun with
  | start =>
    constructor
    · exact fun _ => trivial
    · intro _ earlier hsuffix
      rw [suffix_nil.mp hsuffix]
      exact ⟨rfl, by simp⟩
  | next chunk hrun ih =>
    obtain ⟨last, hready⟩ := h₀.run hrun
    constructor
    · intro hall
      have hbefore := fun earlier hsuffix => hall earlier (suffix_cons_iff.mpr (.inr hsuffix))
      exact ⟨(Sequenced.fire_iff hready (hbefore _ suffix_rfl) chunk).mp
        (hall _ suffix_rfl), ih.mp hbefore⟩
    · intro hmeets earlier hsuffix
      rcases suffix_cons_iff.mp hsuffix with rfl | hsuffix
      · exact (Sequenced.fire_iff hready (ih.mpr hmeets.2 _ suffix_rfl) chunk).mpr hmeets.1
      · exact ih.mpr hmeets.2 earlier hsuffix

end StateSync

/-! ## Chunks of one empty block -/

/-- A chunk with an empty block. -/
def emptyChunk (index : BitVec 32) (number : BitVec 64) : ChunkDelivery :=
  ⟨index, some [⟨emptyHeader 0 number 1700000030, none, [], none⟩]⟩

/-- Calls on the syncing node, the newest first. -/
def chunkRun (chunks : List ChunkDelivery) :
    History SyncNode ChunkDelivery (Option ApplySnapshotResult) × SyncNode :=
  play idleSync.deliver syncingNode chunks

theorem chunkRun_run (chunks : List ChunkDelivery) :
    Run idleSync.deliver syncingNode (chunkRun chunks).1 (chunkRun chunks).2 := .play chunks

theorem meets_chunkRun_cons (chunk : ChunkDelivery) (chunks : List ChunkDelivery) :
    Meets idleSync.Orderly (chunkRun (chunk :: chunks)).1 ↔
      idleSync.Orderly (chunkRun chunks).1 (chunkRun chunks).2 chunk ∧
        Meets idleSync.Orderly (chunkRun chunks).1 := Iff.rfl

theorem resumes_of_chunkRun {chunk : ChunkDelivery} {chunks : List ChunkDelivery}
    (hretry : (idleSync.deliver (chunkRun chunks).2 chunk).1 = some .retrySnapshot)
    (h : idleSync.Sequenced (chunkRun (chunk :: chunks)).1) :
    ∀ contents : List (Option (List SnapshotBlock)), contents.length ≤ 2 ^ 32 →
      idleSync.TakesInOrder (chunkRun (chunk :: chunks)).2 0 contents :=
  h.resumes _ rfl hretry

theorem syncingNode_ready : StateSync.Ready syncingNode 0 := ⟨rfl, 1, rfl⟩

/-- Two chunks are delivered in order and executed. -/
theorem two_chunks_in_order :
    StateSync.storedChunks (chunkRun [emptyChunk 1 4, emptyChunk 0 3]).1 = [0, 1] ∧
    ∀ earlier, earlier <:+ (chunkRun [emptyChunk 1 4, emptyChunk 0 3]).1 →
      idleSync.Sequenced earlier := by
  have hstored : StateSync.storedChunks (chunkRun [emptyChunk 1 4, emptyChunk 0 3]).1 = [0, 1] := by
    decide +kernel
  refine ⟨hstored, (StateSync.chunks_sequenced_iff idleSync syncingNode_ready
    (chunkRun_run _)).mpr ?_⟩
  have hready : StateSync.Ready (chunkRun [emptyChunk 0 3]).2 0 :=
    ⟨by decide +kernel, 1, by decide +kernel⟩
  have hfirst : idleSync.Orderly (chunkRun []).1 (chunkRun []).2 (emptyChunk 0 3) :=
    ⟨syncingNode_ready.expects_iff.mpr (by decide), fun _ => rfl, fun _ => by decide⟩
  have hsecond : idleSync.Orderly (chunkRun [emptyChunk 0 3]).1 (chunkRun [emptyChunk 0 3]).2
      (emptyChunk 1 4) :=
    ⟨hready.expects_iff.mpr (by decide), fun _ => by decide +kernel, fun _ => by decide⟩
  rw [meets_chunkRun_cons, meets_chunkRun_cons]
  exact ⟨hsecond, hfirst, trivial⟩

/-- The third chunk does not decode.  The answer asks for the snapshot again, and then the
first chunk is refused, with the same answer. -/
theorem restart_refused :
    (chunkRun [⟨2, none⟩, emptyChunk 1 4, emptyChunk 0 3]).1.map (·.output) =
      [some .retrySnapshot, some .accept, some .accept] ∧
    (idleSync.deliver (chunkRun [⟨2, none⟩, emptyChunk 1 4, emptyChunk 0 3]).2
      (emptyChunk 0 3)).1 = some .retrySnapshot ∧
    ¬ idleSync.Sequenced (chunkRun [⟨2, none⟩, emptyChunk 1 4, emptyChunk 0 3]).1 := by
  have houtputs : (chunkRun [⟨2, none⟩, emptyChunk 1 4, emptyChunk 0 3]).1.map (·.output) =
      [some .retrySnapshot, some .accept, some .accept] := by decide +kernel
  have hready : StateSync.Ready (chunkRun [⟨2, none⟩, emptyChunk 1 4, emptyChunk 0 3]).2 2 :=
    ⟨by decide +kernel, 1, by decide +kernel⟩
  refine ⟨houtputs, by decide +kernel, fun hseq => ?_⟩
  have hretry : (idleSync.deliver (chunkRun [emptyChunk 1 4, emptyChunk 0 3]).2 ⟨2, none⟩).1 =
      some .retrySnapshot := by decide +kernel
  exact absurd (hready.resumes_iff.mp (resumes_of_chunkRun hretry hseq)) (by decide)

end Macbeth
