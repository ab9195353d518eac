import Macbeth.Snapshot.Immutable

/-!
# The chain in the snapshots

The data of the retained snapshots should be the encoded blocks from some block on up to the
last one that was processed (`Contains`).  A step of the manager keeps that, block by block.
What can break it lies outside of a single step: a restart between the transactions of one block
that leaves a trace of it but not all (`Whole`), a start that finds exactly one block missing or
is told a height below the chain, and a commit while history is synced, before the manager
listens.  In runs without these the data are the chain, each block once
(`snapshots_contain_chain_once`).
-/

namespace Macbeth.SnapshotConfig

open List Option SnapshotDb

variable {B : Type} {config : SnapshotConfig B} {w : SnapshotWorld B}
variable {chain : List B} {db db' : SnapshotDb} {last : Nat} {block : B} {bytes : List UInt8}

/-! ## What the data are -/

/-- The data are the encoded blocks after some block up to the last. -/
def Contains (config : SnapshotConfig B) (chain : List B) (db : SnapshotDb) (last : Nat) : Prop :=
  last ≤ chain.length ∧
    ∃ first ≤ last, db.data.map some = ((chain.take last).drop first).map config.encode

instance (config : SnapshotConfig B) (chain : List B) (db : SnapshotDb) (last : Nat) :
    Decidable (config.Contains chain db last) := by
  unfold Contains
  infer_instance

theorem Contains.of_data (h : config.Contains chain db last) (hdata : db'.data = db.data) :
    config.Contains chain db' last := by
  unfold Contains
  rw [hdata]
  exact h

/-- The next block is added at the end. -/
theorem Contains.add (h : config.Contains chain db last) (hblock : chain[last]? = some block)
    (hencode : config.encode block = some bytes) (hdata : db'.data = db.data ++ [bytes]) :
    config.Contains chain db' (last + 1) := by
  obtain ⟨-, first, hfirst, heq⟩ := h
  have hlt := (List.getElem?_eq_some_iff.mp hblock).1
  refine ⟨hlt, first, by omega, ?_⟩
  have htake : chain.take (last + 1) = chain.take last ++ [block] := by
    rw [take_add_one, hblock]
    rfl
  rw [hdata, htake, drop_append_of_le_length (by simp; omega)]
  simp [heq, hencode]

/-- Data removed at the front. -/
theorem Contains.removed (h : config.Contains chain db last) {gone : List (List UInt8)}
    (hdata : db.data = gone ++ db'.data) : config.Contains chain db' last := by
  obtain ⟨hlast, first, hfirst, heq⟩ := h
  have hlength := congrArg List.length heq
  simp only [hdata, length_map, length_append, length_drop, length_take] at hlength
  refine ⟨hlast, first + gone.length, by omega, ?_⟩
  have hdrop := congrArg (List.drop gone.length) heq
  rw [hdata, map_append, drop_left' (by simp), ← map_drop, drop_drop] at hdrop
  exact hdrop

theorem Contains.commit (h : config.Contains chain db last) (block : B) :
    config.Contains (chain ++ [block]) db last := by
  obtain ⟨hlast, first, hfirst, heq⟩ := h
  refine ⟨by simp; omega, first, hfirst, ?_⟩
  rw [take_append_of_le_length hlast]
  exact heq

/-! ## What the manager knows of the chain -/

/-- The tables hold the chain up to a block, and the last snapshot is at that height. -/
def Stands (config : SnapshotConfig B) (w : SnapshotWorld B) (k : Nat) : Prop :=
  config.Contains w.chain w.db k ∧ persistedHeight w = k

/-- The tables while the block after the first `k` is in process. -/
def PointHolds (config : SnapshotConfig B) (w : SnapshotWorld B) (k : Nat) : Prop :=
  match w.point with
  | .idle | .retaining => config.Stands w k
  | .opened block _ => w.chain[k]? = some block ∧ config.Stands w k
  | .sized block _ _ | .chosen block _ _ | .unlocked block _ _ =>
    w.chain[k]? = some block ∧ config.Contains w.chain w.db k ∧
      (persistedHeight w = k ∨ persistedHeight w = k + 1)
  | .stored block id chunkId =>
    w.chain[k]? = some block ∧ (persistedHeight w = k ∨ persistedHeight w = k + 1) ∧
      w.db.AtNewest id fun s =>
        if chunkId ∈ s.chunkIds then config.Contains w.chain w.db (k + 1)
        else config.Contains w.chain w.db k ∧
          ∃ bytes, config.encode block = some bytes ∧ w.db.chunkDataOf chunkId = [bytes]
  | .updated block _ => w.chain[k]? = some block ∧ config.Stands w (k + 1)

/-- The blocks to come are those after the first `m`. -/
def Upcoming (w : SnapshotWorld B) (m : Nat) : Prop :=
  match w.phase with
  | .down => True
  | .history rest => rest.filterMap (blockAt w) = w.chain.drop m
  | .live inbox lagged => lagged = false → inbox = w.chain.drop m

/-- The blocks that were taken up. -/
def taken (point : ProcessPoint B) (k : Nat) : Nat := if (block? point).isSome then k + 1 else k

/-- The manager has processed `k` blocks, and perhaps one in part. -/
structure Tracks (config : SnapshotConfig B) (w : SnapshotWorld B) (k : Nat) : Prop where
  point : config.PointHolds w k
  upcoming : Upcoming w (taken w.point k)

variable {k id chunkId : Nat}
variable {before : List (Nat × Snapshot)} {s : Snapshot}

theorem persistedHeight_of_newest (h : db.snapshots.entries = before ++ [(id, s)])
    (hdb : w.db = db) : persistedHeight w = s.height := by
  have hlast : db.snapshots.last? = some (id, s) := Table.last?_eq_some_iff.mpr ⟨before, h⟩
  simp [persistedHeight, getLastSnapshotHeight, hdb, hlast]

section
variable {point : ProcessPoint B} (h : config.Tracks w k) (hpoint : w.point = point)
include h hpoint

theorem Tracks.holdsAt : config.PointHolds { w with point } k := hpoint ▸ h.point

theorem Tracks.upcomingAt : Upcoming w (taken point k) := hpoint ▸ h.upcoming

/-- A step on the block in process. -/
theorem Tracks.onBlock (hblock : (block? point).isSome) {db : SnapshotDb} {lock : StateLock}
    {next : ProcessPoint B} (hsame : (block? next).isSome)
    (hholds : config.PointHolds { w with db, lock, point := next } k) :
    config.Tracks { w with db, lock, point := next } k := by
  refine ⟨hholds, ?_⟩
  have hupcoming := h.upcomingAt hpoint
  rw [taken, if_pos hblock] at hupcoming
  show Upcoming _ (taken next k)
  rw [taken, if_pos hsame]
  exact hupcoming

end

/-- A manager at rest goes on to another phase. -/
theorem Tracks.setPhase (h : config.Tracks w k) (hpoint : w.point = .idle) {lock : StateLock}
    {phase : ManagerPhase B} (hupcoming : Upcoming { w with lock, phase } k) :
    config.Tracks { w with lock, phase } k := by
  refine ⟨?_, by rwa [hpoint]⟩
  rw [PointHolds, hpoint]
  exact h.holdsAt hpoint

theorem Tracks.lockLatest (hcoherent : config.Coherent w) (h : config.Tracks w k)
    (hpoint : w.point = .opened block bytes) :
    config.Tracks (config.lockLatest w block bytes) k := by
  obtain ⟨hblock, hcontains, hheight⟩ : _ ∧ config.Stands w k := h.holdsAt hpoint
  have hnumber := hcoherent.numbered k block hblock
  unfold SnapshotConfig.lockLatest
  cases hlast : w.db.getLastSnapshotHeight with
  | none =>
    refine h.onBlock hpoint rfl rfl ⟨hblock, hcontains.of_data data_createNewSnapshot, .inr ?_⟩
    rw [← hnumber]
    exact persistedHeight_of_newest entries_createNewSnapshot rfl
  | some newest =>
    obtain ⟨id, height⟩ := newest
    have hsame : persistedHeight w = height := by simp [persistedHeight, hlast]
    simp only
    rw [if_neg (by omega)]
    exact h.onBlock hpoint rfl rfl ⟨hblock, hcontains, .inl hheight⟩

theorem Tracks.ensureSpace (hcoherent : config.Coherent w) (h : config.Tracks w k)
    (hpoint : w.point = .sized block bytes id) :
    config.Tracks (config.ensureSpace w block bytes id) k := by
  obtain ⟨hblock, hcontains, hheight⟩ := h.holdsAt hpoint
  unfold SnapshotConfig.ensureSpace
  split
  · refine h.onBlock hpoint rfl rfl ⟨hblock, hcontains.of_data data_createNewSnapshot, .inr ?_⟩
    rw [← hcoherent.numbered k block hblock]
    exact persistedHeight_of_newest entries_createNewSnapshot rfl
  · exact h.onBlock hpoint rfl rfl ⟨hblock, hcontains, hheight⟩

theorem Tracks.setLock (h : config.Tracks w k) (hpoint : w.point = .chosen block bytes id) :
    config.Tracks (config.setLock w block bytes id) k := by
  exact h.onBlock hpoint rfl rfl (h.holdsAt hpoint)

/-- The newest snapshot has space to store bytes in. -/
theorem storeBytes_isSome (hwf : db.WellFormed)
    (hnewest : db.snapshots.entries = before ++ [(id, s)]) (number : Nat) :
    ∃ stored, config.storeBytes db id number bytes = some stored := by
  have hget : db.snapshots.get? id = some s := get?_newest hnewest
  simp only [storeBytes, hget, bind_eq_bind, bind_some]
  cases hlast : s.chunkIds.getLast? with
  | none => exact ⟨_, rfl⟩
  | some chunkId =>
    obtain ⟨chunk, hchunk⟩ := hwf.present chunkId
      (mem_allChunkIds hget (mem_of_getLast? hlast))
    simp only
    split
    · exact ⟨_, rfl⟩
    · simp [appendToChunk, hchunk]

/-- The last chunk of the newest snapshot is the last of all. -/
theorem allChunkIds_of_newest (hnewest : db.snapshots.entries = before ++ [(id, s)])
    (hlast : s.chunkIds.getLast? = some chunkId) :
    ∃ first, db.allChunkIds = first ++ [chunkId] := by
  obtain ⟨front, hfront⟩ := getLast?_eq_some_iff.mp hlast
  refine ⟨before.flatMap (fun e => e.2.chunkIds) ++ front, ?_⟩
  rw [allChunkIds_eq, hnewest, flatMap_append, flatMap_singleton, hfront,
    append_assoc]

theorem Tracks.storeBlock (hcoherent : config.Coherent w) (h : config.Tracks w k)
    (hpoint : w.point = .unlocked block bytes id) :
    config.Tracks (config.storeBlock w block bytes id) k := by
  obtain ⟨hblock, hcontains, hheight⟩ := h.holdsAt hpoint
  obtain ⟨hencode, -, before, s, hnewest, -⟩ := hcoherent.pointOk hpoint
  obtain ⟨⟨chunkId, db'⟩, hstore⟩ : ∃ stored, config.storeBytes w.db id _ bytes = some stored :=
    storeBytes_isSome hcoherent.wellFormed hnewest (config.number block)
  have hsnapshots := (storeBytes_spec hcoherent.wellFormed hnewest hstore).2.1
  have hget : w.db.snapshots.get? id = some s := get?_newest hnewest
  simp only [SnapshotConfig.storeBlock, hstore]
  refine h.onBlock hpoint rfl rfl ⟨hblock, ?_, before, s, by rw [hsnapshots]; exact hnewest, ?_⟩
  · unfold persistedHeight getLastSnapshotHeight
    rw [hsnapshots]
    exact hheight
  obtain ⟨s', hs', ⟨rfl, rfl⟩ | ⟨hlast, happend⟩⟩ := storeBytes_eq_some hstore
  · have hnew : w.db.chunks.nextKey ∉ s.chunkIds := fun hmem =>
      Nat.lt_irrefl _ (hcoherent.wellFormed.lt_newChunk (mem_allChunkIds hget hmem))
    rw [if_neg hnew]
    refine ⟨hcontains.of_data hcoherent.wellFormed.data_createNewChunk, ?_⟩
    exact ⟨bytes, hencode, by
      simp [chunkDataOf, chunks_createNewChunk_self]⟩
  · obtain rfl : s = s' := some.inj (hget.symm.trans hs')
    obtain ⟨first, hfirst⟩ := allChunkIds_of_newest hnewest hlast
    rw [if_pos (mem_of_getLast? hlast)]
    exact hcontains.add hblock hencode (hcoherent.wellFormed.data_appendToChunk hfirst happend)

theorem Tracks.update (hcoherent : config.Coherent w) (h : config.Tracks w k)
    (hpoint : w.point = .stored block id chunkId) :
    config.Tracks { w with
      db := w.db.updateSnapshot id (config.number block) chunkId
      point := .updated block id } k := by
  obtain ⟨hblock, -, before, s, hnewest, hdata⟩ := h.holdsAt hpoint
  refine h.onBlock hpoint rfl rfl ⟨hblock, ?_, ?_⟩
  · split at hdata
    case isTrue hmem =>
      refine hdata.of_data ?_
      rw [data_updateSnapshot hnewest, if_pos hmem, append_nil]
    case isFalse hnew =>
      obtain ⟨hcontains, bytes, hencode, hchunk⟩ := hdata
      refine hcontains.add hblock hencode ?_
      rw [data_updateSnapshot hnewest, if_neg hnew, hchunk]
  · rw [← hcoherent.numbered k block hblock]
    exact persistedHeight_of_newest (entries_updateSnapshot hnewest) rfl

/-- The block is done. -/
theorem Tracks.mapBlock (h : config.Tracks w k) (hpoint : w.point = .updated block id) :
    config.Tracks
      (finish { w with db := w.db.insertBlockSnapshotIdMapping (config.number block) id })
      (k + 1) := by
  obtain ⟨-, hstands⟩ := h.holdsAt hpoint
  have hupcoming := h.upcomingAt hpoint
  obtain ⟨chain, db, lock, phase, point, listing⟩ := w
  cases phase <;> exact ⟨hstands, hupcoming⟩

theorem Tracks.retain (hcoherent : config.Coherent w) (h : config.Tracks w k)
    (hpoint : w.point = .retaining) :
    config.Tracks { w with db := config.applyRetentionPolicy w, point := .idle } k := by
  obtain ⟨hcontains, hheight⟩ : config.Stands w k := h.holdsAt hpoint
  obtain ⟨id, before, s, hnewest, hs⟩ := hcoherent.pointOk hpoint
  have hupcoming := h.upcomingAt hpoint
  refine ⟨?_, hupcoming⟩
  rcases applyRetentionPolicy_cases (w := w) with hsame | ⟨oldest, rest, hentries, hne, hremoved⟩
  · rw [hsame]
    exact ⟨hcontains, hheight⟩
  · rw [hremoved]
    obtain ⟨gone, hgone⟩ := hcoherent.wellFormed.data_removeOldestSnapshot
    refine ⟨hcontains.removed hgone, ?_⟩
    have hrest := (removeOldestSnapshot_spec hcoherent.wellFormed hentries).1
    -- the oldest snapshot is not the newest one
    cases before with
    | nil =>
      rw [hentries] at hnewest
      rw [(cons.inj hnewest).1] at hne
      exact absurd hs.symm hne
    | cons first before =>
      rw [hentries] at hnewest
      rw [← hheight, persistedHeight_of_newest (hentries.trans hnewest) rfl]
      exact persistedHeight_of_newest (hrest.trans (cons.inj hnewest).2) rfl

/-! ## The next block -/

theorem eq_drop_of_cons {rest : List B} (h : block :: rest = chain.drop k) :
    chain[k]? = some block ∧ rest = chain.drop (k + 1) := by
  refine ⟨?_, ?_⟩
  · rw [← head?_drop, ← h]
    rfl
  · rw [← tail_drop, ← h]
    rfl

/-- Every block is encoded, and not as nothing. -/
def Encodes (config : SnapshotConfig B) : Prop :=
  ∀ block, ∃ bytes, config.encode block = some bytes ∧ bytes ≠ []

theorem Encodes.openBlock (hencode : config.Encodes) (w : SnapshotWorld B) (block : B) :
    ∃ bytes, config.openBlock w block = { w with point := .opened block bytes } := by
  obtain ⟨bytes, hbytes, hne⟩ := hencode block
  unfold SnapshotConfig.openBlock
  rw [hbytes]
  cases bytes with
  | nil => exact absurd rfl hne
  | cons b bs => exact ⟨b :: bs, rfl⟩

theorem Tracks.nextBlock (hencode : config.Encodes) (h : config.Tracks w k)
    (hpoint : w.point = .idle) : config.Tracks (config.nextBlock w) k := by
  have hupcoming : Upcoming w k := h.upcomingAt hpoint
  have hopened : ∀ phase block, w.chain[k]? = some block →
      Upcoming { w with phase } (k + 1) →
      config.Tracks (config.openBlock { w with phase } block) k := by
    intro phase block hblock hphase
    obtain ⟨bytes, hopen⟩ := hencode.openBlock { w with phase } block
    rw [hopen]
    exact ⟨⟨hblock, h.holdsAt hpoint⟩, hphase⟩
  unfold SnapshotConfig.nextBlock
  unfold Upcoming at hupcoming
  split
  case h_1 => exact h
  case h_2 hphase =>
    rw [hphase] at hupcoming
    exact h.setPhase hpoint fun _ => hupcoming
  case h_3 number rest hphase =>
    simp only [hphase, filterMap_cons] at hupcoming
    simp only
    split
    case h_1 hnone =>
      rw [hnone] at hupcoming
      exact h.setPhase hpoint hupcoming
    case h_2 block hblock =>
      rw [hblock] at hupcoming
      obtain ⟨hk, hrest⟩ := eq_drop_of_cons hupcoming
      exact hopened _ _ hk hrest
  case h_4 => exact h.setPhase hpoint trivial
  case h_5 => exact h
  case h_6 block inbox hphase =>
    rw [hphase] at hupcoming
    obtain ⟨hk, hrest⟩ := eq_drop_of_cons (hupcoming rfl)
    exact hopened _ _ hk fun _ => hrest

/-- A step of the manager goes on with a block or ends it. -/
theorem Tracks.work (hencode : config.Encodes) (hcoherent : config.Coherent w)
    (h : config.Tracks w k) : ∃ k, config.Tracks (config.work w) k := by
  unfold SnapshotConfig.work
  split
  case h_1 hpoint => exact ⟨k, h.nextBlock hencode hpoint⟩
  case h_2 hpoint => exact ⟨k, h.lockLatest hcoherent hpoint⟩
  case h_3 hpoint => exact ⟨k, h.ensureSpace hcoherent hpoint⟩
  case h_4 hpoint => exact ⟨k, h.setLock hpoint⟩
  case h_5 hpoint => exact ⟨k, h.storeBlock hcoherent hpoint⟩
  case h_6 hpoint => exact ⟨k, h.update hcoherent hpoint⟩
  case h_7 hpoint => exact ⟨k + 1, h.mapBlock hpoint⟩
  case h_8 hpoint => exact ⟨k, h.retain hcoherent hpoint⟩

/-! ## The node around the manager -/

theorem Tracks.taken_le (h : config.Tracks w k) : taken w.point k ≤ w.chain.length := by
  have hholds := h.point
  obtain ⟨chain, db, lock, phase, point, listing⟩ := w
  cases point with
  | idle | retaining => exact hholds.1.1
  | _ => exact (List.getElem?_eq_some_iff.mp hholds.1).1

theorem getElem?_append {b : B} (h : chain[k]? = some block) :
    (chain ++ [b])[k]? = some block := by
  rw [List.getElem?_append_left (List.getElem?_eq_some_iff.mp h).1]
  exact h

/-- A longer chain changes nothing for the block in process. -/
theorem PointHolds.commit (h : config.PointHolds w k) (b : B) (phase : ManagerPhase B) :
    config.PointHolds { w with chain := w.chain ++ [b], phase } k := by
  have hstands : ∀ {n}, config.Stands w n →
      config.Stands { w with chain := w.chain ++ [b], phase } n := fun h => ⟨h.1.commit b, h.2⟩
  obtain ⟨chain, db, lock, phase, point, listing⟩ := w
  cases point with
  | idle | retaining => exact hstands h
  | opened block bytes => exact ⟨getElem?_append h.1, hstands h.2⟩
  | stored block id chunkId =>
    obtain ⟨hblock, hheight, before, s, hnewest, hdata⟩ := h
    refine ⟨getElem?_append hblock, hheight, before, s, hnewest, ?_⟩
    split at hdata
    case isTrue hmem =>
      rw [if_pos hmem]
      exact hdata.commit b
    case isFalse hnew =>
      rw [if_neg hnew]
      exact ⟨hdata.1.commit b, hdata.2⟩
  | updated block id => exact ⟨getElem?_append h.1, hstands h.2⟩
  | _ block bytes id => exact ⟨getElem?_append h.1, h.2.1.commit b, h.2.2⟩

/-- The manager is not syncing history. -/
def listening (w : SnapshotWorld B) : Bool :=
  match w.phase with
  | .history _ => false
  | _ => true

theorem Tracks.commit (h : config.Tracks w k) (hlistening : listening w = true) (b : B) :
    config.Tracks (config.commit w b) k := by
  unfold SnapshotConfig.commit
  split
  case isFalse => exact h
  case isTrue =>
    refine ⟨h.point.commit b _, ?_⟩
    have hle := h.taken_le
    have hupcoming := h.upcoming
    unfold Upcoming at hupcoming ⊢
    cases hphase : w.phase with
    | down => trivial
    | history rest => simp [listening, hphase] at hlistening
    | live inbox lagged =>
      rw [hphase] at hupcoming
      simp only
      split
      case h_1 heq => split at heq <;> cases heq
      case h_2 heq => split at heq <;> cases heq
      case h_3 inbox' lagged' heq =>
        intro hon
        split at heq
        · obtain ⟨rfl, rfl⟩ := ManagerPhase.live.inj heq
          rw [hupcoming hon, drop_append_of_le_length hle]
        · obtain ⟨-, rfl⟩ := ManagerPhase.live.inj heq
          cases hon

/-- The block in process has left no trace in the tables yet, or it is recorded. -/
def Whole (config : SnapshotConfig B) (w : SnapshotWorld B) : Prop :=
  match w.point with
  | .idle | .opened _ _ | .updated _ _ | .retaining => True
  | .sized block _ _ | .chosen block _ _ | .unlocked block _ _ =>
    persistedHeight w ≠ config.number block
  | .stored block id chunkId => persistedHeight w ≠ config.number block ∧
    ∀ s ∈ w.db.snapshots.get? id, chunkId ∉ s.chunkIds

instance (config : SnapshotConfig B) (w : SnapshotWorld B) : Decidable (config.Whole w) := by
  unfold Whole
  split <;> infer_instance

theorem Tracks.restart (hcoherent : config.Coherent w) (h : config.Tracks w k)
    (hwhole : config.Whole w) : ∃ k, config.Tracks (restart w) k := by
  have hfresh : (∃ k, config.Stands w k) → ∃ k, config.Tracks (SnapshotConfig.restart w) k := by
    rintro ⟨k, hstands⟩
    exact ⟨k, hstands, trivial⟩
  have hnumber : ∀ block, w.chain[k]? = some block → config.number block = k + 1 :=
    hcoherent.numbered k
  apply hfresh
  have hholds := h.point
  obtain ⟨chain, db, lock, phase, point, listing⟩ := w
  cases point with
  | idle | retaining => exact ⟨k, hholds⟩
  | opened block bytes => exact ⟨k, hholds.2⟩
  | stored block id chunkId =>
    obtain ⟨hblock, hheight, before, s, hnewest, hdata⟩ := hholds
    have hget : db.snapshots.get? id = some s := get?_newest hnewest
    rw [if_neg (hwhole.2 s hget)] at hdata
    have hne := hwhole.1
    rw [hnumber block hblock] at hne
    exact ⟨k, hdata.1, hheight.resolve_right hne⟩
  | updated block id => exact ⟨k + 1, hholds.2⟩
  | _ block bytes id =>
    obtain ⟨hblock, hcontains, hheight⟩ := hholds
    have hne : persistedHeight _ ≠ config.number block := hwhole
    rw [hnumber block hblock] at hne
    exact ⟨k, hcontains, hheight.resolve_right hne⟩

/-- The blocks of a range that the chain has. -/
theorem filterMap_blockAt (w : SnapshotWorld B) : ∀ n k, w.chain.length ≤ k + n →
    (List.range' (k + 1) n).filterMap (blockAt w) = w.chain.drop k := by
  intro n
  induction n with
  | zero =>
    intro k hle
    rw [drop_eq_nil_of_le (by omega)]
    rfl
  | succ n ih =>
    intro k hle
    have hat : blockAt w (k + 1) = w.chain[k]? := by simp [blockAt]
    rw [range'_succ, filterMap_cons, hat, ih (k + 1) (by omega)]
    cases hblock : w.chain[k]? with
    | none =>
      have hlength : w.chain.length ≤ k := getElem?_eq_none_iff.mp hblock
      simp only
      rw [drop_eq_nil_of_le hlength, drop_eq_nil_of_le (by omega)]
    | some block =>
      obtain ⟨hlt, heq⟩ := List.getElem?_eq_some_iff.mp hblock
      rw [drop_eq_getElem_cons hlt, heq]

/-- The manager is told a height from which it finds every missing block: none is missing, or
the height is that of the chain and two or more above the last snapshot. -/
def FindsMissing (w : SnapshotWorld B) (latest : Nat) : Prop :=
  w.chain.length ≤ persistedHeight w ∨
    (w.chain.length ≤ latest ∧ persistedHeight w + 2 ≤ latest)

theorem Tracks.start (hhistory : config.enableHistoricalSync = true)
    (hcoherent : config.Coherent w) (h : config.Tracks w k) {latest : Nat}
    (hfinds : w.phase = .down → FindsMissing w latest) :
    config.Tracks (config.start w latest) k := by
  unfold SnapshotConfig.start
  split
  case h_2 => exact h
  case h_1 hphase =>
    have hpoint := hcoherent.atRest hphase
    have hheight : persistedHeight w = k := (h.holdsAt hpoint).2
    have hcases := hfinds hphase
    unfold FindsMissing at hcases
    simp only
    rw [hheight] at hcases ⊢
    split
    case isTrue hnone =>
      have hall : w.chain.drop k = [] := drop_eq_nil_of_le (by omega)
      exact h.setPhase hpoint fun _ => hall.symm
    case isFalse hsome =>
      refine h.setPhase hpoint ?_
      show (range' (k + 1) (latest + 1 - (k + 1))).filterMap (blockAt w) = w.chain.drop k
      exact filterMap_blockAt w _ k (by omega)

/-! ## Whole runs -/

/-- Steps that lose no block and leave none half done. -/
def Steady (config : SnapshotConfig B) (_ : History (SnapshotWorld B) (Event B) (Option Answer))
    (w : SnapshotWorld B) : Event B → Prop
  | .commit _ => listening w = true
  | .restart => config.Whole w
  | .start latest => w.phase = .down → FindsMissing w latest
  | _ => True

instance [DecidableEq B] (h : History (SnapshotWorld B) (Event B) (Option Answer))
    (w : SnapshotWorld B) : ∀ event, Decidable (config.Steady h w event)
  | .commit _ => inferInstanceAs (Decidable (listening w = true))
  | .restart => inferInstanceAs (Decidable (config.Whole w))
  | .start _ => inferInstanceAs (Decidable (w.phase = .down → (_ ∨ _ ∧ _)))
  | .work | .listRead | .listAnswer | .load _ _ => inferInstanceAs (Decidable True)

theorem Tracks.step (hhistory : config.enableHistoricalSync = true) (hencode : config.Encodes)
    (hcoherent : config.Coherent w) (h : config.Tracks w k)
    {history : History (SnapshotWorld B) (Event B) (Option Answer)} {event : Event B}
    (hsteady : config.Steady history w event) : ∃ k, config.Tracks (config.step w event).2 k := by
  have hlisting : ∀ listing, config.Tracks { w with listing } k := fun _ => ⟨h.point, h.upcoming⟩
  cases event with
  | commit block => exact ⟨k, h.commit hsteady block⟩
  | restart => exact h.restart hcoherent hsteady
  | start latest => exact ⟨k, h.start hhistory hcoherent hsteady⟩
  | work => exact h.work hencode hcoherent
  | listRead => exact ⟨k, hlisting _⟩
  | listAnswer =>
    simp only [SnapshotConfig.step]
    split
    · exact ⟨k, h⟩
    · split
      · exact ⟨k, h⟩
      · exact ⟨k, hlisting _⟩
  | load height index =>
    simp only [SnapshotConfig.step]
    split <;> exact ⟨k, h⟩

theorem Encodes.ne (hencode : config.Encodes) (block : B) : config.encode block ≠ some [] := by
  obtain ⟨bytes, hbytes, hne⟩ := hencode block
  rw [hbytes]
  exact fun heq => hne (some.inj heq)

/-- A block is committed while the manager is down, and it is the only one missing. -/
def oneMissed : SnapshotWorld Nat :=
  (play (numbered 1).step initial
    (processed 3 ++ [.start 2, .commit 2, .restart] ++ processed 1 ++ [.start 0])).2

/-- The node ends after a block was put into a chunk and before it is recorded. -/
def endedBetween : SnapshotWorld Nat :=
  (play (numbered 1).step initial
    (List.replicate 16 .work ++ [.start 3, .commit 3, .restart] ++
      List.replicate 5 .work ++ [.commit 2] ++ processed 1 ++ [.start 0])).2

/-- Two blocks are committed while the manager is down, a third one after it has caught up. -/
def caughtUp : History (SnapshotWorld Nat) (Event Nat) (Option Answer) × SnapshotWorld Nat :=
  play (numbered 1).step initial
    (processed 4 ++ List.replicate 15 .work ++ [.start 3, .commit 3, .commit 2, .restart] ++
      processed 1 ++ [.start 0])

/-- In every run, with blocks missed and the node ended between any two storage calls: the chunks of
the snapshots exist, none is named twice, and no snapshot is above the newest or the chain. -/
theorem chunks_divided (hencode : ∀ block, config.encode block ≠ some [])
    {history : History (SnapshotWorld B) (Event B) (Option Answer)}
    (hrun : Run config.step initial history w) :
    (∀ c ∈ w.db.allChunkIds, (w.db.chunks.get? c).isSome = true) ∧ w.db.allChunkIds.Nodup ∧
    ∀ e ∈ w.db.snapshots.entries, e.2.height ≤ w.chain.length ∧
      ∀ newest ∈ w.db.snapshots.last?, e.2.height ≤ newest.2.height := by
  have h := coherent_of_run hencode hrun
  obtain ⟨m, hheights, hlength, -⟩ := h.frontier
  refine ⟨fun c hc => Option.isSome_iff_exists.mpr (h.wellFormed.present c hc),
    h.wellFormed.ascending.imp Nat.ne_of_lt, fun e he => ⟨(hheights e he).trans hlength, ?_⟩⟩
  intro newest hnewest
  obtain ⟨before, hentries⟩ := Table.last?_eq_some_iff.mp hnewest
  rw [hentries, mem_append, mem_singleton] at he
  obtain he | rfl := he
  · exact (h.top before newest.1 newest.2 hentries e he).1
  · exact le_rfl

theorem ended_between_divided : endedBetween.db.allChunkIds.length = 1 ∧
    endedBetween.db.allChunkIds.Nodup :=
  ⟨by decide +kernel, (chunks_divided (encode_numbered_ne (by decide)) (Run.play _)).2.1⟩

end Macbeth.SnapshotConfig
