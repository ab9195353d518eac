import Macbeth.Lib.Bytes
import Macbeth.Lib.Table

/-!
# The snapshot tables (`snapshot.rs`)

A snapshot names chunks, a chunk holds encoded blocks.  New snapshots and new chunks get the key
after the last one, so the chunk ids of all snapshots, in the order of the snapshots, ascend
(`WellFormed`).  Blocks are only added to the newest snapshot, and the oldest one is removed
with its chunks; what the writes do to the data is said once for each of them.

Each write is a transaction of its own.  Counters are unbounded; database errors are left out.
-/

namespace Macbeth

open List

/-- `SnapshotChunk`. -/
structure SnapshotChunk where
  snapshotId : Nat
  chunkData : List (List UInt8)
  startingBlockNumber : Nat
  endingBlockNumber : Nat
  deriving DecidableEq, Repr

/-- `SnapshotChunk::size`. -/
def SnapshotChunk.size (chunk : SnapshotChunk) : Nat := 8 + (chunk.chunkData.map List.length).sum

/-- `Snapshot`. -/
structure Snapshot where
  id : Nat
  height : Nat
  chunkIds : List Nat
  blockIds : List Nat
  blockHash : BitVec 256
  deriving DecidableEq, Repr

namespace Snapshot

variable (s : Snapshot)

/-- `size`: of the height, the block hash and the ids. -/
def size : Nat := 8 + 32 + s.blockIds.length * 8 + s.chunkIds.length * 8

/-- `get_hash`. -/
def getHash (sha256 : List UInt8 → List UInt8) : List UInt8 :=
  sha256 (Bytes.toLE 8 s.id ++ Bytes.toLE 8 s.height ++ s.chunkIds.flatMap (Bytes.toLE 8) ++
    s.blockIds.flatMap (Bytes.toLE 8) ++ Bytes.toBE 32 s.blockHash.toNat)

/-- `add_block_id_if_not_exists`. -/
def addBlockIdIfNotExists (number : Nat) : Snapshot :=
  if number ∈ s.blockIds then s else { s with blockIds := s.blockIds ++ [number] }

/-- `add_chunk_id_if_not_exists`. -/
def addChunkIdIfNotExists (chunkId : Nat) : Snapshot :=
  if chunkId ∈ s.chunkIds then s else { s with chunkIds := s.chunkIds ++ [chunkId] }

/-- A block that was put into a chunk is recorded. -/
def record (number chunkId : Nat) : Snapshot :=
  { (s.addBlockIdIfNotExists number).addChunkIdIfNotExists chunkId with height := number }

@[simp] theorem id_record (number chunkId : Nat) : (s.record number chunkId).id = s.id := by
  unfold record addChunkIdIfNotExists addBlockIdIfNotExists
  split <;> split <;> rfl

@[simp] theorem height_record (number chunkId : Nat) : (s.record number chunkId).height = number :=
  rfl

theorem chunkIds_record (number chunkId : Nat) : (s.record number chunkId).chunkIds =
    if chunkId ∈ s.chunkIds then s.chunkIds else s.chunkIds ++ [chunkId] := by
  have hblocks : (s.addBlockIdIfNotExists number).chunkIds = s.chunkIds := by
    unfold addBlockIdIfNotExists
    split <;> rfl
  unfold record addChunkIdIfNotExists
  rw [hblocks]
  split
  · exact hblocks
  · rfl

/-! ## What the hash binds -/

/-- The bytes that `get_hash` hashes. -/
def preimage : List UInt8 := s.getHash fun bytes => bytes

/-- The integers are words. -/
structure Words : Prop where
  id : s.id < 2 ^ 64
  height : s.height < 2 ^ 64
  ids : ∀ n ∈ s.chunkIds ++ s.blockIds, n < 2 ^ 64

instance : Decidable s.Words :=
  decidable_of_iff (s.id < 2 ^ 64 ∧ s.height < 2 ^ 64 ∧ ∀ n ∈ s.chunkIds ++ s.blockIds, n < 2 ^ 64)
    ⟨fun h => ⟨h.1, h.2.1, h.2.2⟩, fun h => ⟨h.id, h.height, h.ids⟩⟩

/-- The other snapshot has the same ids, with the list of chunks ended elsewhere. -/
def DividedElsewhere (t : Snapshot) : Prop :=
  s.id = t.id ∧ s.height = t.height ∧ s.blockHash = t.blockHash ∧
    s.chunkIds ++ s.blockIds = t.chunkIds ++ t.blockIds ∧ s.chunkIds.length ≠ t.chunkIds.length

variable {s}

/-- The two lists of ids are hashed as one. -/
theorem preimage_eq_iff {t : Snapshot} (hs : s.Words) (ht : t.Words) :
    s.preimage = t.preimage ↔ s.id = t.id ∧ s.height = t.height ∧
      s.chunkIds ++ s.blockIds = t.chunkIds ++ t.blockIds ∧ s.blockHash = t.blockHash := by
  have hlow : ∀ s : Snapshot, s.preimage = Bytes.toLE 8 s.id ++ (Bytes.toLE 8 s.height ++
      ((s.chunkIds ++ s.blockIds).flatMap (Bytes.toLE 8) ++ Bytes.toBE 32 s.blockHash.toNat)) := by
    simp [preimage, getHash]
  have hhash : Bytes.toBE 32 s.blockHash.toNat = Bytes.toBE 32 t.blockHash.toNat ↔
      s.blockHash = t.blockHash := by
    rw [Bytes.toBE, Bytes.toBE, reverse_inj,
      Bytes.toLE_inj (w := 32) s.blockHash.isLt t.blockHash.isLt, BitVec.toNat_inj]
  rw [hlow, hlow, ← Bytes.toLE_inj (w := 8) hs.id ht.id, ← Bytes.toLE_inj (w := 8) hs.height
    ht.height, ← Bytes.flatMap_toLE_inj (w := 8) (by decide) hs.ids ht.ids, ← hhash]
  refine ⟨fun h => ?_, fun h => by rw [h.1, h.2.1, h.2.2.1, h.2.2.2]⟩
  obtain ⟨hid, h⟩ := append_inj h (by simp)
  obtain ⟨hheight, h⟩ := append_inj h (by simp)
  exact ⟨hid, hheight, append_inj' h (by simp)⟩

/-- Two different snapshots have the same bytes exactly if the ids are divided elsewhere. -/
theorem preimage_ne_iff {t : Snapshot} (hs : s.Words) (ht : t.Words) :
    (s ≠ t → s.preimage ≠ t.preimage) ↔ ¬ s.DividedElsewhere t := by
  rw [ne_eq, ne_eq, preimage_eq_iff hs ht]
  constructor
  · rintro h ⟨hid, hheight, hhash, hids, hlen⟩
    exact h (fun heq => hlen (by rw [heq])) ⟨hid, hheight, hids, hhash⟩
  · rintro h hne ⟨hid, hheight, hids, hhash⟩
    refine h ⟨hid, hheight, hhash, hids, fun hlen => hne ?_⟩
    obtain ⟨hchunks, hblocks⟩ := append_inj hids hlen
    cases s
    cases t
    simp_all

/-- A second chunk is told from none. -/
theorem preimage_ne_secondChunk :
    (⟨1, 3, [1], [2, 3], 7⟩ : Snapshot).preimage ≠ (⟨1, 3, [1, 2], [2, 3], 7⟩ : Snapshot).preimage :=
  (preimage_ne_iff (by decide) (by decide)).mpr (by simp [DividedElsewhere]) (by decide)

/-- The id `2` as a block and as a chunk. -/
theorem preimage_not_injective : ¬ ∀ s t : Snapshot, s.Words → t.Words → s ≠ t →
    s.preimage ≠ t.preimage := by
  intro h
  exact h ⟨1, 3, [1], [2, 3], 7⟩ ⟨1, 3, [1, 2], [3], 7⟩ (by decide) (by decide) (by decide) (by decide)

end Snapshot

/-- The tables; the last two map a block to a snapshot and a chunk to its first block. -/
structure SnapshotDb where
  snapshots : Table Snapshot
  chunks : Table SnapshotChunk
  blockSnapshots : Table Nat
  chunkBlocks : Table Nat

namespace SnapshotDb

variable (db : SnapshotDb)

/-- No tables yet. -/
def empty : SnapshotDb := ⟨∅, ∅, ∅, ∅⟩

/-- `get_snapshots`, by height. -/
def getSnapshots : List Snapshot :=
  db.snapshots.values.insertionSort fun a b => a.height ≤ b.height

/-- `get_last_snapshot_height`. -/
def getLastSnapshotHeight : Option (Nat × Nat) := db.snapshots.last?.map fun e => (e.1, e.2.height)

/-- `get_first_snapshot_height`. -/
def getFirstSnapshotHeight : Option (Nat × Nat) :=
  db.snapshots.first?.map fun e => (e.1, e.2.height)

/-- `get_snapshot_size`: the snapshot with the chunks from its first to its last. -/
def getSnapshotSize (id : Nat) : Nat :=
  match db.snapshots.get? id with
  | none => 0
  | some s =>
    s.size + if s.chunkIds = [] then 0
      else ((db.chunks.walkRange (s.chunkIds.head?.getD 0) (s.chunkIds.getLast?.getD 0)).map
        SnapshotChunk.size).sum

/-- `get_chunk_size`. -/
def getChunkSize (chunkId : Nat) : Nat := ((db.chunks.get? chunkId).map SnapshotChunk.size).getD 0

/-- `get_snapshots_count`. -/
def getSnapshotsCount : Nat := db.snapshots.entries.length

/-- `create_new_snapshot`. -/
def createNewSnapshot (number : Nat) (hash : BitVec 256) : Nat × SnapshotDb :=
  let id := db.snapshots.nextKey
  (id, { db with
    snapshots := db.snapshots.put id ⟨id, number, [], [], hash⟩
    blockSnapshots := db.blockSnapshots.put number id })

/-- `create_new_chunk`. -/
def createNewChunk (snapshotId number : Nat) (data : List UInt8) : Nat × SnapshotDb :=
  let chunkId := db.chunks.nextKey
  (chunkId, { db with
    chunks := db.chunks.put chunkId ⟨snapshotId, [data], number, number⟩
    chunkBlocks := db.chunkBlocks.put chunkId number })

/-- `append_to_chunk`; without the chunk it panics. -/
def appendToChunk (chunkId number : Nat) (data : List UInt8) : Option SnapshotDb :=
  (db.chunks.get? chunkId).map fun chunk =>
    { db with chunks := db.chunks.put chunkId { chunk with
        chunkData := chunk.chunkData ++ [data]
        endingBlockNumber := number } }

/-- `update_snapshot`. -/
def updateSnapshot (id number chunkId : Nat) : SnapshotDb :=
  match db.snapshots.get? id with
  | none => db
  | some s =>
    { db with snapshots := db.snapshots.put id (s.record number chunkId) }

/-- `insert_block_snapshot_id_mapping`. -/
def insertBlockSnapshotIdMapping (number id : Nat) : SnapshotDb :=
  { db with blockSnapshots := db.blockSnapshots.put number id }

/-- `remove_chunks` and `delete_chunks_in_blocks`, from the first to the last of the chunks. -/
def removeChunks (chunkIds : List Nat) : SnapshotDb :=
  if chunkIds = [] then db
  else
    let first := chunkIds.head?.getD 0
    let last := chunkIds.getLast?.getD 0
    { db with
      chunks := db.chunks.removeRange first last
      chunkBlocks := db.chunkBlocks.removeRange first last }

/-- `remove_oldest_snapshot`. -/
def removeOldestSnapshot : SnapshotDb :=
  match db.snapshots.first? with
  | none => db
  | some (id, s) =>
    ({ db with snapshots := db.snapshots.removeRange id id }).removeChunks s.chunkIds

/-! ## The data of all snapshots -/

/-- The chunk ids of all snapshots, in order. -/
def allChunkIds : List Nat := db.snapshots.values.flatMap Snapshot.chunkIds

/-- The blocks of a chunk. -/
def chunkDataOf (chunkId : Nat) : List (List UInt8) :=
  ((db.chunks.get? chunkId).map SnapshotChunk.chunkData).getD []

/-- The blocks of all chunks of all snapshots, in order. -/
def data : List (List UInt8) := db.allChunkIds.flatMap db.chunkDataOf

/-- Every chunk of a snapshot exists, and the chunk ids ascend. -/
structure WellFormed : Prop where
  present : ∀ c ∈ db.allChunkIds, ∃ chunk, db.chunks.get? c = some chunk
  ascending : db.allChunkIds.Pairwise (· < ·)
  ids : ∀ e ∈ db.snapshots.entries, e.2.id = e.1

theorem empty_wellFormed : empty.WellFormed where
  present := by simp [empty, allChunkIds, Table.values, EmptyCollection.emptyCollection, Table.empty]
  ascending := .nil
  ids := by simp [empty, EmptyCollection.emptyCollection, Table.empty]

/-! ## What the writes do -/

section
variable {db} {before : List (Nat × Snapshot)} {rest : List (Nat × Snapshot)} {s : Snapshot}
variable {id number c chunkId : Nat} {hash : BitVec 256} {bytes : List UInt8} {db' : SnapshotDb}

/-- The newest snapshot is the same one. -/
theorem newest_unique {before' : List (Nat × Snapshot)} {id' : Nat} {s' : Snapshot}
    (h : db.snapshots.entries = before ++ [(id, s)])
    (h' : db.snapshots.entries = before' ++ [(id', s')]) :
    before = before' ∧ id = id' ∧ s = s' := by
  simpa using h.symm.trans h'

theorem get?_newest (h : db.snapshots.entries = before ++ [(id, s)]) :
    db.snapshots.get? id = some s :=
  Table.get?_eq_some_iff.mpr (by simp [h])

theorem height_newest_le (h : db.snapshots.entries = before ++ [(id, s)])
    (hheights : ∀ e ∈ db.snapshots.entries, e.2.height ≤ number) : s.height ≤ number :=
  hheights (id, s) (h ▸ mem_append_right _ mem_cons_self)

theorem allChunkIds_eq : db.allChunkIds = db.snapshots.entries.flatMap fun e => e.2.chunkIds := by
  simp [allChunkIds, Table.values, flatMap_map]

theorem entries_createNewSnapshot : (db.createNewSnapshot number hash).2.snapshots.entries =
    db.snapshots.entries ++
      [((db.createNewSnapshot number hash).1, ⟨db.snapshots.nextKey, number, [], [], hash⟩)] :=
  Table.entries_put_nextKey _

@[simp] theorem allChunkIds_createNewSnapshot :
    (db.createNewSnapshot number hash).2.allChunkIds = db.allChunkIds := by
  rw [allChunkIds_eq, entries_createNewSnapshot, flatMap_append, ← allChunkIds_eq]
  simp

@[simp] theorem data_createNewSnapshot :
    (db.createNewSnapshot number hash).2.data = db.data := by
  unfold data
  rw [allChunkIds_createNewSnapshot]
  rfl

theorem WellFormed.createNewSnapshot (h : db.WellFormed) :
    (db.createNewSnapshot number hash).2.WellFormed where
  present := by
    rw [allChunkIds_createNewSnapshot]
    exact h.present
  ascending := by
    rw [allChunkIds_createNewSnapshot]
    exact h.ascending
  ids := by
    rw [entries_createNewSnapshot]
    exact forall_mem_append.mpr ⟨h.ids, by simp [SnapshotDb.createNewSnapshot]⟩

/-- A new chunk comes after those of all snapshots. -/
theorem WellFormed.lt_newChunk (h : db.WellFormed) (hc : c ∈ db.allChunkIds) :
    c < db.chunks.nextKey := by
  obtain ⟨chunk, hchunk⟩ := h.present c hc
  exact Table.lt_nextKey (Table.get?_eq_some_iff.mp hchunk)

theorem chunks_createNewChunk (hc : c ≠ db.chunks.nextKey) :
    (db.createNewChunk id number bytes).2.chunks.get? c = db.chunks.get? c := by
  show (db.chunks.put db.chunks.nextKey _).get? c = _
  rw [Table.get?_put, if_neg hc]

theorem chunks_createNewChunk_self :
    (db.createNewChunk id number bytes).2.chunks.get? db.chunks.nextKey =
      some ⟨id, [bytes], number, number⟩ :=
  Table.get?_put_self _ _

theorem WellFormed.data_createNewChunk (h : db.WellFormed) :
    (db.createNewChunk id number bytes).2.data = db.data := by
  refine flatMap_congr fun c hc => ?_
  unfold chunkDataOf
  rw [chunks_createNewChunk (Nat.ne_of_lt (h.lt_newChunk hc))]

theorem WellFormed.createNewChunk (h : db.WellFormed) :
    (db.createNewChunk id number bytes).2.WellFormed where
  present c hc := by
    rw [chunks_createNewChunk (Nat.ne_of_lt (h.lt_newChunk hc))]
    exact h.present c hc
  ascending := h.ascending
  ids := h.ids

theorem appendToChunk_eq_some (h : db.appendToChunk chunkId number bytes = some db') :
    ∃ chunk, db.chunks.get? chunkId = some chunk ∧
      db' = { db with chunks := db.chunks.put chunkId { chunk with
        chunkData := chunk.chunkData ++ [bytes]
        endingBlockNumber := number } } := by
  unfold appendToChunk at h
  obtain ⟨chunk, hchunk, rfl⟩ := Option.map_eq_some_iff.mp h
  exact ⟨chunk, hchunk, rfl⟩

theorem snapshots_appendToChunk (h : db.appendToChunk chunkId number bytes = some db') :
    db'.snapshots = db.snapshots ∧ db'.blockSnapshots = db.blockSnapshots := by
  obtain ⟨chunk, -, rfl⟩ := appendToChunk_eq_some h
  exact ⟨rfl, rfl⟩

theorem chunks_appendToChunk (h : db.appendToChunk chunkId number bytes = some db')
    (hc : c ≠ chunkId) : db'.chunks.get? c = db.chunks.get? c := by
  obtain ⟨chunk, -, rfl⟩ := appendToChunk_eq_some h
  rw [Table.get?_put, if_neg hc]

theorem chunkDataOf_appendToChunk (h : db.appendToChunk chunkId number bytes = some db') :
    db'.chunkDataOf chunkId = db.chunkDataOf chunkId ++ [bytes] := by
  obtain ⟨chunk, hchunk, rfl⟩ := appendToChunk_eq_some h
  simp [chunkDataOf, hchunk]

theorem WellFormed.appendToChunk (h : db.WellFormed)
    (happend : db.appendToChunk chunkId number bytes = some db') : db'.WellFormed := by
  obtain ⟨chunk, -, rfl⟩ := appendToChunk_eq_some happend
  refine ⟨fun c hc => ?_, h.ascending, h.ids⟩
  show ∃ chunk', (db.chunks.put chunkId _).get? c = some chunk'
  rw [Table.get?_put]
  split
  · exact ⟨_, rfl⟩
  · exact h.present c hc

/-- What is added to the last chunk is added at the end of the data. -/
theorem WellFormed.data_appendToChunk (h : db.WellFormed) {first : List Nat}
    (hlast : db.allChunkIds = first ++ [chunkId])
    (happend : db.appendToChunk chunkId number bytes = some db') : db'.data = db.data ++ [bytes] := by
  have hasc := h.ascending
  rw [hlast] at hasc
  have hfirst : ∀ c ∈ first, c < chunkId := fun c hc =>
    (pairwise_append.mp hasc).2.2 c hc chunkId mem_cons_self
  have hids : db'.allChunkIds = first ++ [chunkId] := by
    unfold allChunkIds
    rw [(snapshots_appendToChunk happend).1]
    exact hlast
  have hsame : first.flatMap db'.chunkDataOf = first.flatMap db.chunkDataOf := by
    refine flatMap_congr fun c hc => ?_
    unfold chunkDataOf
    rw [chunks_appendToChunk happend (Nat.ne_of_lt (hfirst c hc))]
  simp only [data, hids, hlast, flatMap_append, hsame, flatMap_singleton,
    chunkDataOf_appendToChunk happend, append_assoc]

/-- A block is recorded in the newest snapshot. -/
theorem entries_updateSnapshot (h : db.snapshots.entries = before ++ [(id, s)]) :
    (db.updateSnapshot id number chunkId).snapshots.entries =
      before ++ [(id, s.record number chunkId)] := by
  simp only [updateSnapshot, get?_newest h]
  exact Table.entries_put_last h

theorem chunks_updateSnapshot : (db.updateSnapshot id number chunkId).chunks = db.chunks ∧
    (db.updateSnapshot id number chunkId).blockSnapshots = db.blockSnapshots := by
  unfold updateSnapshot
  split <;> exact ⟨rfl, rfl⟩

theorem allChunkIds_updateSnapshot (h : db.snapshots.entries = before ++ [(id, s)]) :
    (db.updateSnapshot id number chunkId).allChunkIds =
      db.allChunkIds ++ if chunkId ∈ s.chunkIds then [] else [chunkId] := by
  rw [allChunkIds_eq, allChunkIds_eq, entries_updateSnapshot h, h]
  simp only [flatMap_append, flatMap_singleton, Snapshot.chunkIds_record]
  split <;> simp

theorem data_updateSnapshot (h : db.snapshots.entries = before ++ [(id, s)]) :
    (db.updateSnapshot id number chunkId).data =
      db.data ++ if chunkId ∈ s.chunkIds then [] else db.chunkDataOf chunkId := by
  have hchunks : (db.updateSnapshot id number chunkId).chunkDataOf = db.chunkDataOf := by
    funext c
    unfold chunkDataOf
    rw [chunks_updateSnapshot.1]
  unfold data
  rw [hchunks, allChunkIds_updateSnapshot h, flatMap_append]
  split <;> simp

/-- The chunk is one of the newest snapshot already, or comes after all others. -/
def Extends (db : SnapshotDb) (s : Snapshot) (chunkId : Nat) : Prop :=
  (∃ chunk, db.chunks.get? chunkId = some chunk) ∧
    (chunkId ∈ s.chunkIds ∨ ∀ c ∈ db.allChunkIds, c < chunkId)

theorem WellFormed.updateSnapshot (h : db.WellFormed)
    (hnewest : db.snapshots.entries = before ++ [(id, s)]) (hext : db.Extends s chunkId) :
    (db.updateSnapshot id number chunkId).WellFormed where
  present c hc := by
    rw [chunks_updateSnapshot.1]
    rw [allChunkIds_updateSnapshot hnewest] at hc
    rcases mem_append.mp hc with hc | hc
    · exact h.present c hc
    · obtain rfl : c = chunkId := by
        split at hc
        · cases hc
        · exact mem_singleton.mp hc
      exact hext.1
  ascending := by
    rw [allChunkIds_updateSnapshot hnewest]
    split
    case isTrue => simpa using h.ascending
    case isFalse hnew =>
      refine pairwise_append.mpr ⟨h.ascending, pairwise_singleton _ _, fun c hc d hd => ?_⟩
      rw [mem_singleton.mp hd]
      exact hext.2.resolve_left hnew c hc
  ids := by
    have hids := h.ids
    rw [hnewest] at hids
    rw [entries_updateSnapshot hnewest]
    refine forall_mem_append.mpr ⟨(forall_mem_append.mp hids).1, ?_⟩
    simpa using (forall_mem_append.mp hids).2

/-- No chunk after the removed ones is touched. -/
theorem removeChunks_spec (db : SnapshotDb) (chunkIds : List Nat) :
    (db.removeChunks chunkIds).snapshots = db.snapshots ∧
      (db.removeChunks chunkIds).blockSnapshots = db.blockSnapshots ∧
      ∀ c, (∀ d ∈ chunkIds, d < c) →
        (db.removeChunks chunkIds).chunks.get? c = db.chunks.get? c := by
  unfold removeChunks
  split
  case isTrue => exact ⟨rfl, rfl, fun _ _ => rfl⟩
  case isFalse hne =>
    refine ⟨rfl, rfl, fun c hc => ?_⟩
    have hlast := getLast?_eq_some_getLast hne
    have hlt := hc _ (mem_of_getLast? hlast)
    rw [Table.get?_removeRange, hlast, Option.getD_some]
    exact if_neg (by omega)

/-! ## The newest snapshot -/

/-- The snapshot under the last key, with a property. -/
def AtNewest (db : SnapshotDb) (id : Nat) (P : Snapshot → Prop) : Prop :=
  ∃ before s, db.snapshots.entries = before ++ [(id, s)] ∧ P s

/-- No snapshot is above the newest one, and its height maps to it where there is a tie. -/
def NewestTop (db : SnapshotDb) : Prop :=
  ∀ before id s, db.snapshots.entries = before ++ [(id, s)] → ∀ e ∈ before,
    e.2.height ≤ s.height ∧ (e.2.height = s.height → db.blockSnapshots.get? s.height = some id)

/-- A property of all heights that the number of the new block has too. -/
theorem heights_createNewSnapshot (P : Nat → Prop) (h : ∀ e ∈ db.snapshots.entries, P e.2.height)
    (hnumber : P number) :
    ∀ e ∈ (db.createNewSnapshot number hash).2.snapshots.entries, P e.2.height := by
  rw [entries_createNewSnapshot]
  exact forall_mem_append.mpr ⟨h, by simpa using hnumber⟩

theorem newestTop_createNewSnapshot (h : ∀ e ∈ db.snapshots.entries, e.2.height ≤ number) :
    (db.createNewSnapshot number hash).2.NewestTop := by
  intro before id s hentries
  obtain ⟨rfl, rfl, rfl⟩ := newest_unique entries_createNewSnapshot hentries
  exact fun e he => ⟨h e he, fun _ => Table.get?_put_self _ _⟩

theorem heights_updateSnapshot (P : Nat → Prop)
    (hnewest : db.snapshots.entries = before ++ [(id, s)])
    (h : ∀ e ∈ db.snapshots.entries, P e.2.height) (hnumber : P number) :
    ∀ e ∈ (db.updateSnapshot id number chunkId).snapshots.entries, P e.2.height := by
  rw [hnewest] at h
  rw [entries_updateSnapshot hnewest]
  exact forall_mem_append.mpr ⟨(forall_mem_append.mp h).1, by simpa using hnumber⟩

theorem NewestTop.updateSnapshot (htop : db.NewestTop)
    (hnewest : db.snapshots.entries = before ++ [(id, s)])
    (h : ∀ e ∈ db.snapshots.entries, e.2.height ≤ number) :
    (db.updateSnapshot id number chunkId).NewestTop := by
  intro before' id' s' hentries e he
  obtain ⟨rfl, rfl, rfl⟩ := newest_unique (entries_updateSnapshot hnewest) hentries
  have hle := h e (hnewest ▸ mem_append_left _ he)
  refine ⟨hle, fun heq => ?_⟩
  -- a snapshot at the new height is one that was as high as the newest before
  rw [Snapshot.height_record] at heq ⊢
  obtain ⟨hbelow, htie⟩ := htop before id s hnewest e he
  have hs := height_newest_le hnewest h
  have hsame : s.height = number := by omega
  rw [chunks_updateSnapshot.2, ← hsame]
  exact htie (by omega)

theorem NewestTop.insertMapping (htop : db.NewestTop)
    (hnewest : db.AtNewest id fun s => s.height = number) :
    (db.insertBlockSnapshotIdMapping number id).NewestTop := by
  intro before id' s' hentries e he
  obtain ⟨before₀, s, hentries₀, hs⟩ := hnewest
  obtain ⟨rfl, rfl, rfl⟩ := newest_unique hentries₀ hentries
  refine ⟨(htop _ _ _ hentries e he).1, fun _ => ?_⟩
  show (db.blockSnapshots.put number id).get? s.height = some id
  rw [hs]
  exact Table.get?_put_self _ _

/-- The oldest snapshot goes, and no chunk of another one. -/
theorem removeOldestSnapshot_spec (h : db.WellFormed)
    (holdest : db.snapshots.entries = (id, s) :: rest) :
    db.removeOldestSnapshot.snapshots.entries = rest ∧
      db.removeOldestSnapshot.blockSnapshots = db.blockSnapshots ∧
      ∀ c ∈ rest.flatMap (fun e => e.2.chunkIds),
        db.removeOldestSnapshot.chunks.get? c = db.chunks.get? c := by
  have hfirst : db.snapshots.first? = some (id, s) := by simp [Table.first?, holdest]
  have hentries := Table.entries_removeRange_first holdest
  have hasc := h.ascending
  rw [allChunkIds_eq, holdest, flatMap_cons] at hasc
  have habove := (pairwise_append.mp hasc).2.2
  simp only [removeOldestSnapshot, hfirst]
  obtain ⟨hsnapshots, hblocks, hchunks⟩ := removeChunks_spec
    { db with snapshots := db.snapshots.removeRange id id } s.chunkIds
  rw [hsnapshots, hblocks]
  exact ⟨hentries, rfl, fun c hc => hchunks c fun d hd => habove d hd c hc⟩

theorem removeOldestSnapshot_of_nil (h : db.snapshots.entries = []) :
    db.removeOldestSnapshot = db := by
  simp [removeOldestSnapshot, Table.first?, h]

theorem WellFormed.removeOldestSnapshot (h : db.WellFormed) :
    db.removeOldestSnapshot.WellFormed := by
  cases hentries : db.snapshots.entries with
  | nil => rwa [removeOldestSnapshot_of_nil hentries]
  | cons oldest rest =>
    obtain ⟨hrest, -, hchunks⟩ := removeOldestSnapshot_spec h hentries
    have hsub : ∀ c ∈ rest.flatMap (fun e => e.2.chunkIds), c ∈ db.allChunkIds := by
      intro c hc
      rw [allChunkIds_eq, hentries, flatMap_cons]
      exact mem_append_right _ hc
    refine ⟨fun c hc => ?_, ?_, fun e he => ?_⟩
    · rw [allChunkIds_eq, hrest] at hc
      rw [hchunks c hc]
      exact h.present c (hsub c hc)
    · have hasc := h.ascending
      rw [allChunkIds_eq, hentries, flatMap_cons] at hasc
      rw [allChunkIds_eq, hrest]
      exact (pairwise_append.mp hasc).2.1
    · rw [hrest] at he
      exact h.ids e (hentries ▸ mem_cons_of_mem _ he)

/-- If another snapshot is the oldest, the newest stays. -/
theorem NewestTop.removeOldestSnapshot (htop : db.NewestTop) (h : db.WellFormed)
    (holdest : db.snapshots.entries = (c, s) :: rest) : db.removeOldestSnapshot.NewestTop := by
  obtain ⟨hrest, hblocks, -⟩ := removeOldestSnapshot_spec h holdest
  intro before id s' hentries e he
  rw [hrest] at hentries
  have hold : db.snapshots.entries = ((c, s) :: before) ++ [(id, s')] := by
    rw [holdest, hentries]
    rfl
  rw [hblocks]
  exact htop _ _ _ hold e (mem_cons_of_mem _ he)

/-- The data of the oldest snapshot go with it. -/
theorem WellFormed.data_removeOldestSnapshot (h : db.WellFormed) :
    ∃ gone, db.data = gone ++ db.removeOldestSnapshot.data := by
  cases hentries : db.snapshots.entries with
  | nil => exact ⟨[], by rw [removeOldestSnapshot_of_nil hentries]; rfl⟩
  | cons oldest rest =>
    obtain ⟨hrest, -, hchunks⟩ := removeOldestSnapshot_spec h hentries
    refine ⟨oldest.2.chunkIds.flatMap db.chunkDataOf, ?_⟩
    have hsame : (rest.flatMap fun e => e.2.chunkIds).flatMap db.removeOldestSnapshot.chunkDataOf =
        (rest.flatMap fun e => e.2.chunkIds).flatMap db.chunkDataOf := by
      refine flatMap_congr fun c hc => ?_
      unfold chunkDataOf
      rw [hchunks c hc]
    unfold data
    rw [allChunkIds_eq, allChunkIds_eq, hentries, hrest, hsame, flatMap_cons,
      flatMap_append]

end

end SnapshotDb

end Macbeth
