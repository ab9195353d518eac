import Macbeth.Lib.Run
import Macbeth.Snapshot.Store

/-!
# The snapshot manager (`snapshot_manager.rs`, `abci.rs`)

The manager puts every committed block into the snapshot tables.  When it is started it first
fetches the blocks above the last snapshot height from the chain, up to the height it was told,
then it waits for notifications.  A block takes several transactions; a snapshot that is in
progress is marked by a lock in memory.  The calls of the consensus engine that list snapshots
and load chunks run beside it: they read the lock, and wait while the manager holds it.

The machine takes one step of the manager at a time, so that a restart, a commit or a call can
come between any two transactions.  What the tables satisfy in every state, whatever happens,
is `Coherent`.
-/

namespace Macbeth

open List Option SnapshotDb

structure SnapshotSizeLimits where
  snapshotMaxSize : Nat
  snapshotChunkSize : Nat

/-- `SNAPSHOT_SIZE_LIMITS_TEST`. -/
def snapshotSizeLimitsTest : SnapshotSizeLimits := ⟨1024 * 5, 1024⟩

/-- `SNAPSHOT_SIZE_LIMITS_PROD`. -/
def snapshotSizeLimitsProd : SnapshotSizeLimits := ⟨1024 * 1024 * 15, 1024 * 1024 * 3⟩

/-- The settings of the manager, and the encoding of blocks. -/
structure SnapshotConfig (B : Type) where
  number : B → Nat
  /-- `header.hash_slow`. -/
  hash : B → BitVec 256
  encode : B → Option (List UInt8)
  decode : List UInt8 → Option B
  /-- The encoding of a list of blocks. -/
  encodeAll : List B → Option (List UInt8)
  sha256 : List UInt8 → List UInt8
  snapshotsToKeep : Nat
  snapshotMessageFormat : Nat
  enableHistoricalSync : Bool
  /-- How many notifications wait before the oldest is lost. -/
  capacity : Nat

/-- `SnapshotManagerStateLock`. -/
structure StateLock where
  snapshotId : Nat
  blockId : Nat
  isSyncingHistory : Bool
  deriving DecidableEq, Repr

/-- `SnapshotManagerStateLock::default`. -/
def StateLock.default : StateLock := ⟨0, 0, false⟩

/-- How far `process_block` has come with a block. -/
inductive ProcessPoint (B : Type) where
  | idle
  /-- The block is encoded, the lock is not taken yet. -/
  | opened (block : B) (bytes : List UInt8)
  /-- The lock is held; there is a snapshot. -/
  | sized (block : B) (bytes : List UInt8) (id : Nat)
  /-- The lock is held; the snapshot has space. -/
  | chosen (block : B) (bytes : List UInt8) (id : Nat)
  /-- The lock is set and given back. -/
  | unlocked (block : B) (bytes : List UInt8) (id : Nat)
  /-- The block is in a chunk. -/
  | stored (block : B) (id chunkId : Nat)
  /-- The block is recorded in the snapshot. -/
  | updated (block : B) (id : Nat)
  /-- After a live block. -/
  | retaining
  deriving DecidableEq

/-- Where `run` is. -/
inductive ManagerPhase (B : Type) where
  | down
  /-- These blocks are still to be fetched. -/
  | history (rest : List Nat)
  /-- These notifications are waiting; older ones may have been lost. -/
  | live (inbox : List B) (lagged : Bool)
  deriving DecidableEq

structure SnapshotWorld (B : Type) where
  /-- The committed blocks, from the first on. -/
  chain : List B
  db : SnapshotDb
  lock : StateLock
  phase : ManagerPhase B
  point : ProcessPoint B
  /-- What `list_snapshots` has read, before it has looked at the lock. -/
  listing : Option (List Snapshot)

namespace SnapshotConfig

variable {B : Type} (config : SnapshotConfig B) (w : SnapshotWorld B)

/-- The limits of the message format: 1 in production, 2 in tests. -/
def sizeLimits : SnapshotSizeLimits :=
  if config.snapshotMessageFormat = 2 then snapshotSizeLimitsTest else snapshotSizeLimitsProd

/-! ## Blocks -/

/-- The lock is taken; a first snapshot is created. -/
def lockLatest (block : B) (bytes : List UInt8) : SnapshotWorld B :=
  match w.db.getLastSnapshotHeight with
  | some (id, height) =>
    -- `InvalidBlockHeightForSnapshot`
    if w.lock.isSyncingHistory = false ∧ config.number block < height then { w with point := .idle }
    else { w with point := .sized block bytes id }
  | none =>
    let (id, db) := w.db.createNewSnapshot (config.number block) (config.hash block)
    { w with db, point := .sized block bytes id }

/-- A new snapshot is created if the block does not fit. -/
def ensureSpace (block : B) (bytes : List UInt8) (id : Nat) : SnapshotWorld B :=
  if w.db.getSnapshotSize id + bytes.length > config.sizeLimits.snapshotMaxSize then
    let (id, db) := w.db.createNewSnapshot (config.number block) (config.hash block)
    { w with db, point := .chosen block bytes id }
  else { w with point := .chosen block bytes id }

/-- The lock is set and given back. -/
def setLock (block : B) (bytes : List UInt8) (id : Nat) : SnapshotWorld B :=
  { w with
    lock := { w.lock with snapshotId := id, blockId := config.number block }
    point := .unlocked block bytes id }

/-- The chunk the block goes to, with the tables after; `none` is a panic. -/
def storeBytes (db : SnapshotDb) (id number : Nat) (bytes : List UInt8) :
    Option (Nat × SnapshotDb) := do
  let s ← db.snapshots.get? id
  match s.chunkIds.getLast? with
  | some chunkId =>
    if db.getChunkSize chunkId + bytes.length > config.sizeLimits.snapshotChunkSize then
      return db.createNewChunk id number bytes
    else
      return (chunkId, ← db.appendToChunk chunkId number bytes)
  | none => return db.createNewChunk id number bytes

/-- The block is put into a chunk. -/
def storeBlock (block : B) (bytes : List UInt8) (id : Nat) : SnapshotWorld B :=
  match config.storeBytes w.db id (config.number block) bytes with
  | none => { w with phase := .down, point := .idle }
  | some (chunkId, db) => { w with db, point := .stored block id chunkId }

/-- After a block; a live one is followed by the retention policy. -/
def finish : SnapshotWorld B :=
  { w with point := match w.phase with
    | .live _ _ => .retaining
    | _ => .idle }

/-- `apply_retention_policy`. -/
def applyRetentionPolicy : SnapshotDb :=
  if w.lock.isSyncingHistory = false ∧ w.db.getSnapshotsCount > config.snapshotsToKeep then
    match w.db.getFirstSnapshotHeight with
    | some (_, oldestHeight) =>
      if w.lock.blockId ≠ oldestHeight then w.db.removeOldestSnapshot else w.db
    | none => w.db
  else w.db

/-- The first step of `process_block`. -/
def openBlock (block : B) : SnapshotWorld B :=
  match config.encode block with
  | none => w
  | some [] => finish w
  | some bytes => { w with point := .opened block bytes }

/-- `block_with_senders_by_id`; the chain starts with the block after genesis. -/
def blockAt (number : Nat) : Option B := if number = 0 then none else w.chain[number - 1]?

/-- The manager takes up the next block. -/
def nextBlock : SnapshotWorld B :=
  match w.phase with
  | .down => w
  | .history [] =>
    { w with lock := { w.lock with isSyncingHistory := false }, phase := .live [] false }
  | .history (number :: rest) =>
    let w' := { w with phase := .history rest }
    match blockAt w number with
    | none => w'
    | some block => config.openBlock w' block
  -- the channel reports the loss, and the manager ends
  | .live _ true => { w with phase := .down }
  | .live [] false => w
  | .live (block :: inbox) false => config.openBlock { w with phase := .live inbox false } block

/-- One step of the manager. -/
def work : SnapshotWorld B :=
  match w.point with
  | .idle => config.nextBlock w
  | .opened block bytes => config.lockLatest w block bytes
  | .sized block bytes id => config.ensureSpace w block bytes id
  | .chosen block bytes id => config.setLock w block bytes id
  | .unlocked block bytes id => config.storeBlock w block bytes id
  | .stored block id chunkId =>
    { w with
      db := w.db.updateSnapshot id (config.number block) chunkId
      point := .updated block id }
  | .updated block id =>
    finish { w with db := w.db.insertBlockSnapshotIdMapping (config.number block) id }
  | .retaining => { w with db := config.applyRetentionPolicy w, point := .idle }

/-! ## The node around the manager -/

/-- The next block is committed; a live manager is notified. -/
def commit (block : B) : SnapshotWorld B :=
  if config.number block = w.chain.length + 1 then
    { w with
      chain := w.chain ++ [block]
      phase := match w.phase with
        | .live inbox lagged =>
          if inbox.length < config.capacity then .live (inbox ++ [block]) lagged
          else .live (inbox.tail ++ [block]) true
        | phase => phase }
  else w

/-- The process ends and is started again; only the tables and the chain remain. -/
def restart : SnapshotWorld B :=
  { w with lock := .default, phase := .down, point := .idle, listing := none }

/-- The height of the last snapshot, 0 if there is none. -/
def persistedHeight : Nat := (w.db.getLastSnapshotHeight.map Prod.snd).getD 0

/-- `run` up to its loops, with the height the consensus engine reports. -/
def start (latest : Nat) : SnapshotWorld B :=
  match w.phase with
  | .down =>
    let startingBlock := persistedHeight w + 1
    let missingBlocks := latest - startingBlock
    if missingBlocks = 0 then { w with phase := .live [] false }
    else if config.enableHistoricalSync then
      { w with
        lock := { w.lock with isSyncingHistory := true }
        phase := .history (List.range' startingBlock (latest + 1 - startingBlock)) }
    else
      { w with
        lock := { w.lock with isSyncingHistory := false }
        phase := .live [] false }
  | _ => w

/-- The manager holds the lock. -/
def lockHeld : Bool :=
  match w.point with
  | .sized _ _ _ | .chosen _ _ _ => true
  | _ => false

/-- A snapshot in the answer of `list_snapshots`. -/
structure Advertised where
  height : Nat
  format : Nat
  chunks : Nat
  hash : List UInt8
  deriving DecidableEq, Repr

def advertise (s : Snapshot) : Advertised :=
  ⟨s.height, config.snapshotMessageFormat, s.chunkIds.length, s.getHash config.sha256⟩

/-- The snapshots that `list_snapshots` answers with: not the one at the height of the lock. -/
def listed (snapshots : List Snapshot) : List Snapshot :=
  if w.lock.isSyncingHistory then [] else snapshots.filter fun s => s.height ≠ w.lock.blockId

/-- `load_snapshot_chunk`, with the lock it has read; `none` is the empty answer. -/
def loadSnapshotChunk (lock : StateLock) (db : SnapshotDb) (height index : Nat) :
    Option (List UInt8) :=
  if lock.isSyncingHistory then none
  else if lock.blockId = height then none
  else do
    let id ← db.blockSnapshots.get? height
    let s ← db.snapshots.get? id
    let chunkId ← s.chunkIds[index]?
    let chunk ← db.chunks.get? chunkId
    config.encodeAll (chunk.chunkData.filterMap config.decode)

inductive Event (B : Type) where
  | commit (block : B)
  | restart
  | start (latest : Nat)
  | work
  /-- `list_snapshots` reads the snapshots. -/
  | listRead
  /-- `list_snapshots` takes the lock and answers. -/
  | listAnswer
  | load (height index : Nat)

inductive Answer where
  | listed (snapshots : List Advertised)
  | chunk (content : Option (List UInt8))
  deriving DecidableEq

/-- One step of the node. -/
def step : Event B → Option Answer × SnapshotWorld B
  | .commit block => (none, config.commit w block)
  | .restart => (none, restart w)
  | .start latest => (none, config.start w latest)
  | .work => (none, config.work w)
  | .listRead => (none, { w with listing := some w.db.getSnapshots })
  | .listAnswer =>
    match w.listing with
    | none => (none, w)
    | some snapshots =>
      if lockHeld w then (none, w)
      else (some (.listed ((listed w snapshots).map config.advertise)), { w with listing := none })
  | .load height index =>
    if lockHeld w then (none, w)
    else (some (.chunk (config.loadSnapshotChunk w.lock w.db height index)), w)

/-- A node with an empty chain and without snapshots. -/
def initial : SnapshotWorld B := ⟨[], .empty, .default, .down, .idle, none⟩

/-! ## What always holds -/

/-- The block in process. -/
def block? : ProcessPoint B → Option B
  | .idle | .retaining => none
  | .opened block _ | .sized block _ _ | .chosen block _ _ | .unlocked block _ _
  | .stored block _ _ | .updated block _ => some block

/-- The numbers of the blocks the manager will take up. -/
def pending : List Nat :=
  match w.phase with
  | .down => []
  | .history rest => rest
  | .live inbox _ => inbox.map config.number

/-- What a block in process knows of the tables. -/
def PointOk : Prop :=
  match w.point with
  | .idle => True
  | .opened block bytes => config.encode block = some bytes
  | .sized block bytes id | .chosen block bytes id =>
    config.encode block = some bytes ∧ w.db.AtNewest id fun _ => True
  | .unlocked block bytes id =>
    config.encode block = some bytes ∧ w.lock.blockId = config.number block ∧
      w.db.AtNewest id fun _ => True
  | .stored block id chunkId =>
    w.lock.blockId = config.number block ∧ w.db.AtNewest id fun s => w.db.Extends s chunkId
  | .updated block id =>
    w.lock.blockId = config.number block ∧ w.db.AtNewest id fun s => s.height = config.number block
  | .retaining => ∃ id, w.db.AtNewest id fun s => s.height = w.lock.blockId

/-- A number no snapshot is above and every block to come is. -/
def Frontier (m : Nat) : Prop :=
  (∀ e ∈ w.db.snapshots.entries, e.2.height ≤ m) ∧ m ≤ w.chain.length ∧
    (∀ n ∈ config.pending w, m < n) ∧ ∀ block ∈ block? w.point, config.number block = m

/-- What holds in every state, whatever happens between the transactions. -/
structure Coherent : Prop where
  wellFormed : w.db.WellFormed
  top : w.db.NewestTop
  numbered : ∀ i block, w.chain[i]? = some block → config.number block = i + 1
  ascending : (config.pending w).Pairwise (· < ·)
  inbox : ∀ inbox lagged, w.phase = .live inbox lagged →
    ∀ block ∈ inbox, config.number block ≤ w.chain.length
  atRest : w.phase = .down → w.point = .idle
  frontier : ∃ m, config.Frontier w m
  point : config.PointOk w

section
variable {config w} {block : B} {bytes : List UInt8} {id chunkId : Nat}

theorem coherent_initial : config.Coherent initial where
  wellFormed := empty_wellFormed
  top := by
    intro before id s h
    simp [initial, SnapshotDb.empty, EmptyCollection.emptyCollection, Table.empty] at h
  numbered := by simp [initial]
  ascending := .nil
  inbox := by
    intro inbox lagged h
    cases h
  atRest _ := rfl
  frontier := ⟨0, by simp [initial, SnapshotDb.empty, EmptyCollection.emptyCollection, Table.empty],
    le_rfl, fun _ h => absurd h not_mem_nil, by simp [initial, block?]⟩
  point := trivial

theorem Coherent.pointOk (h : config.Coherent w) {point : ProcessPoint B}
    (hpoint : w.point = point) : config.PointOk { w with point } := hpoint ▸ h.point

/-- A step on the block in process, from what it does to the tables. -/
theorem Coherent.onBlock (h : config.Coherent w) {old : ProcessPoint B} (hold : w.point = old)
    (hblock : block? old = some block) {db : SnapshotDb} {lock : StateLock} {point : ProcessPoint B} (hwf : db.WellFormed)
    (htop : db.NewestTop) (hheights : ∀ e ∈ db.snapshots.entries, e.2.height ≤ config.number block)
    (hpoint : config.PointOk { w with db, lock, point })
    (hsame : ∀ b ∈ block? point, b = block) :
    config.Coherent { w with db, lock, point } where
  wellFormed := hwf
  top := htop
  numbered := h.numbered
  ascending := h.ascending
  inbox := h.inbox
  atRest hdown := by
    obtain rfl := hold.symm.trans (h.atRest hdown)
    cases hblock
  frontier := by
    obtain ⟨m, -, hchain, hpending, hnumber⟩ := h.frontier
    obtain rfl := hnumber block (hold ▸ hblock)
    exact ⟨config.number block, hheights, hchain, hpending, fun b hb => by rw [hsame b hb]⟩
  point := hpoint

/-- No snapshot is above the block in process. -/
theorem Coherent.heights (h : config.Coherent w) {point : ProcessPoint B}
    (hpoint : w.point = point) (hblock : block? point = some block) :
    ∀ e ∈ w.db.snapshots.entries, e.2.height ≤ config.number block := by
  obtain ⟨m, hheights, -, -, hnumber⟩ := h.frontier
  rw [hnumber block (hpoint ▸ hblock)]
  exact hheights

theorem Coherent.lockLatest (h : config.Coherent w) (hpoint : w.point = .opened block bytes) :
    config.Coherent (config.lockLatest w block bytes) := by
  have hencode : config.encode block = some bytes := h.pointOk hpoint
  have hheights := h.heights hpoint rfl
  unfold SnapshotConfig.lockLatest
  cases hlast : w.db.getLastSnapshotHeight with
  | none =>
    exact h.onBlock hpoint rfl h.wellFormed.createNewSnapshot
      (newestTop_createNewSnapshot hheights)
      (heights_createNewSnapshot (· ≤ config.number block) hheights le_rfl)
      ⟨hencode, _, _, entries_createNewSnapshot, trivial⟩ (by simp [block?])
  | some last =>
    obtain ⟨id, height⟩ := last
    simp only
    split
    · exact h.onBlock hpoint rfl h.wellFormed h.top hheights trivial (by simp [block?])
    · obtain ⟨e, he, heq⟩ := map_eq_some_iff.mp hlast
      obtain ⟨before, hentries⟩ := Table.last?_eq_some_iff.mp he
      have hid : e.1 = id := congrArg Prod.fst heq
      exact h.onBlock hpoint rfl h.wellFormed h.top hheights
        ⟨hencode, before, e.2, by rw [hentries, ← hid], trivial⟩ (by simp [block?])

theorem Coherent.ensureSpace (h : config.Coherent w) (hpoint : w.point = .sized block bytes id) :
    config.Coherent (config.ensureSpace w block bytes id) := by
  obtain ⟨hencode, hnewest⟩ := h.pointOk hpoint
  have hheights := h.heights hpoint rfl
  unfold SnapshotConfig.ensureSpace
  split
  · exact h.onBlock hpoint rfl h.wellFormed.createNewSnapshot
      (newestTop_createNewSnapshot hheights)
      (heights_createNewSnapshot (· ≤ config.number block) hheights le_rfl)
      ⟨hencode, _, _, entries_createNewSnapshot, trivial⟩ (by simp [block?])
  · exact h.onBlock hpoint rfl h.wellFormed h.top hheights ⟨hencode, hnewest⟩ (by simp [block?])

theorem Coherent.setLock (h : config.Coherent w) (hpoint : w.point = .chosen block bytes id) :
    config.Coherent (config.setLock w block bytes id) := by
  obtain ⟨hencode, hnewest⟩ := h.pointOk hpoint
  exact h.onBlock hpoint rfl h.wellFormed h.top (h.heights hpoint rfl) ⟨hencode, rfl, hnewest⟩
    (by simp [block?])

/-- The bytes go to a new chunk, or to the last chunk of the snapshot. -/
theorem storeBytes_eq_some {db db' : SnapshotDb} {number : Nat}
    (h : config.storeBytes db id number bytes = some (chunkId, db')) :
    ∃ s, db.snapshots.get? id = some s ∧
      (chunkId = db.chunks.nextKey ∧ db' = (db.createNewChunk id number bytes).2 ∨
        s.chunkIds.getLast? = some chunkId ∧ db.appendToChunk chunkId number bytes = some db') := by
  obtain ⟨s, hs, h⟩ := bind_eq_some_iff.mp h
  refine ⟨s, hs, ?_⟩
  cases hlast : s.chunkIds.getLast? with
  | none =>
    rw [hlast] at h
    obtain ⟨rfl, rfl⟩ := Prod.mk.inj (some.inj h)
    exact .inl ⟨rfl, rfl⟩
  | some last =>
    rw [hlast] at h
    simp only at h
    split at h
    · obtain ⟨rfl, rfl⟩ := Prod.mk.inj (some.inj h)
      exact .inl ⟨rfl, rfl⟩
    · obtain ⟨db₁, happend, h⟩ := bind_eq_some_iff.mp h
      obtain ⟨rfl, rfl⟩ := Prod.mk.inj (some.inj h)
      exact .inr ⟨rfl, happend⟩

/-- Storing a block leaves the snapshots, and the chunk extends the newest one. -/
theorem storeBytes_spec {db db' : SnapshotDb} {number : Nat} (hwf : db.WellFormed)
    {before : List (Nat × Snapshot)} {s : Snapshot}
    (hnewest : db.snapshots.entries = before ++ [(id, s)])
    (h : config.storeBytes db id number bytes = some (chunkId, db')) :
    db'.WellFormed ∧ db'.snapshots = db.snapshots ∧ db'.blockSnapshots = db.blockSnapshots ∧
      db'.Extends s chunkId := by
  obtain ⟨s', hs', hcases⟩ := storeBytes_eq_some h
  obtain rfl : s = s' := some.inj ((get?_newest hnewest).symm.trans hs')
  rcases hcases with ⟨rfl, rfl⟩ | ⟨hlast, happend⟩
  · exact ⟨hwf.createNewChunk, rfl, rfl, ⟨_, chunks_createNewChunk_self⟩,
      .inr fun c hc => hwf.lt_newChunk hc⟩
  · obtain ⟨chunk, -, hdb'⟩ := appendToChunk_eq_some happend
    refine ⟨hwf.appendToChunk happend, (snapshots_appendToChunk happend).1,
      (snapshots_appendToChunk happend).2, ?_, .inl (mem_of_getLast? hlast)⟩
    rw [hdb']
    exact ⟨_, Table.get?_put_self _ _⟩

theorem Coherent.storeBlock (h : config.Coherent w) (hpoint : w.point = .unlocked block bytes id) :
    config.Coherent (config.storeBlock w block bytes id) := by
  obtain ⟨-, hlock, before, s, hnewest, -⟩ := h.pointOk hpoint
  unfold SnapshotConfig.storeBlock
  cases hstore : config.storeBytes w.db id (config.number block) bytes with
  | none =>
    obtain ⟨m, hheights, hchain, -, -⟩ := h.frontier
    exact ⟨h.wellFormed, h.top, h.numbered, .nil, by simp, fun _ => rfl,
      ⟨m, hheights, hchain, by simp [pending], by simp [block?]⟩, trivial⟩
  | some stored =>
    obtain ⟨chunkId, db'⟩ := stored
    obtain ⟨hwf, hsnapshots, hblocks, hext⟩ := storeBytes_spec h.wellFormed hnewest hstore
    have htop : db'.NewestTop := by
      intro before id s hentries
      rw [hsnapshots] at hentries
      rw [hblocks]
      exact h.top before id s hentries
    refine h.onBlock hpoint rfl hwf htop ?_ ⟨hlock, before, s, ?_, hext⟩ (by simp [block?])
    · rw [hsnapshots]
      exact h.heights hpoint rfl
    · rw [hsnapshots]
      exact hnewest

theorem Coherent.update (h : config.Coherent w) (hpoint : w.point = .stored block id chunkId) :
    config.Coherent { w with
      db := w.db.updateSnapshot id (config.number block) chunkId
      point := .updated block id } := by
  obtain ⟨hlock, before, s, hnewest, hext⟩ := h.pointOk hpoint
  have hheights := h.heights hpoint rfl
  exact h.onBlock hpoint rfl (h.wellFormed.updateSnapshot hnewest hext)
    (h.top.updateSnapshot hnewest hheights)
      (heights_updateSnapshot (· ≤ config.number block) hnewest hheights le_rfl)
    ⟨hlock, before, _, entries_updateSnapshot hnewest, rfl⟩ (by simp [block?])

theorem Coherent.mapBlock (h : config.Coherent w) (hpoint : w.point = .updated block id) :
    config.Coherent
      (finish { w with db := w.db.insertBlockSnapshotIdMapping (config.number block) id }) := by
  obtain ⟨hlock, hnewest⟩ := h.pointOk hpoint
  have hwf : (w.db.insertBlockSnapshotIdMapping (config.number block) id).WellFormed :=
    ⟨h.wellFormed.present, h.wellFormed.ascending, h.wellFormed.ids⟩
  have htop := h.top.insertMapping hnewest
  cases hphase : w.phase with
  | down => cases hpoint.symm.trans (h.atRest hphase)
  | history rest =>
    have hidle : config.Coherent { w with
        db := w.db.insertBlockSnapshotIdMapping (config.number block) id, point := .idle } :=
      h.onBlock hpoint rfl hwf htop (h.heights hpoint rfl) trivial (by simp [block?])
    simpa only [finish, hphase] using hidle
  | live inbox lagged =>
    have hretaining : config.Coherent { w with
        db := w.db.insertBlockSnapshotIdMapping (config.number block) id, point := .retaining } :=
      h.onBlock hpoint rfl hwf htop (h.heights hpoint rfl) ⟨id, by rw [hlock]; exact hnewest⟩
        (by simp [block?])
    simpa only [finish, hphase] using hretaining

/-- The retention policy leaves the tables or removes the oldest snapshot, not at the height of
the lock. -/
theorem applyRetentionPolicy_cases : config.applyRetentionPolicy w = w.db ∨
    ∃ oldest rest, w.db.snapshots.entries = oldest :: rest ∧ w.lock.blockId ≠ oldest.2.height ∧
      config.applyRetentionPolicy w = w.db.removeOldestSnapshot := by
  unfold applyRetentionPolicy
  split
  case isFalse => exact .inl rfl
  case isTrue =>
    cases hfirst : w.db.getFirstSnapshotHeight with
    | none => exact .inl rfl
    | some first =>
      simp only
      split
      case isFalse => exact .inl rfl
      case isTrue hne =>
        obtain ⟨oldest, holdest, heq⟩ := map_eq_some_iff.mp hfirst
        obtain ⟨rest, hentries⟩ := head?_eq_some_iff.mp holdest
        refine .inr ⟨oldest, rest, hentries, ?_, rfl⟩
        rwa [← congrArg Prod.snd heq] at hne

theorem Coherent.retain (h : config.Coherent w) :
    config.Coherent { w with db := config.applyRetentionPolicy w, point := .idle } := by
  obtain ⟨m, hheights, hchain, hpending, -⟩ := h.frontier
  rcases applyRetentionPolicy_cases (w := w) with hsame | ⟨oldest, rest, hentries, -, hremoved⟩
  · rw [hsame]
    exact ⟨h.wellFormed, h.top, h.numbered, h.ascending, h.inbox, fun _ => rfl,
      ⟨m, hheights, hchain, hpending, by simp [block?]⟩, trivial⟩
  · rw [hremoved]
    have hrest := (removeOldestSnapshot_spec h.wellFormed hentries).1
    refine ⟨h.wellFormed.removeOldestSnapshot, h.top.removeOldestSnapshot h.wellFormed hentries,
      h.numbered, h.ascending, h.inbox, fun _ => rfl,
      ⟨m, fun d hd => ?_, hchain, hpending, by simp [block?]⟩, trivial⟩
    rw [hrest] at hd
    exact hheights d (hentries ▸ mem_cons_of_mem _ hd)

/-- The manager goes on to another phase with fewer blocks to come. -/
theorem Coherent.setPhase (h : config.Coherent w) (hidle : w.point = .idle) {lock : StateLock}
    {phase : ManagerPhase B}
    (hpending : (config.pending { w with lock, phase }).Sublist (config.pending w))
    (hinbox : ∀ inbox lagged, phase = .live inbox lagged →
      ∀ block ∈ inbox, config.number block ≤ w.chain.length) :
    config.Coherent { w with lock, phase } := by
  obtain ⟨m, hheights, hchain, habove, hnumber⟩ := h.frontier
  refine ⟨h.wellFormed, h.top, h.numbered, h.ascending.sublist hpending, hinbox, fun _ => hidle,
    ⟨m, hheights, hchain, fun n hn => habove n (hpending.subset hn), hnumber⟩, ?_⟩
  simp [PointOk, hidle]

/-- A block above all snapshots is taken up. -/
theorem Coherent.openBlock (hencode : ∀ block, config.encode block ≠ some [])
    (h : config.Coherent w) (hup : w.phase ≠ .down)
    (hheights : ∀ e ∈ w.db.snapshots.entries, e.2.height ≤ config.number block)
    (hchain : config.number block ≤ w.chain.length)
    (hpending : ∀ n ∈ config.pending w, config.number block < n) :
    config.Coherent (config.openBlock w block) := by
  unfold SnapshotConfig.openBlock
  split
  case h_1 => exact h
  case h_2 hempty => exact absurd hempty (hencode block)
  case h_3 bytes _ hbytes =>
    exact ⟨h.wellFormed, h.top, h.numbered, h.ascending, h.inbox, fun hdown => absurd hdown hup,
      ⟨config.number block, hheights, hchain, hpending, by simp [block?]⟩, hbytes⟩

theorem Coherent.nextBlock (hencode : ∀ block, config.encode block ≠ some [])
    (h : config.Coherent w) (hidle : w.point = .idle) : config.Coherent (config.nextBlock w) := by
  obtain ⟨m, hheights, hchain, hpending, -⟩ := h.frontier
  unfold SnapshotConfig.nextBlock
  split
  case h_1 => exact h
  case h_2 hphase => exact h.setPhase hidle (by simp [pending]) (by simp)
  case h_3 number rest hphase =>
    have hold : config.pending w = number :: rest := by simp [pending, hphase]
    have htail : config.Coherent { w with phase := .history rest } :=
      h.setPhase hidle (by rw [hold]; exact sublist_cons_self _ _) (by simp)
    rw [hold] at hpending
    simp only
    split
    case h_1 => exact htail
    case h_2 block hblock =>
      unfold blockAt at hblock
      split at hblock
      case isTrue => cases hblock
      case isFalse hpos =>
        have hnumber := h.numbered _ _ hblock
        have hlt := (List.getElem?_eq_some_iff.mp hblock).1
        have hsame : config.number block = number := by omega
        have habove := (pairwise_cons.mp (hold ▸ h.ascending)).1
        refine htail.openBlock hencode (by simp) (fun e he => ?_) ?_ fun n hn => ?_
        · have := hheights e he
          have := hpending number mem_cons_self
          omega
        · show config.number block ≤ w.chain.length
          omega
        · rw [hsame]
          exact habove n hn
  case h_4 => exact h.setPhase hidle (by simp [pending]) (by simp)
  case h_5 => exact h
  case h_6 block inbox hphase =>
    have hold : config.pending w = config.number block :: inbox.map config.number := by
      simp [pending, hphase]
    have hinbox := h.inbox _ _ hphase
    have htail : config.Coherent { w with phase := .live inbox false } := by
      refine h.setPhase hidle (by rw [hold]; exact sublist_cons_self _ _) ?_
      rintro _ _ ⟨⟩ b hb
      exact hinbox b (mem_cons_of_mem _ hb)
    rw [hold] at hpending
    have habove := (pairwise_cons.mp (hold ▸ h.ascending)).1
    refine htail.openBlock hencode (by simp) (fun e he => ?_) (hinbox block mem_cons_self) habove
    have := hheights e he
    have := hpending (config.number block) mem_cons_self
    omega

/-- A step of the manager. -/
theorem Coherent.work (hencode : ∀ block, config.encode block ≠ some [])
    (h : config.Coherent w) : config.Coherent (config.work w) := by
  unfold SnapshotConfig.work
  split
  case h_1 hpoint => exact h.nextBlock hencode hpoint
  case h_2 hpoint => exact h.lockLatest hpoint
  case h_3 hpoint => exact h.ensureSpace hpoint
  case h_4 hpoint => exact h.setLock hpoint
  case h_5 hpoint => exact h.storeBlock hpoint
  case h_6 hpoint => exact h.update hpoint
  case h_7 hpoint => exact h.mapBlock hpoint
  case h_8 => exact h.retain

theorem getElem?_commit (hnumber : config.number block = w.chain.length + 1)
    (h : ∀ i b, w.chain[i]? = some b → config.number b = i + 1) :
    ∀ i b, (w.chain ++ [block])[i]? = some b → config.number b = i + 1 := by
  intro i b hb
  rcases Nat.lt_trichotomy i w.chain.length with hi | hi | hi
  · rw [getElem?_append_left hi] at hb
    exact h i b hb
  · rw [hi, getElem?_concat_length] at hb
    rw [← some.inj hb, hnumber, hi]
  · rw [getElem?_eq_none (by simp; omega)] at hb
    cases hb

theorem Coherent.commit (h : config.Coherent w) : config.Coherent (config.commit w block) := by
  unfold SnapshotConfig.commit
  split
  case isFalse => exact h
  case isTrue hnumber =>
    obtain ⟨m, hheights, hchain, hpending, hblock⟩ := h.frontier
    have hnumbered := getElem?_commit hnumber h.numbered
    have hlength : m ≤ (w.chain ++ [block]).length := by
      rw [length_append]
      omega
    cases hphase : w.phase with
    | down =>
      exact ⟨h.wellFormed, h.top, hnumbered, .nil, by simp, fun _ => h.atRest hphase,
        ⟨m, hheights, hlength, by simp [pending], hblock⟩, h.point⟩
    | history rest =>
      have hasc : rest.Pairwise (· < ·) := by simpa [pending, hphase] using h.ascending
      have habove : ∀ n ∈ rest, m < n := by simpa [pending, hphase] using hpending
      exact ⟨h.wellFormed, h.top, hnumbered, hasc, by simp, by simp,
        ⟨m, hheights, hlength, habove, hblock⟩, h.point⟩
    | live inbox lagged =>
      have hasc : (inbox.map config.number).Pairwise (· < ·) := by
        simpa [pending, hphase] using h.ascending
      have habove : ∀ n ∈ inbox.map config.number, m < n := by
        simpa [pending, hphase] using hpending
      have hin := h.inbox inbox lagged hphase
      -- whether the oldest notification is lost or not
      have hlive : ∀ (waiting : List B) (lagged' : Bool), waiting.Sublist inbox →
          config.Coherent { w with
            chain := w.chain ++ [block], phase := .live (waiting ++ [block]) lagged' } := by
        intro waiting lagged' hsub
        have hbelow : ∀ b ∈ waiting, config.number b ≤ w.chain.length := fun b hb =>
          hin b (hsub.subset hb)
        refine ⟨h.wellFormed, h.top, hnumbered, ?_, ?_, by simp,
          ⟨m, hheights, hlength, fun n hn => ?_, hblock⟩, h.point⟩
        · show ((waiting ++ [block]).map config.number).Pairwise (· < ·)
          rw [map_append]
          refine pairwise_append.mpr ⟨hasc.sublist (hsub.map _), pairwise_singleton _ _,
            fun a ha b hb => ?_⟩
          obtain ⟨c, hc, rfl⟩ := mem_map.mp ha
          obtain rfl : b = config.number block := by simpa using hb
          have := hbelow c hc
          omega
        · rintro _ _ ⟨⟩ b hb
          rw [length_append]
          rcases mem_append.mp hb with hb | hb
          · have := hbelow b hb
            omega
          · rw [mem_singleton.mp hb, hnumber]
            simp
        · have hn : n ∈ (waiting ++ [block]).map config.number := hn
          rw [map_append, mem_append] at hn
          rcases hn with hn | hn
          · exact habove n ((hsub.map _).subset hn)
          · obtain rfl : n = config.number block := by simpa using hn
            omega
      simp only
      split
      · exact hlive inbox lagged (List.Sublist.refl _)
      · exact hlive inbox.tail true (tail_sublist inbox)

theorem Coherent.restart (h : config.Coherent w) : config.Coherent (restart w) := by
  obtain ⟨m, hheights, hchain, -, -⟩ := h.frontier
  exact ⟨h.wellFormed, h.top, h.numbered, .nil, by simp [SnapshotConfig.restart], fun _ => rfl,
    ⟨m, hheights, hchain, by simp [pending, SnapshotConfig.restart], by
      simp [block?, SnapshotConfig.restart]⟩, trivial⟩

/-- No snapshot is above the persisted height. -/
theorem Coherent.height_le_persisted (h : config.Coherent w) :
    ∀ e ∈ w.db.snapshots.entries, e.2.height ≤ persistedHeight w := by
  intro e he
  cases hlast : w.db.snapshots.last? with
  | none =>
    rw [Table.last?_eq_none_iff.mp hlast] at he
    cases he
  | some newest =>
    obtain ⟨before, hentries⟩ := Table.last?_eq_some_iff.mp hlast
    have hheight : persistedHeight w = newest.2.height := by
      simp [persistedHeight, getLastSnapshotHeight, hlast]
    rw [hheight]
    rw [hentries] at he
    rcases mem_append.mp he with he | he
    · exact (h.top before newest.1 newest.2 hentries e he).1
    · rw [mem_singleton.mp he]

theorem Coherent.persisted_le_length (h : config.Coherent w) :
    persistedHeight w ≤ w.chain.length := by
  obtain ⟨m, hheights, hchain, -, -⟩ := h.frontier
  cases hlast : w.db.snapshots.last? with
  | none => simp [persistedHeight, getLastSnapshotHeight, hlast]
  | some newest =>
    have hmem : newest ∈ w.db.snapshots.entries := mem_of_getLast? hlast
    have hheight : persistedHeight w = newest.2.height := by
      simp [persistedHeight, getLastSnapshotHeight, hlast]
    rw [hheight]
    exact (hheights newest hmem).trans hchain

theorem Coherent.start (h : config.Coherent w) (latest : Nat) :
    config.Coherent (config.start w latest) := by
  unfold SnapshotConfig.start
  split
  case h_2 => exact h
  case h_1 hphase =>
    have hidle := h.atRest hphase
    simp only
    split
    · exact h.setPhase hidle (by simp [pending]) (by simp)
    · split
      · refine ⟨h.wellFormed, h.top, h.numbered, pairwise_lt_range', by simp, by simp,
          ⟨persistedHeight w, h.height_le_persisted, h.persisted_le_length, fun n hn => ?_, ?_⟩, ?_⟩
        · have hn : n ∈ range' (persistedHeight w + 1)
            (latest + 1 - (persistedHeight w + 1)) := hn
          rw [mem_range'_1] at hn
          omega
        · simp [hidle, block?]
        · simp [PointOk, hidle]
      · exact h.setPhase hidle (by simp [pending]) (by simp)

theorem Coherent.step (hencode : ∀ block, config.encode block ≠ some [])
    (h : config.Coherent w) (event : Event B) : config.Coherent (config.step w event).2 := by
  have hlisting : ∀ listing, config.Coherent { w with listing } := fun listing =>
    ⟨h.wellFormed, h.top, h.numbered, h.ascending, h.inbox, h.atRest, h.frontier, h.point⟩
  cases event with
  | commit block => exact h.commit
  | restart => exact h.restart
  | start latest => exact h.start latest
  | work => exact h.work hencode
  | listRead => exact hlisting _
  | listAnswer =>
    simp only [SnapshotConfig.step]
    split
    · exact h
    · split
      · exact h
      · exact hlisting _
  | load height index =>
    simp only [SnapshotConfig.step]
    split <;> exact h

/-- Every state a run reaches is coherent. -/
theorem coherent_of_run (hencode : ∀ block, config.encode block ≠ some [])
    {history : History (SnapshotWorld B) (Event B) (Option Answer)}
    (hrun : Run config.step initial history w) : config.Coherent w :=
  hrun.always coherent_initial fun _ event h => h.step hencode event

end

end SnapshotConfig

end Macbeth
