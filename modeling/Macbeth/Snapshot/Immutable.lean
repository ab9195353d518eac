import Macbeth.Snapshot.Manager

/-!
# Advertised snapshots

Every write of the manager leaves the snapshots before the newest one as they are, with their
chunks and the mapping of their heights (`Appends`).  So a snapshot that is listed stays as it
is for as long as it is retained, if it is not the newest one and its height maps to it
(`advertised_snapshot_immutable`).  The lock is to keep the newest one out of the list.  It does
not after a restart, when it is empty, nor while a block is on its way into the tables: then a
snapshot is advertised and changes afterwards.
-/

namespace Macbeth

open List Option SnapshotDb

/-! ## What a write leaves -/

namespace SnapshotDb

/-- Only the newest snapshot is changed, by blocks at its height or above; others may come
after it or be removed. -/
def Appends (db db' : SnapshotDb) : Prop :=
  ∀ before id s, db.snapshots.entries = before ++ [(id, s)] →
    ∃ id' s', (db'.AtNewest id' fun t => t = s') ∧ id ≤ id' ∧ s.height ≤ s'.height ∧
      (∀ k t, k < id → db'.snapshots.get? k = some t → db.snapshots.get? k = some t ∧
        ∀ c ∈ t.chunkIds, db'.chunks.get? c = db.chunks.get? c) ∧
      ∀ height, height < s.height →
        db'.blockSnapshots.get? height = db.blockSnapshots.get? height

variable {db db' : SnapshotDb} {before : List (Nat × Snapshot)} {s t : Snapshot}
variable {id number chunkId c k : Nat} {hash : BitVec 256} {bytes : List UInt8}

theorem Appends.refl : db.Appends db := fun before id s h =>
  ⟨id, s, ⟨before, s, h, rfl⟩, le_rfl, le_rfl, fun _ _ _ hk => ⟨hk, fun _ _ => rfl⟩,
    fun _ _ => rfl⟩

/-- A chunk of a snapshot under its key is one of all chunks. -/
theorem mem_allChunkIds (h : db.snapshots.get? k = some t) (hc : c ∈ t.chunkIds) :
    c ∈ db.allChunkIds :=
  mem_flatMap.mpr ⟨t, Table.mem_values.mpr ⟨k, h⟩, hc⟩

theorem appends_createNewSnapshot (hheights : ∀ e ∈ db.snapshots.entries, e.2.height ≤ number) :
    db.Appends (db.createNewSnapshot number hash).2 := by
  intro before id s h
  have hid : id < db.snapshots.nextKey :=
    Table.lt_nextKey (h ▸ mem_append_right _ mem_cons_self : (id, s) ∈ _)
  have hheight := height_newest_le h hheights
  refine ⟨_, _, ⟨_, _, entries_createNewSnapshot, rfl⟩, Nat.le_of_lt hid, hheight,
    fun k t hk hget => ?_, fun height hlt => ?_⟩
  · have hget : (db.snapshots.put db.snapshots.nextKey _).get? k = some t := hget
    rw [Table.get?_put, if_neg (by omega)] at hget
    exact ⟨hget, fun _ _ => rfl⟩
  · show (db.blockSnapshots.put number _).get? height = _
    rw [Table.get?_put, if_neg (by omega)]

theorem WellFormed.appends_createNewChunk (hwf : db.WellFormed) :
    db.Appends (db.createNewChunk id number bytes).2 := by
  intro before id s h
  exact ⟨id, s, ⟨before, s, h, rfl⟩, le_rfl, le_rfl, fun k t _ hget => ⟨hget, fun c hc =>
    chunks_createNewChunk (Nat.ne_of_lt (hwf.lt_newChunk (mem_allChunkIds hget hc)))⟩,
    fun _ _ => rfl⟩

/-- The chunks before the newest snapshot come before its chunks. -/
theorem WellFormed.chunk_lt_of_newest (hwf : db.WellFormed)
    (h : db.snapshots.entries = before ++ [(id, s)]) (hk : k < id)
    (hget : db.snapshots.get? k = some t) (hc : c ∈ t.chunkIds) (hd : chunkId ∈ s.chunkIds) :
    c < chunkId := by
  have hasc := hwf.ascending
  rw [allChunkIds_eq, h, flatMap_append] at hasc
  have hmem : (k, t) ∈ before := by
    have hentry := Table.get?_eq_some_iff.mp hget
    rw [h] at hentry
    rcases mem_append.mp hentry with hentry | hentry
    · exact hentry
    · obtain ⟨rfl, -⟩ := Prod.mk.inj (mem_singleton.mp hentry)
      exact absurd hk (Nat.lt_irrefl k)
  exact (pairwise_append.mp hasc).2.2 c (mem_flatMap.mpr ⟨(k, t), hmem, hc⟩) chunkId
    (by simpa using hd)

theorem WellFormed.appends_appendToChunk (hwf : db.WellFormed)
    (hnewest : db.snapshots.entries = before ++ [(id, s)]) (hchunk : chunkId ∈ s.chunkIds)
    (happend : db.appendToChunk chunkId number bytes = some db') : db.Appends db' := by
  obtain ⟨hsnapshots, hblocks⟩ := snapshots_appendToChunk happend
  intro before' id' s' h
  obtain ⟨rfl, rfl, rfl⟩ := newest_unique hnewest h
  rw [hsnapshots, hblocks]
  refine ⟨id, s, ⟨before, s, by rw [hsnapshots, h], rfl⟩, le_rfl, le_rfl,
    fun k t hk hget => ⟨hget, fun c hc => ?_⟩, fun _ _ => rfl⟩
  exact chunks_appendToChunk happend
    (Nat.ne_of_lt (hwf.chunk_lt_of_newest hnewest hk hget hc hchunk))

theorem appends_updateSnapshot (hnewest : db.snapshots.entries = before ++ [(id, s)])
    (hheights : ∀ e ∈ db.snapshots.entries, e.2.height ≤ number) :
    db.Appends (db.updateSnapshot id number chunkId) := by
  intro before' id' s' h
  obtain ⟨rfl, rfl, rfl⟩ := newest_unique hnewest h
  rw [chunks_updateSnapshot.1, chunks_updateSnapshot.2]
  refine ⟨id, _, ⟨before, _, entries_updateSnapshot hnewest, rfl⟩, le_rfl,
    height_newest_le h hheights, fun k t hk hgetk => ⟨?_, fun _ _ => rfl⟩, fun _ _ => rfl⟩
  simp only [updateSnapshot, get?_newest hnewest] at hgetk
  rwa [Table.get?_put, if_neg (by omega)] at hgetk

theorem appends_insertMapping (hnewest : db.AtNewest id fun s => s.height = number) :
    db.Appends (db.insertBlockSnapshotIdMapping number id) := by
  obtain ⟨before, s, hentries, hs⟩ := hnewest
  intro before' id' s' h
  obtain ⟨rfl, rfl, rfl⟩ := newest_unique hentries h
  refine ⟨id, s, ⟨before, s, h, rfl⟩, le_rfl, le_rfl, fun _ _ _ hget => ⟨hget, fun _ _ => rfl⟩,
    fun height hlt => ?_⟩
  show (db.blockSnapshots.put number id).get? height = _
  rw [Table.get?_put, if_neg (by omega)]

theorem WellFormed.appends_removeOldestSnapshot (hwf : db.WellFormed) {oldest : Nat × Snapshot}
    {rest : List (Nat × Snapshot)} (holdest : db.snapshots.entries = oldest :: rest)
    (hother : ∀ before id s, db.snapshots.entries = before ++ [(id, s)] → (id, s) ≠ oldest) :
    db.Appends db.removeOldestSnapshot := by
  obtain ⟨hrest, hblocks, hchunks⟩ := removeOldestSnapshot_spec hwf holdest
  intro before id s h
  have hnewest : ∃ before', rest = before' ++ [(id, s)] := by
    cases before with
    | nil =>
      rw [holdest] at h
      exact absurd (cons.inj h).1.symm (hother [] id s (holdest.trans h))
    | cons e before' =>
      rw [holdest] at h
      exact ⟨before', (cons.inj h).2⟩
  obtain ⟨before', hbefore'⟩ := hnewest
  refine ⟨id, s, ⟨before', s, hrest.trans hbefore', rfl⟩, le_rfl, le_rfl, fun k t _ hget => ?_,
    fun _ _ => by rw [hblocks]⟩
  have hmem : (k, t) ∈ rest := by
    have := Table.get?_eq_some_iff.mp hget
    rwa [hrest] at this
  refine ⟨Table.get?_eq_some_iff.mpr (holdest ▸ mem_cons_of_mem _ hmem), fun c hc => ?_⟩
  exact hchunks c (mem_flatMap.mpr ⟨(k, t), hmem, hc⟩)

end SnapshotDb

/-! ## What a step leaves -/

namespace SnapshotConfig

variable {B : Type} {config : SnapshotConfig B} {w : SnapshotWorld B}

theorem openBlock_frame (block : B) : (config.openBlock w block).db = w.db ∧
    (config.openBlock w block).listing = w.listing ∧
    (config.openBlock w block).lock.blockId = w.lock.blockId := by
  unfold openBlock
  split <;> exact ⟨rfl, rfl, rfl⟩

/-- Taking up a block changes no table. -/
theorem nextBlock_frame : (config.nextBlock w).db = w.db ∧
    (config.nextBlock w).listing = w.listing ∧
    (config.nextBlock w).lock.blockId = w.lock.blockId := by
  unfold nextBlock
  split
  case h_3 =>
    simp only
    split
    · exact ⟨rfl, rfl, rfl⟩
    · exact openBlock_frame _
  case h_6 => exact openBlock_frame _
  all_goals exact ⟨rfl, rfl, rfl⟩

/-- The oldest snapshot is not removed while it is the newest. -/
theorem appends_retain (h : config.Coherent w) (hpoint : w.point = .retaining) :
    w.db.Appends (config.applyRetentionPolicy w) := by
  obtain ⟨id, before, s, hentries, hs⟩ := h.pointOk hpoint
  rcases applyRetentionPolicy_cases (w := w) with hsame | ⟨oldest, rest, holdest, hne, hremoved⟩
  · rw [hsame]
    exact .refl
  · rw [hremoved]
    refine h.wellFormed.appends_removeOldestSnapshot holdest fun before' id' s' h' hoverlap => ?_
    obtain ⟨-, -, rfl⟩ := newest_unique hentries h'
    apply hne
    rw [← hs, ← hoverlap]

/-- No step of the manager touches a snapshot before the newest one. -/
theorem appends_work (h : config.Coherent w) : w.db.Appends (config.work w).db := by
  cases hpoint : w.point with
  | idle =>
    simp only [work, hpoint, nextBlock_frame.1]
    exact .refl
  | opened block bytes =>
    simp only [work, hpoint, lockLatest]
    split
    · split <;> exact .refl
    · exact appends_createNewSnapshot (h.heights hpoint rfl)
  | sized block bytes id =>
    simp only [work, hpoint, ensureSpace]
    split
    · exact appends_createNewSnapshot (h.heights hpoint rfl)
    · exact .refl
  | chosen block bytes id =>
    simp only [work, hpoint]
    exact .refl
  | unlocked block bytes id =>
    obtain ⟨-, -, before, s, hnewest, -⟩ := h.pointOk hpoint
    simp only [work, hpoint, storeBlock]
    split
    case h_1 => exact .refl
    case h_2 chunkId db' hstore =>
      obtain ⟨s', hs', ⟨-, rfl⟩ | ⟨hlast, happend⟩⟩ := storeBytes_eq_some hstore
      · exact h.wellFormed.appends_createNewChunk
      · obtain rfl : s = s' :=
          some.inj ((get?_newest hnewest).symm.trans hs')
        exact h.wellFormed.appends_appendToChunk hnewest (mem_of_getLast? hlast) happend
  | stored block id chunkId =>
    obtain ⟨-, before, s, hnewest, -⟩ := h.pointOk hpoint
    simp only [work, hpoint]
    exact appends_updateSnapshot hnewest (h.heights hpoint rfl)
  | updated block id =>
    simp only [work, hpoint]
    exact appends_insertMapping (h.pointOk hpoint).2
  | retaining =>
    simp only [work, hpoint]
    exact appends_retain h hpoint

/-- What the steps beside the manager's own leave: the tables, the block in process or none, the
lock or an empty one. -/
theorem step_frame (config : SnapshotConfig B) (w : SnapshotWorld B) {event : Event B}
    (hwork : event ≠ .work) :
    (config.step w event).2.db = w.db ∧
      ((config.step w event).2.point = w.point ∨ (config.step w event).2.point = .idle) ∧
      ((config.step w event).2.lock.blockId = w.lock.blockId ∨
        (config.step w event).2.lock.blockId = 0) ∧
      ((config.step w event).2.listing = w.listing ∨ (config.step w event).2.listing = none ∨
        (config.step w event).2.listing = some w.db.getSnapshots) := by
  cases event with
  | commit block =>
    simp only [step, commit]
    split <;> simp
  | restart => simp [step, restart, StateLock.default]
  | start latest =>
    simp only [step, start]
    split
    · split_ifs <;> simp
    · simp
  | work => exact absurd rfl hwork
  | listRead => simp [step]
  | listAnswer =>
    simp only [step]
    split
    · simp
    · split <;> simp
  | load height index =>
    simp only [step]
    split <;> simp

theorem appends_step (h : config.Coherent w) (event : Event B) :
    w.db.Appends (config.step w event).2.db := by
  by_cases hwork : event = .work
  · subst hwork
    exact appends_work h
  · rw [(step_frame config w hwork).1]
    exact .refl

/-! ## Listed snapshots -/

/-- A snapshot before the newest one.  If it is still there, it is as it was, its height maps
to it, and its chunks are those of the table it was listed from. -/
def Frozen (s : Snapshot) (chunks : Table SnapshotChunk) (db : SnapshotDb) : Prop :=
  ∃ id newest, (db.AtNewest id fun t => t = newest) ∧ s.id < id ∧
    ∀ t, db.snapshots.get? s.id = some t → t = s ∧ s.height < newest.height ∧
      db.blockSnapshots.get? s.height = some s.id ∧
      ∀ c ∈ s.chunkIds, db.chunks.get? c = chunks.get? c

variable {s : Snapshot} {chunks : Table SnapshotChunk} {db : SnapshotDb}

theorem Frozen.appends {db' : SnapshotDb} (h : Frozen s chunks db) (happends : db.Appends db') :
    Frozen s chunks db' := by
  obtain ⟨id, newest, ⟨before, _, hentries, rfl⟩, hid, hkept⟩ := h
  obtain ⟨id', newest', hnewest', hle, hheight, hframe, hmapping⟩ := happends before id _ hentries
  refine ⟨id', newest', hnewest', Nat.lt_of_lt_of_le hid hle, fun t ht => ?_⟩
  obtain ⟨hold, hchunks⟩ := hframe s.id t hid ht
  obtain ⟨rfl, hlt, hmap, hsame⟩ := hkept t hold
  refine ⟨rfl, Nat.lt_of_lt_of_le hlt hheight, (hmapping _ hlt).trans hmap, fun c hc => ?_⟩
  exact (hchunks c hc).trans (hsame c hc)

/-- What is there after a write was there before. -/
theorem Frozen.retained {t : Snapshot} {db' : SnapshotDb} (h : Frozen s chunks db)
    (happends : db.Appends db') (ht : db'.snapshots.get? s.id = some t) :
    db.snapshots.get? s.id = some t := by
  obtain ⟨id, newest, ⟨before, _, hentries, rfl⟩, hid, -⟩ := h
  obtain ⟨-, -, -, -, -, hframe, -⟩ := happends before id _ hentries
  exact (hframe s.id t hid ht).1

/-- What `list_snapshots` has read is no newer than the newest snapshot. -/
def ListingKnown (w : SnapshotWorld B) : Prop :=
  ∀ snapshots, w.listing = some snapshots → ∀ s ∈ snapshots,
    ∃ id, w.db.AtNewest id fun _ => s.id ≤ id

/-- When `list_snapshots` answers, every snapshot it lists that is still there is as it was
read, is not the newest one, and its height maps to it. -/
def ListsSettled (_ : History (SnapshotWorld B) (Event B) (Option Answer)) (w : SnapshotWorld B) :
    Event B → Prop
  | .listAnswer => ∀ snapshots ∈ w.listing, ∀ s ∈ listed w snapshots,
      ∀ t ∈ w.db.snapshots.get? s.id, t = s ∧
        (∀ newest ∈ w.db.snapshots.last?, s.id ≠ newest.1) ∧
        w.db.blockSnapshots.get? s.height = some s.id
  | _ => True

instance (h : History (SnapshotWorld B) (Event B) (Option Answer)) (w : SnapshotWorld B) :
    ∀ event, Decidable (ListsSettled h w event)
  | .listAnswer => by unfold ListsSettled; infer_instance
  | .commit _ | .restart | .start _ | .work | .listRead | .load _ _ => inferInstanceAs (Decidable True)

/-- The manager leaves the listing, and sets the lock to the block in process. -/
theorem work_frame : (config.work w).listing = w.listing ∧
    ((config.work w).lock.blockId = w.lock.blockId ∨
      ∃ block ∈ block? w.point, (config.work w).lock.blockId = config.number block) := by
  unfold work
  split
  case h_1 => exact ⟨nextBlock_frame.2.1, .inl nextBlock_frame.2.2⟩
  case h_2 =>
    unfold lockLatest
    split
    · split <;> simp
    · simp
  case h_3 =>
    unfold ensureSpace
    split <;> simp
  case h_4 block bytes id hpoint => exact ⟨rfl, .inr ⟨block, by rw [hpoint]; rfl, rfl⟩⟩
  case h_5 =>
    unfold storeBlock
    split <;> simp
  all_goals exact ⟨rfl, .inl rfl⟩

/-- A listing is kept, read from the tables, or answered. -/
theorem listing_step (event : Event B) : (config.step w event).2.listing = w.listing ∨
    (config.step w event).2.listing = none ∨
    (config.step w event).2.listing = some w.db.getSnapshots ∧ (config.step w event).2.db = w.db := by
  by_cases hwork : event = .work
  · subst hwork
    exact .inl work_frame.1
  · obtain ⟨hdb, -, -, hlisting⟩ := step_frame config w hwork
    exact hlisting.imp_right (Or.imp_right fun hread => ⟨hread, hdb⟩)

theorem mem_getSnapshots : s ∈ db.getSnapshots ↔ s ∈ db.snapshots.values :=
  mem_insertionSort _

/-- A snapshot of the tables is no newer than the newest one. -/
theorem id_le_newest (hwf : db.WellFormed) (hs : s ∈ db.snapshots.values) :
    ∃ id, db.AtNewest id fun _ => s.id ≤ id := by
  obtain ⟨k, hk⟩ := Table.mem_values.mp hs
  have hmem := Table.get?_eq_some_iff.mp hk
  cases hlast : db.snapshots.last? with
  | none =>
    rw [Table.last?_eq_none_iff.mp hlast] at hmem
    cases hmem
  | some newest =>
    obtain ⟨before, hentries⟩ := Table.last?_eq_some_iff.mp hlast
    refine ⟨newest.1, before, newest.2, hentries, ?_⟩
    have hid : s.id = k := hwf.ids (k, s) hmem
    rcases Table.le_of_last? hlast hmem with heq | hlt
    · rw [hid, ← heq]
    · rw [hid]
      exact Nat.le_of_lt hlt

theorem ListingKnown.step (h : config.Coherent w) (hknown : ListingKnown w) (event : Event B) :
    ListingKnown (config.step w event).2 := by
  intro snapshots hlisting s hs
  have hcases : (config.step w event).2.listing = w.listing ∨ _ := listing_step event
  rcases hcases with hsame | hnone | ⟨hread, hdb⟩
  · rw [hsame] at hlisting
    obtain ⟨id, before, t, hentries, hle⟩ := hknown snapshots hlisting s hs
    obtain ⟨id', -, ⟨before', t', hentries', -⟩, hid, -⟩ := appends_step h event before id t hentries
    exact ⟨id', before', t', hentries', hle.trans hid⟩
  · rw [hnone] at hlisting
    cases hlisting
  · rw [hread] at hlisting
    obtain rfl := some.inj hlisting
    rw [hdb]
    exact id_le_newest h.wellFormed (mem_getSnapshots.mp hs)

/-- A snapshot that is listed in such a state is frozen. -/
theorem frozen_of_listed (h : config.Coherent w) (hknown : ListingKnown w)
    {snapshots : List Snapshot} (hlisting : w.listing = some snapshots)
    (hs : s ∈ listed w snapshots)
    (hsettled : ∀ t, w.db.snapshots.get? s.id = some t → t = s ∧
      (∀ newest, w.db.snapshots.last? = some newest → s.id ≠ newest.1) ∧
      w.db.blockSnapshots.get? s.height = some s.id) : Frozen s w.db.chunks w.db := by
  have hmem : s ∈ snapshots := by
    unfold listed at hs
    split at hs
    · cases hs
    · exact (mem_filter.mp hs).1
  obtain ⟨id, before, newest, hentries, hle⟩ := hknown snapshots hlisting s hmem
  have hlast : w.db.snapshots.last? = some (id, newest) := Table.last?_eq_some_iff.mpr ⟨before, hentries⟩
  have hne : s.id ≠ id := by
    rintro rfl
    exact (hsettled newest (get?_newest hentries)).2.1 _ hlast rfl
  refine ⟨id, newest, ⟨before, newest, hentries, rfl⟩, by omega, fun t ht => ?_⟩
  obtain ⟨rfl, -, hmap⟩ := hsettled t ht
  refine ⟨rfl, ?_, hmap, fun _ _ => rfl⟩
  have hbefore : (t.id, t) ∈ before := by
    have hentry := Table.get?_eq_some_iff.mp ht
    rw [hentries] at hentry
    rcases mem_append.mp hentry with hentry | hentry
    · exact hentry
    · exact absurd (congrArg Prod.fst (mem_singleton.mp hentry)) hne
  obtain ⟨hheight, htie⟩ := h.top before id newest hentries _ hbefore
  refine Nat.lt_of_le_of_ne hheight fun heq => hne ?_
  have heq : t.height = newest.height := heq
  have hnewest := htie heq
  rw [← heq, hmap] at hnewest
  exact some.inj hnewest

/-! ## Heights and the lock -/

/-- Snapshots are at blocks after genesis. -/
def Positive (config : SnapshotConfig B) (w : SnapshotWorld B) : Prop :=
  (∀ e ∈ w.db.snapshots.entries, 0 < e.2.height) ∧
    ∀ block ∈ block? w.point, 0 < config.number block

theorem block?_openBlock {block : B} (hidle : w.point = .idle) :
    ∀ b ∈ block? (config.openBlock w block).point, b = block := by
  unfold openBlock finish
  split
  · simp [hidle, block?]
  · split <;> simp [block?]
  · simp [block?]

/-- A block that is taken up is one of those to come. -/
theorem block?_nextBlock (h : config.Coherent w) (hidle : w.point = .idle) :
    ∀ b ∈ block? (config.nextBlock w).point, config.number b ∈ config.pending w := by
  intro b hb
  unfold nextBlock at hb
  split at hb
  case h_3 number rest hphase =>
    simp only at hb
    split at hb
    case h_1 => simp [hidle, block?] at hb
    case h_2 block hblock =>
      obtain rfl := block?_openBlock (w := { w with phase := .history rest }) hidle b hb
      unfold blockAt at hblock
      split at hblock
      case isTrue => cases hblock
      case isFalse hpos =>
        have hnumber := h.numbered _ _ hblock
        have hsame : config.number b = number := by omega
        simp [pending, hphase, hsame]
  case h_6 block inbox hphase =>
    obtain rfl := block?_openBlock (w := { w with phase := .live inbox false }) hidle b hb
    simp [pending, hphase]
  all_goals simp [hidle, block?] at hb

theorem Positive.work (h : config.Coherent w) (hpos : config.Positive w) :
    config.Positive (config.work w) := by
  obtain ⟨hheights, hblock⟩ := hpos
  cases hpoint : w.point with
  | idle =>
    obtain ⟨m, -, -, hpending, -⟩ := h.frontier
    simp only [SnapshotConfig.work, hpoint]
    refine ⟨by rwa [nextBlock_frame.1], fun b hb => ?_⟩
    exact Nat.zero_lt_of_lt (hpending _ (block?_nextBlock h hpoint b hb))
  | opened block bytes =>
    have hnumber := hblock block (by rw [hpoint]; rfl)
    simp only [SnapshotConfig.work, hpoint, lockLatest]
    split
    · split
      · exact ⟨hheights, by simp [block?]⟩
      · exact ⟨hheights, by simpa [block?] using hnumber⟩
    · exact ⟨heights_createNewSnapshot (0 < ·) hheights hnumber,
        by simpa [block?] using hnumber⟩
  | sized block bytes id =>
    have hnumber := hblock block (by rw [hpoint]; rfl)
    simp only [SnapshotConfig.work, hpoint, ensureSpace]
    split
    · exact ⟨heights_createNewSnapshot (0 < ·) hheights hnumber,
        by simpa [block?] using hnumber⟩
    · exact ⟨hheights, by simpa [block?] using hnumber⟩
  | chosen block bytes id =>
    have hnumber := hblock block (by rw [hpoint]; rfl)
    simp only [SnapshotConfig.work, hpoint]
    exact ⟨hheights, by simpa [setLock, block?] using hnumber⟩
  | unlocked block bytes id =>
    have hnumber := hblock block (by rw [hpoint]; rfl)
    obtain ⟨-, -, before, s, hnewest, -⟩ := h.pointOk hpoint
    simp only [SnapshotConfig.work, hpoint, storeBlock]
    split
    case h_1 => exact ⟨hheights, by simp [block?]⟩
    case h_2 chunkId db' hstore =>
      have hsame := (storeBytes_spec h.wellFormed hnewest hstore).2.1
      exact ⟨by rwa [hsame], by simpa [block?] using hnumber⟩
  | stored block id chunkId =>
    have hnumber := hblock block (by rw [hpoint]; rfl)
    obtain ⟨-, before, s, hnewest, -⟩ := h.pointOk hpoint
    simp only [SnapshotConfig.work, hpoint]
    exact ⟨heights_updateSnapshot (0 < ·) hnewest hheights hnumber,
      by simpa [block?] using hnumber⟩
  | updated block id =>
    simp only [SnapshotConfig.work, hpoint, finish]
    exact ⟨hheights, by split <;> simp [block?]⟩
  | retaining =>
    simp only [SnapshotConfig.work, hpoint]
    refine ⟨fun e he => ?_, by simp [block?]⟩
    rcases applyRetentionPolicy_cases (w := w) with hsame | ⟨oldest, rest, hentries, -, hremoved⟩
    · rw [hsame] at he
      exact hheights e he
    · rw [hremoved, (removeOldestSnapshot_spec h.wellFormed hentries).1] at he
      exact hheights e (hentries ▸ mem_cons_of_mem _ he)

theorem Positive.step (h : config.Coherent w) (hpos : config.Positive w) (event : Event B) :
    config.Positive (config.step w event).2 := by
  by_cases hwork : event = .work
  · subst hwork
    exact hpos.work h
  · obtain ⟨hdb, hpoint, -, -⟩ := step_frame config w hwork
    refine ⟨by rw [hdb]; exact hpos.1, fun block hblock => ?_⟩
    rcases hpoint with hsame | hidle
    · exact hpos.2 block (hsame ▸ hblock)
    · simp [hidle, block?] at hblock

/-- The lock is kept, emptied, or set to the block in process. -/
theorem blockId_step (event : Event B) :
    (config.step w event).2.lock.blockId = w.lock.blockId ∨
      (config.step w event).2.lock.blockId = 0 ∨
      ∃ block ∈ block? w.point, (config.step w event).2.lock.blockId = config.number block := by
  by_cases hwork : event = .work
  · subst hwork
    exact work_frame.2.imp_right .inr
  · exact (step_frame config w hwork).2.2.1.imp_right .inl

/-! ## Chunks that are served -/

/-- A listed snapshot is frozen, and while it is there it is not the one the lock marks. -/
def Held (s : Snapshot) (chunks : Table SnapshotChunk) (w : SnapshotWorld B) : Prop :=
  Frozen s chunks w.db ∧
    ((w.db.snapshots.get? s.id).isSome → 0 < s.height ∧ w.lock.blockId ≠ s.height)

theorem Held.step (hcoherent : config.Coherent w) (h : Held s chunks w) (event : Event B) :
    Held s chunks (config.step w event).2 := by
  have happends := appends_step hcoherent event
  refine ⟨h.1.appends happends, fun hsome => ?_⟩
  obtain ⟨t, ht⟩ := isSome_iff_exists.mp hsome
  have hold := h.1.retained happends ht
  obtain ⟨hpos, hne⟩ := h.2 (by rw [hold]; rfl)
  refine ⟨hpos, ?_⟩
  have hcases : (config.step w event).2.lock.blockId = w.lock.blockId ∨ _ := blockId_step event
  rcases hcases with hsame | hzero | ⟨block, hblock, hnumber⟩
  · rwa [hsame]
  · rw [hzero]
    exact Nat.ne_of_lt hpos
  · -- the newest snapshot is above the frozen one, and the block in process not below it
    obtain ⟨id, _, ⟨before, newest, hentries, rfl⟩, -, hkept⟩ := h.1
    have hlt := (hkept t hold).2.1
    have hle : newest.height ≤ config.number block :=
      height_newest_le hentries (hcoherent.heights rfl hblock)
    rw [hnumber]
    omega

/-- The chunks of a snapshot are found through its height, are those of a table, and are what
`load_snapshot_chunk` answers with unless history is synced. -/
def Serves (config : SnapshotConfig B) (s : Snapshot) (chunks : Table SnapshotChunk)
    (w : SnapshotWorld B) : Prop :=
  (w.db.blockSnapshots.get? s.height).bind w.db.snapshots.get? = some s ∧
    ∀ index < s.chunkIds.length, ∃ chunkId chunk, s.chunkIds[index]? = some chunkId ∧
      chunks.get? chunkId = some chunk ∧ w.db.chunks.get? chunkId = some chunk ∧
      (w.lock.isSyncingHistory = false → lockHeld w = false →
        (config.step w (.load s.height index)).1 =
          some (.chunk (config.encodeAll (chunk.chunkData.filterMap config.decode))))

theorem Held.serves (hcoherent : config.Coherent w) (h : Held s chunks w)
    (hsome : (w.db.snapshots.get? s.id).isSome) : config.Serves s chunks w := by
  obtain ⟨⟨id, newest, -, -, hkept⟩, hlock⟩ := h
  obtain ⟨t, ht⟩ := isSome_iff_exists.mp hsome
  obtain ⟨rfl, -, hmap, hchunks⟩ := hkept t ht
  refine ⟨by rw [hmap]; exact ht, fun index hindex => ?_⟩
  have hid : t.chunkIds[index]? = some t.chunkIds[index] := getElem?_eq_getElem hindex
  have hmem : t.chunkIds[index] ∈ t.chunkIds := getElem_mem hindex
  obtain ⟨chunk, hchunk⟩ := hcoherent.wellFormed.present _ (mem_allChunkIds ht hmem)
  refine ⟨_, chunk, hid, (hchunks _ hmem).symm.trans hchunk, hchunk, fun hlive hfree => ?_⟩
  simp [SnapshotConfig.step, hfree, loadSnapshotChunk, hlive, (hlock hsome).2, hmap, ht, hid, hchunk]

/-- A snapshot is listed only where it is held. -/
theorem held_of_listed (h : config.Coherent w) (hpos : config.Positive w)
    (hknown : ListingKnown w) {history : History (SnapshotWorld B) (Event B) (Option Answer)}
    (hsettled : ListsSettled history w .listAnswer) {snapshots : List Snapshot}
    (hlisting : w.listing = some snapshots) (hs : s ∈ listed w snapshots) :
    Held s w.db.chunks w := by
  have hthis := hsettled snapshots hlisting s hs
  refine ⟨frozen_of_listed h hknown hlisting hs hthis, fun hsome => ⟨?_, ?_⟩⟩
  · obtain ⟨t, ht⟩ := isSome_iff_exists.mp hsome
    obtain ⟨rfl, -⟩ := hthis t ht
    exact hpos.1 _ (Table.get?_eq_some_iff.mp ht)
  · unfold listed at hs
    split at hs
    · cases hs
    · have hne := (mem_filter.mp hs).2
      exact Ne.symm (of_decide_eq_true hne)

/-- Only `list_snapshots` answers with a list. -/
theorem listed_of_step {event : Event B} {answer : List Advertised}
    (h : (config.step w event).1 = some (.listed answer)) : event = .listAnswer ∧
      ∃ snapshots, w.listing = some snapshots ∧ answer = (listed w snapshots).map config.advertise := by
  cases event with
  | listAnswer =>
    simp only [step] at h
    split at h
    case h_1 => cases h
    case h_2 snapshots hlisting =>
      split at h
      · cases h
      · obtain rfl := Answer.listed.inj (some.inj h)
        exact ⟨rfl, snapshots, hlisting, rfl⟩
  | load height index =>
    simp only [step] at h
    split at h <;> cases h
  | _ => cases h

/-- What was listed is held from then on. -/
def ListedHeld (config : SnapshotConfig B)
    (history : History (SnapshotWorld B) (Event B) (Option Answer)) (w : SnapshotWorld B) : Prop :=
  ∀ t ∈ history, ∀ answer, t.output = some (.listed answer) →
    ∃ snapshots, t.pre.listing = some snapshots ∧
      answer = (listed t.pre snapshots).map config.advertise ∧
      ∀ s ∈ listed t.pre snapshots, Held s t.pre.db.chunks w

theorem listedHeld_of_run (hencode : ∀ block, config.encode block ≠ some [])
    {history : History (SnapshotWorld B) (Event B) (Option Answer)}
    (hrun : Run config.step initial history w) (hmeets : Meets ListsSettled history) :
    config.ListedHeld history w := by
  have hall : config.Positive w ∧ ListingKnown w ∧ config.ListedHeld history w := by
    refine hrun.invariant
      (I := fun h w => config.Positive w ∧ ListingKnown w ∧ config.ListedHeld h w) ?_ ?_ hmeets
    · refine ⟨?_, (fun snapshots hlisting => by cases hlisting), by simp [ListedHeld]⟩
      constructor <;> simp [initial, SnapshotDb.empty, EmptyCollection.emptyCollection, Table.empty,
        block?]
    · intro h w event hrun' hinv hsettled
      obtain ⟨hpos, hknown, hheld⟩ := hinv
      have hcoherent := coherent_of_run hencode hrun'
      refine ⟨hpos.step hcoherent event, hknown.step hcoherent event, fun t ht answer hanswer => ?_⟩
      rcases mem_cons.mp ht with rfl | ht
      · obtain ⟨rfl, snapshots, hlisting, hlist⟩ := listed_of_step hanswer
        exact ⟨snapshots, hlisting, hlist, fun s hs =>
          (held_of_listed hcoherent hpos hknown hsettled hlisting hs).step hcoherent _⟩
      · obtain ⟨snapshots, hlisting, hlist, hkept⟩ := hheld t ht answer hanswer
        exact ⟨snapshots, hlisting, hlist, fun s hs => (hkept s hs).step hcoherent event⟩
  exact hall.2.2

/-- If every snapshot that is listed is one that later blocks do not touch, then what was listed
stays as it was: as long as the snapshot is retained, its record, and so its hash and the number
of its chunks, is the listed one, and the chunks served are those present at the listing. -/
theorem advertised_snapshot_immutable (hencode : ∀ block, config.encode block ≠ some [])
    {history : History (SnapshotWorld B) (Event B) (Option Answer)}
    (hrun : Run config.step initial history w) (hmeets : Meets ListsSettled history)
    {t : Transition (SnapshotWorld B) (Event B) (Option Answer)} (ht : t ∈ history)
    {answer : List Advertised} (hanswer : t.output = some (.listed answer)) :
    ∃ snapshots, t.pre.listing = some snapshots ∧
      answer = (listed t.pre snapshots).map config.advertise ∧
      ∀ s ∈ listed t.pre snapshots, (w.db.snapshots.get? s.id).isSome →
        config.Serves s t.pre.db.chunks w := by
  obtain ⟨snapshots, hlisting, hlist, hheld⟩ :=
    listedHeld_of_run hencode hrun hmeets t ht answer hanswer
  exact ⟨snapshots, hlisting, hlist, fun s hs hsome =>
    (hheld s hs).serves (coherent_of_run hencode hrun) hsome⟩

/-- The SHA-256 of a first snapshot, at height 1 with one block and at height 2 with two. -/
def firstHash (bytes : List UInt8) : List UInt8 :=
  if bytes.length = 64 then
    Bytes.toBE 32 0x71a8d4dca6f97e63d6c663501fee107e4cb3bfb31276c5039c080b6f8e03fa98
  else Bytes.toBE 32 0x024c105b72de311137a3605f93a226f7606c2217ca703066dc847b92ef124863

/-- Blocks of one size that are known by their numbers. -/
def numbered (size : Nat) : SnapshotConfig Nat where
  number := id
  hash := BitVec.ofNat 256
  encode block := some (List.replicate size (UInt8.ofNat block))
  decode bytes := bytes.head?.map UInt8.toNat
  encodeAll blocks := some (blocks.map UInt8.ofNat)
  sha256 := firstHash
  snapshotsToKeep := 3
  snapshotMessageFormat := 2
  enableHistoricalSync := true
  capacity := 8

theorem encode_numbered_ne {size : Nat} (hsize : size ≠ 0) (block : Nat) :
    (numbered size).encode block ≠ some [] := by
  simp [numbered, hsize]

/-- A block is committed and processed. -/
def processed (block : Nat) : List (Event Nat) := List.replicate 9 .work ++ [.commit block]

/-- A snapshot that fits more blocks is listed after a restart, before the lock is set. -/
def listedAfterRestart : List (Event Nat) :=
  [.listAnswer, .listRead, .start 1, .restart] ++ processed 1 ++ [.start 0]

/-- A snapshot is advertised, then it grows: it has the same height for a caller and is retained,
but its chunk has another block in it and its hash is another one. -/
theorem listed_snapshot_grows :
    let before := play (numbered 1).step initial listedAfterRestart
    let after := (play (numbered 1).step initial (processed 2 ++ listedAfterRestart)).2
    let found := (after.db.blockSnapshots.get? 1).bind after.db.snapshots.get?
    (before.1.head?.bind Transition.output =
        some (.listed [⟨1, 2, 1, firstHash (List.replicate 64 0)⟩]) ∧
      ((numbered 1).step before.2 (.load 1 0)).1 = some (.chunk (some [1]))) ∧
    ((numbered 1).step after (.load 1 0)).1 = some (.chunk (some [1, 2])) ∧
      found.map (Snapshot.getHash · (numbered 1).sha256) = some (firstHash (List.replicate 72 0)) ∧
      firstHash (List.replicate 64 0) ≠ firstHash (List.replicate 72 0) := by
  decide +kernel

/-- Two large blocks, each with a snapshot of its own, before a call to `list_snapshots`. -/
def twoLarge : List (Event Nat) := [.listRead] ++ processed 2 ++ processed 1 ++ [.start 0]

/-- The state in which the call is answered. -/
def atAnswer : SnapshotWorld Nat := (play (numbered 2600).step initial twoLarge).2

/-- The run until another block is processed. -/
def thirdLarge : History (SnapshotWorld Nat) (Event Nat) (Option Answer) × SnapshotWorld Nat :=
  play (numbered 2600).step initial (processed 3 ++ .listAnswer :: twoLarge)

/-- The first of the snapshots is listed, and it is served as it was. -/
theorem listed_behind_served : Meets ListsSettled thirdLarge.1 ∧
    (∀ snapshots ∈ atAnswer.listing, ∀ s ∈ listed atAnswer snapshots,
      (thirdLarge.2.db.snapshots.get? s.id).isSome) ∧
    ∃ snapshots, atAnswer.listing = some snapshots ∧ (listed atAnswer snapshots).length = 1 ∧
      ∀ s ∈ listed atAnswer snapshots, (numbered 2600).Serves s atAnswer.db.chunks thirdLarge.2 := by
  have hsettled : Meets ListsSettled thirdLarge.1 := by decide +kernel
  have hthere : ∀ snapshots ∈ atAnswer.listing, ∀ s ∈ listed atAnswer snapshots,
      (thirdLarge.2.db.snapshots.get? s.id).isSome := by decide +kernel
  have hlength : ∀ snapshots ∈ atAnswer.listing, (listed atAnswer snapshots).length = 1 := by
    decide +kernel
  have hanswer : (fire (numbered 2600).step atAnswer .listAnswer).output =
      some (.listed [⟨1, 2, 1, firstHash (List.replicate 64 0)⟩]) := by decide +kernel
  have hmem : fire (numbered 2600).step atAnswer .listAnswer ∈ thirdLarge.1 :=
    mem_of_getElem? (i := 10) rfl
  have hrun : Run (numbered 2600).step initial thirdLarge.1 thirdLarge.2 := Run.play _
  obtain ⟨snapshots, hlisting, -, hserves⟩ := advertised_snapshot_immutable
    (encode_numbered_ne (by decide)) hrun hsettled hmem hanswer
  exact ⟨hsettled, hthere, snapshots, hlisting, hlength snapshots hlisting, fun s hs =>
    hserves s hs (hthere snapshots hlisting s hs)⟩

end SnapshotConfig

end Macbeth
