import Macbeth.Authority.PsbtAgreement
import Macbeth.Authority.WalletSync
import Macbeth.Lib.Run

/-!
# What a wallet state sync guarantees

A record counts as complete when it has as many *ids* as its stream has *chunks*.  So a
reported superset is complete when every peer's stream is a single chunk or has one id per
chunk (`superset_complete`); with larger chunks the first of them may already pass the test.

The reset replaces the finalized ids by the superset: what this node had finalized survives
exactly if the superset has it (`reset_keeps_iff`).
-/

namespace Macbeth

open Outcome List Option FinMap Outcome

/-! ## Streams and deliveries -/

/-- The chunks one peer streams; each tells how many there are. -/
structure PegoutStream where
  chunks : List PegoutIdsChunk
  total : ∀ chunk ∈ chunks, chunk.totalChunks.toNat = chunks.length

/-- One chunk, or one id per chunk. -/
def PegoutStream.Countable (stream : PegoutStream) : Prop :=
  stream.chunks.length = 1 ∨ ∀ chunk ∈ stream.chunks, chunk.data.length = 1

/-- A message of the cycle carries a chunk of its peer's stream. -/
def FromStreams (streams : PeerId → PegoutStream) (cycle : Uuid) (message : WalletStateMessage) :
    Prop :=
  message.uuid = some cycle → ∀ chunk ∈ message.chunk, chunk ∈ (streams message.peer).chunks

abbrev SyncHistory := History WalletSyncState WalletStateMessage (Option (List RpcFinalizedPegout))

/-- The peer has delivered a chunk. -/
def Delivered (h : SyncHistory) (peer : PeerId) (chunk : PegoutIdsChunk) : Prop :=
  ∃ t ∈ h, t.input.peer = peer ∧ t.input.chunk = some chunk

/-! ## Records of a stream -/

/-- A record made of delivered chunks: its first chunk is there as a whole, and every entry is
of one of them. -/
structure RecordOf (stream : PegoutStream) (delivered : PegoutIdsChunk → Prop)
    (record : WalletStateSyncRecord) : Prop where
  total : record.chunksCount.toNat = stream.chunks.length
  origin : ∀ entry ∈ record.entries, ∃ chunk ∈ stream.chunks, delivered chunk ∧ entry ∈ chunk.data
  first : ∃ chunk ∈ stream.chunks, delivered chunk ∧ ∀ entry ∈ chunk.data, entry ∈ record.entries
  nodup : (∀ chunk ∈ stream.chunks, chunk.data.length = 1) → record.entries.Nodup

section
variable {stream : PegoutStream} {delivered delivered' : PegoutIdsChunk → Prop}
  {record : WalletStateSyncRecord} {chunk : PegoutIdsChunk}

theorem RecordOf.mono (h : RecordOf stream delivered record)
    (hle : ∀ chunk, delivered chunk → delivered' chunk) : RecordOf stream delivered' record where
  total := h.total
  origin entry hentry := by
    obtain ⟨chunk, hchunk, hdelivered, hmem⟩ := h.origin entry hentry
    exact ⟨chunk, hchunk, hle chunk hdelivered, hmem⟩
  first := by
    obtain ⟨chunk, hchunk, hdelivered, hmem⟩ := h.first
    exact ⟨chunk, hchunk, hle chunk hdelivered, hmem⟩
  nodup := h.nodup

/-- The record of a first chunk. -/
theorem RecordOf.create (hchunk : chunk ∈ stream.chunks) (hdelivered : delivered chunk)
    (uuid : Uuid) : RecordOf stream delivered ⟨uuid, chunk.data, chunk.totalChunks⟩ where
  total := stream.total chunk hchunk
  origin _ hentry := ⟨chunk, hchunk, hdelivered, hentry⟩
  first := ⟨chunk, hchunk, hdelivered, fun _ => id⟩
  nodup hsingle := by
    obtain ⟨entry, hdata⟩ := length_eq_one_iff.mp (hsingle chunk hchunk)
    rw [hdata]
    exact nodup_singleton entry

/-- What adding an entry does to the entries. -/
theorem addDataIfNotExists_cases (record : WalletStateSyncRecord) (entry : StreamedId) :
    record.addDataIfNotExists entry = record ∨
      entry ∉ record.entries ∧
        record.addDataIfNotExists entry = { record with entries := record.entries ++ [entry] } := by
  unfold WalletStateSyncRecord.addDataIfNotExists
  split
  · exact .inl rfl
  case isFalse hnew =>
    split
    · exact .inl rfl
    · refine .inr ⟨?_, rfl⟩
      intro hmem
      exact hnew (any_eq_true.mpr ⟨entry, hmem, by simp⟩)

theorem RecordOf.add (h : RecordOf stream delivered record) (hchunk : chunk ∈ stream.chunks)
    (hdelivered : delivered chunk) {entry : StreamedId} (hentry : entry ∈ chunk.data) :
    RecordOf stream delivered (record.addDataIfNotExists entry) := by
  rcases addDataIfNotExists_cases record entry with heq | ⟨hnew, heq⟩
  · rw [heq]
    exact h
  · rw [heq]
    refine ⟨h.total, ?_, ?_, fun hsingle => ?_⟩
    · intro x hx
      rcases mem_append.mp hx with hx | hx
      · exact h.origin x hx
      · obtain rfl : x = entry := by simpa using hx
        exact ⟨chunk, hchunk, hdelivered, hentry⟩
    · obtain ⟨c, hc, hd, hmem⟩ := h.first
      exact ⟨c, hc, hd, fun x hx => mem_append_left _ (hmem x hx)⟩
    · rw [nodup_append_comm, singleton_append, nodup_cons]
      exact ⟨hnew, h.nodup hsingle⟩

/-- Appending a chunk keeps a record one of its stream. -/
theorem RecordOf.append (hchunk : chunk ∈ stream.chunks) (hdelivered : delivered chunk) :
    ∀ {data : List StreamedId} {record : WalletStateSyncRecord}, (∀ x ∈ data, x ∈ chunk.data) →
      RecordOf stream delivered record →
      RecordOf stream delivered (data.foldl WalletStateSyncRecord.addDataIfNotExists record)
  | [], _, _, h => h
  | entry :: data, record, hdata, h => by
    rw [foldl_cons]
    exact RecordOf.append hchunk hdelivered (fun x hx => hdata x (mem_cons_of_mem entry hx))
      (h.add hchunk hdelivered (hdata entry mem_cons_self))

theorem addDataIfNotExists_uuid (record : WalletStateSyncRecord) (entry : StreamedId) :
    (record.addDataIfNotExists entry).uuid = record.uuid := by
  rcases addDataIfNotExists_cases record entry with heq | ⟨-, heq⟩ <;> rw [heq]

theorem foldl_addDataIfNotExists_uuid : ∀ (data : List StreamedId) (record : WalletStateSyncRecord),
    (data.foldl WalletStateSyncRecord.addDataIfNotExists record).uuid = record.uuid
  | [], _ => rfl
  | entry :: data, record => by
    rw [foldl_cons, foldl_addDataIfNotExists_uuid, addDataIfNotExists_uuid]

/-- A record of a countable stream that passes the test has the whole stream. -/
theorem RecordOf.whole (h : RecordOf stream delivered record) (hcount : stream.Countable)
    (hcomplete : SyncRecords.isComplete record = true) :
    ∀ chunk ∈ stream.chunks, delivered chunk ∧ ∀ entry ∈ chunk.data, entry ∈ record.entries := by
  rcases hcount with hone | hsingle
  · -- the only chunk is the first one
    obtain ⟨only, hchunks⟩ := length_eq_one_iff.mp hone
    obtain ⟨first, hfirst, hdelivered, hmem⟩ := h.first
    intro chunk hchunk
    rw [hchunks, mem_singleton] at hchunk hfirst
    rw [hchunk, ← hfirst]
    exact ⟨hdelivered, hmem⟩
  · -- as many distinct entries as there are chunks, each with one: all of them
    have hlength : (stream.chunks.flatMap (·.data)).length = stream.chunks.length := by
      rw [length_flatMap, map_congr_left hsingle, map_const', sum_replicate]
      simp
    have hsub : record.entries ⊆ stream.chunks.flatMap (·.data) := by
      intro entry hentry
      obtain ⟨chunk, hchunk, -, hmem⟩ := h.origin entry hentry
      exact mem_flatMap.mpr ⟨chunk, hchunk, hmem⟩
    have hle : (stream.chunks.flatMap (·.data)).length ≤ record.entries.length := by
      rw [hlength, ← h.total]
      exact of_decide_eq_true hcomplete
    have hperm := (h.nodup hsingle).subperm hsub |>.perm_of_length_le hle
    intro chunk hchunk
    have hall : ∀ entry ∈ chunk.data, entry ∈ record.entries := fun entry hentry =>
      hperm.mem_iff.mpr (mem_flatMap.mpr ⟨chunk, hchunk, hentry⟩)
    obtain ⟨entry, hdata⟩ := length_eq_one_iff.mp (hsingle chunk hchunk)
    obtain ⟨other, hother, hdelivered, hmem⟩ := h.origin entry (hall entry (by simp [hdata]))
    -- the chunk that brought the entry is this one
    obtain rfl : other = chunk := by
      obtain ⟨entry', hdata'⟩ := length_eq_one_iff.mp (hsingle other hother)
      obtain rfl : entry = entry' := by simpa [hdata'] using hmem
      have htotal : other.totalChunks = chunk.totalChunks := by
        rw [← BitVec.toNat_inj, stream.total other hother, stream.total chunk hchunk]
      cases other
      cases chunk
      simp_all
    exact ⟨hdelivered, hall⟩

end

/-! ## Runs of one cycle -/

/-- The state of a cycle: every record is one of its peer's stream, made of what the peer has
delivered. -/
structure InCycle (streams : PeerId → PegoutStream) (cycle : Uuid) (h : SyncHistory)
    (s : WalletSyncState) : Prop where
  current : s.currentResponseCycle = some cycle
  records : ∀ peer record, s.records.lookup peer = some record →
    record.uuid = cycle ∧ RecordOf (streams peer) (Delivered h peer) record

section
variable {env : WalletSyncEnv} {streams : PeerId → PegoutStream} {cycle : Uuid} {h : SyncHistory}
  {s : WalletSyncState} {message : WalletStateMessage} {records : SyncRecords}

/-- The state after a message is one of the cycle, if the table it keeps is. -/
theorem InCycle.mono (hs : InCycle streams cycle h s) (t) : InCycle streams cycle (t :: h) s where
  current := hs.current
  records peer record hrecord := by
    obtain ⟨huuid, hof⟩ := hs.records peer record hrecord
    exact ⟨huuid, hof.mono fun chunk ⟨t', ht', hpeer⟩ => ⟨t', mem_cons_of_mem t ht', hpeer⟩⟩

/-- Taking in a chunk keeps the records those of the streams. -/
theorem InCycle.absorb (hs : InCycle streams cycle h s) (hfrom : FromStreams streams cycle message)
    (habsorb : s.absorb message = some records) :
    InCycle streams cycle (fire env.receive s message :: h) { s with records } := by
  have hlater := hs.mono (fire env.receive s message)
  refine ⟨hs.current, fun peer record hrecord => ?_⟩
  unfold WalletSyncState.absorb at habsorb
  rw [hs.current] at habsorb
  split at habsorb
  case h_2 => cases habsorb
  case h_1 _ _ _ requestUuid chunk uuid huuid hchunk heq =>
    obtain rfl : cycle = uuid := some.inj heq
    split at habsorb
    · cases habsorb
    case isFalse hsame =>
      obtain rfl : cycle = requestUuid := not_not.mp hsame
      have hmem : chunk ∈ (streams message.peer).chunks := hfrom huuid chunk hchunk
      have hdelivered : Delivered (fire env.receive s message :: h) message.peer chunk :=
        ⟨_, mem_cons_self, rfl, hchunk⟩
      split at habsorb
      case h_1 old hold =>
        split at habsorb
        · cases habsorb
        · obtain rfl := some.inj habsorb
          rw [SyncRecords.appendDataToStateSyncRecord, hold] at hrecord
          dsimp only at hrecord
          rw [lookup_insert_eq] at hrecord
          split at hrecord
          case isTrue hpeer =>
            obtain rfl := some.inj hrecord
            subst hpeer
            obtain ⟨holdUuid, hof⟩ := hlater.records _ old hold
            exact ⟨(foldl_addDataIfNotExists_uuid _ _).trans holdUuid,
              RecordOf.append hmem hdelivered (fun _ => id) hof⟩
          case isFalse => exact hlater.records peer record hrecord
      case h_2 =>
        obtain rfl := some.inj habsorb
        rw [SyncRecords.createNewStateSyncRecord, lookup_insert_eq] at hrecord
        split at hrecord
        case isTrue hpeer =>
          obtain rfl := some.inj hrecord
          subst hpeer
          exact ⟨rfl, RecordOf.create hmem hdelivered cycle⟩
        case isFalse => exact hlater.records peer record hrecord

/-- One message keeps the state one of the cycle. -/
theorem InCycle.receive (hs : InCycle streams cycle h s)
    (hfrom : FromStreams streams cycle message) :
    InCycle streams cycle (fire env.receive s message :: h) (env.receive s message).2 := by
  have hnext := @InCycle.absorb env streams cycle h s message
  generalize fire env.receive s message = t at hnext
  unfold WalletSyncEnv.receive
  split
  · exact hs.mono t
  case h_2 records habsorb =>
    have hnext := hnext hs hfrom habsorb
    split
    · exact hnext
    · split
      · exact hnext
      · exact ⟨hs.current, fun peer record hrecord => by simp at hrecord⟩

theorem inCycle_of_run (hrun : Run env.receive ⟨some cycle, ∅⟩ h s)
    (hfrom : Meets (fun _ _ message => FromStreams streams cycle message) h) :
    InCycle streams cycle h s := by
  refine Run.invariant ?_ (fun h s message _ hs hfrom => hs.receive hfrom) hrun hfrom
  exact ⟨rfl, fun peer record hrecord => by simp at hrecord⟩

/-- In every run of one sync cycle whose peers' streams are single chunks or have one id per
chunk, for every order, repetition and interleaving of the chunks: whenever a superset is
reported, at least `minSigners` peers have delivered their whole streams, and the superset
contains all of their ids. -/
theorem superset_complete (hcount : ∀ peer, (streams peer).Countable)
    (hrun : Run env.receive ⟨some cycle, ∅⟩ h s)
    (hfrom : Meets (fun _ _ message => FromStreams streams cycle message) h)
    (hmessage : FromStreams streams cycle message) (habsorb : s.absorb message = some records)
    {superset : List StreamedId}
    (hfound : records.getMinimumSuperset env.minSigners = (true, superset)) :
    ∃ peers : Finset PeerId, env.minSigners ≤ peers.card ∧ ∀ peer ∈ peers,
      ∀ chunk ∈ (streams peer).chunks, Delivered (fire env.receive s message :: h) peer chunk ∧
        ∀ entry ∈ chunk.data, entry ∈ superset := by
  have hs : InCycle streams cycle (fire env.receive s message :: h) { s with records } :=
    (inCycle_of_run hrun hfrom).absorb hmessage habsorb
  unfold SyncRecords.getMinimumSuperset at hfound
  split at hfound
  · cases hfound
  case isFalse hmin =>
    obtain rfl := (Prod.mk.inj hfound).2
    obtain ⟨peers, hcard, hpeers⟩ := records.exists_keys_filter SyncRecords.isComplete
    refine ⟨peers, hcard ▸ Nat.not_lt.mp hmin, fun peer hpeer chunk hchunk => ?_⟩
    obtain ⟨record, hrecord, hmem⟩ := hpeers peer hpeer
    have hwhole := (hs.records peer record hrecord).2.whole (hcount peer)
      (mem_filter.mp hmem).2 chunk hchunk
    refine ⟨hwhole.1, fun entry hentry => mem_dedup.mpr ?_⟩
    exact mem_flatMap.mpr ⟨record, hmem, hwhole.2 entry hentry⟩

end

/-! ## Two streams of four ids -/

/-- The ids of the sample streams: four burns of blocks seven to ten. -/
def streamedId (k : Nat) : StreamedId := (BitVec.ofNat 64 (7 + k), PegoutId.asBytes ⟨BitVec.ofNat 256 k, 0⟩)

/-- Two chunks of two ids. -/
def pairStream : PegoutStream where
  chunks := [⟨[streamedId 0, streamedId 1], 2⟩, ⟨[streamedId 2, streamedId 3], 2⟩]
  total := by decide

/-- Two chunks of one id. -/
def singleStream : PegoutStream where
  chunks := [⟨[streamedId 0], 2⟩, ⟨[streamedId 1], 2⟩]
  total := by decide

/-- A chunk of the first peer in the first cycle. -/
def chunkMessage (data : List StreamedId) : WalletStateMessage := ⟨1, some 1, some ⟨data, 2⟩⟩

/-- A node whose database cannot be read. -/
def blindReader : BlockReader where
  blockByNumber _ := .error ⟨⟩
  transactionsByBlock _ := .error ⟨⟩
  receiptsByBlock _ := .error ⟨⟩
  now := none
  addressFromStr _ := none
  btcNetwork := .bitcoin

/-- Half of a stream is reported as a superset: the first of two chunks has as many ids as
there are chunks. -/
theorem superset_of_half_stream : ∃ records superset,
    (⟨some 1, ∅⟩ : WalletSyncState).absorb (chunkMessage [streamedId 0, streamedId 1]) =
      some records ∧
    records.getMinimumSuperset 1 = (true, superset) ∧
    FromStreams (fun _ => pairStream) 1 (chunkMessage [streamedId 0, streamedId 1]) ∧
    ¬ ∃ peers : Finset PeerId, 1 ≤ peers.card ∧ ∀ peer ∈ peers, ∀ chunk ∈ pairStream.chunks,
      Delivered [fire (WalletSyncEnv.receive ⟨blindReader, 1⟩) ⟨some 1, ∅⟩
        (chunkMessage [streamedId 0, streamedId 1])] peer chunk ∧
      ∀ entry ∈ chunk.data, entry ∈ superset := by
  refine ⟨_, _, rfl, rfl, fun _ => by decide, ?_⟩
  rintro ⟨peers, hcard, hall⟩
  obtain ⟨peer, hpeer⟩ := Finset.card_pos.mp hcard
  obtain ⟨⟨t, ht, -, hchunk⟩, -⟩ := hall peer hpeer ⟨[streamedId 2, streamedId 3], 2⟩ (by decide)
  obtain rfl := mem_singleton.mp ht
  exact absurd hchunk (by decide)

/-- With one id per chunk, the superset is reported with the second chunk and has both
ids. -/
theorem superset_of_single_stream : ∃ peers : Finset PeerId, 1 ≤ peers.card ∧ ∀ peer ∈ peers,
    ∀ chunk ∈ singleStream.chunks, Delivered
      (play (WalletSyncEnv.receive ⟨blindReader, 1⟩) ⟨some 1, ∅⟩
        [chunkMessage [streamedId 1], chunkMessage [streamedId 0]]).1 peer chunk ∧
      ∀ entry ∈ chunk.data, entry ∈ [streamedId 0, streamedId 1] := by
  have hcount : singleStream.Countable := by
    unfold PegoutStream.Countable
    decide
  have hfound : ((play (WalletSyncEnv.receive ⟨blindReader, 1⟩) ⟨some 1, ∅⟩
      [chunkMessage [streamedId 0]]).2.absorb (chunkMessage [streamedId 1])).map
        (·.getMinimumSuperset 1) = some (true, [streamedId 0, streamedId 1]) := by
    decide +kernel
  obtain ⟨records, habsorb, hsuperset⟩ := map_eq_some_iff.mp hfound
  have hfrom : Meets (fun _ _ => FromStreams (fun _ => singleStream) 1)
      (play (WalletSyncEnv.receive ⟨blindReader, 1⟩) ⟨some 1, ∅⟩
        [chunkMessage [streamedId 0]]).1 := ⟨fun _ => by decide, trivial⟩
  exact superset_complete (fun _ => hcount) (.play _) hfrom (fun _ => by decide) habsorb hsuperset

/-! ## The reset at the end of a cycle -/

/-- A superset has an id with a block in which this node finds the pegout. -/
def BlockReader.Confirms (reader : BlockReader) (superset : List StreamedId) (id : PegoutId) : Prop :=
  ∃ entry ∈ superset, PegoutId.fromBytes entry.2 = some id ∧ ∃ pegouts,
    reader.getBlockPegouts (some maxBlockTsCutoffDurationSecs) entry.1 = .ok pegouts ∧
      id ∈ pegouts.map (·.1)

section
variable {reader : BlockReader} {superset : List StreamedId}

theorem mem_hydrateBlock {block : BitVec 64} {found : List (BitVec 64 × PegoutId × BitVec 64)}
    (h : reader.hydrateBlock superset block = .ok found) {id : PegoutId} :
    id ∈ found.map (·.2.1) ↔ ∃ bytes, (block, bytes) ∈ superset ∧
      PegoutId.fromBytes bytes = some id ∧ ∃ pegouts,
        reader.getBlockPegouts (some maxBlockTsCutoffDurationSecs) block = .ok pegouts ∧
          id ∈ pegouts.map (·.1) := by
  obtain ⟨pegouts, hpegouts, h⟩ := bind_eq_ok.mp h
  obtain rfl := ok.inj h
  rw [ofExcept_eq_ok] at hpegouts
  simp only [List.mem_map, List.mem_filterMap, List.mem_filter, decide_eq_true_eq,
    Option.bind_eq_bind, Option.bind_eq_some_iff, Option.pure_def, Option.some.injEq]
  constructor
  · rintro ⟨_, ⟨⟨_, bytes⟩, ⟨hmem, rfl⟩, parsed, hparsed, ⟨id, time⟩, hfind, rfl⟩, rfl⟩
    obtain rfl : id = parsed := by simpa using find?_some hfind
    exact ⟨bytes, hmem, hparsed, pegouts, hpegouts, _, mem_of_find?_eq_some hfind, rfl⟩
  · rintro ⟨bytes, hmem, hparsed, pegouts', hpegouts', pegout, hpegout, rfl⟩
    obtain rfl : pegouts = pegouts' := Except.ok.inj (hpegouts.symm.trans hpegouts')
    obtain ⟨found, hfind⟩ : ∃ found, pegouts.find? (·.1 = pegout.1) = some found :=
      isSome_iff_exists.mp (find?_isSome.mpr ⟨_, hpegout, decide_eq_true rfl⟩)
    exact ⟨(block, found), ⟨_, ⟨hmem, rfl⟩, pegout.1, hparsed, found, hfind, rfl⟩,
      by simpa using find?_some hfind⟩

/-- The ids of the reset request are those the superset confirms. -/
theorem mem_resetRequest {request : List RpcFinalizedPegout}
    (h : reader.resetRequest superset = some request) {id : PegoutId} :
    (∃ p ∈ request, PegoutId.fromBytes p.id = some id) ↔ reader.Confirms superset id := by
  unfold BlockReader.resetRequest at h
  split at h
  case h_2 => cases h
  case h_1 hydrated hhydrate =>
    obtain rfl := some.inj h
    obtain ⟨lists, hlists, hflat⟩ := bind_eq_ok.mp hhydrate
    obtain rfl := ok.inj hflat
    obtain ⟨hback, hforth⟩ := exists_of_mapM_eq_ok hlists
    constructor
    · rintro ⟨p, hp, hid⟩
      obtain ⟨⟨block, id', time⟩, hx, rfl⟩ := mem_map.mp hp
      obtain rfl : id' = id := by simpa [PegoutId.fromBytes_asBytes] using hid
      obtain ⟨found, hfound, hx⟩ := mem_flatten.mp hx
      obtain ⟨b, -, hblock⟩ := hback found hfound
      obtain ⟨bytes, hmem, hrest⟩ := (mem_hydrateBlock hblock).mp (mem_map_of_mem hx)
      exact ⟨_, hmem, hrest⟩
    · rintro ⟨⟨block, bytes⟩, hmem, hrest⟩
      obtain ⟨found, hfound, hblock⟩ := hforth block
        (mem_dedup.mpr (mem_map_of_mem hmem))
      obtain ⟨x, hx, rfl⟩ := mem_map.mp ((mem_hydrateBlock hblock).mpr ⟨bytes, hmem, hrest⟩)
      exact ⟨_, mem_map_of_mem (mem_flatten.mpr ⟨found, hfound, hx⟩),
        PegoutId.fromBytes_asBytes _⟩

/-- Every entry of a reset request has a well-formed id. -/
theorem fromBytes_of_resetRequest {request : List RpcFinalizedPegout}
    (h : reader.resetRequest superset = some request) :
    ∀ p ∈ request, ∃ id, PegoutId.fromBytes p.id = some id := by
  unfold BlockReader.resetRequest at h
  split at h
  case h_2 => cases h
  case h_1 hydrated hhydrate =>
    obtain rfl := some.inj h
    intro p hp
    obtain ⟨x, -, rfl⟩ := mem_map.mp hp
    exact ⟨x.2.1, PegoutId.fromBytes_asBytes _⟩

/-- A well-formed reset leaves exactly its own ids finalized. -/
theorem mem_finalized_resetWalletState (config : Config) (server : Server) (bitcoind : Bitcoind)
    (fuel : Nat) {request : List RpcFinalizedPegout}
    (hids : ∀ p ∈ request, ∃ id, PegoutId.fromBytes p.id = some id) {id : PegoutId} :
    id ∈ (config.step server ⟨.resetWalletState request, bitcoind, fuel⟩).2.db.finalizedPegoutIds ↔
      ∃ p ∈ request, PegoutId.fromBytes p.id = some id := by
  obtain ⟨pegouts, hparse⟩ : ∃ pegouts, (request.mapM fun p => do
      let id ← ofOption (PegoutId.fromBytes p.id) (Status.badPegoutId p.id)
      pure (⟨id, p.botanixBlockHeight, some p.botanixBlockTimestamp⟩ : FinalizedPegout)) =
        .ok pegouts := by
    refine exists_mapM_eq_ok fun p hp => ?_
    obtain ⟨id, hid⟩ := hids p hp
    exact ⟨_, bind_eq_ok.mpr ⟨id, ofOption_eq_ok.mpr hid, rfl⟩⟩
  obtain ⟨hback, hforth⟩ := exists_of_mapM_eq_ok hparse
  have hdb : (config.step server ⟨.resetWalletState request, bitcoind, fuel⟩).2.db =
      server.db.resetFinalizedPegoutIds pegouts := by
    simp only [Config.step, Request.serve, serveResetWalletState, Handler.bind_run,
      Handler.lift_run, hparse]
    rfl
  rw [hdb, Db.resetFinalizedPegoutIds, mem_insertNewAll]
  constructor
  · rintro (hid | hid)
    · obtain ⟨pegout, hpegout, rfl⟩ := mem_map.mp hid
      obtain ⟨p, hp, hparsed⟩ := hback pegout hpegout
      obtain ⟨id, hfrom, heq⟩ := bind_eq_ok.mp hparsed
      obtain rfl := ok.inj heq
      exact ⟨p, hp, ofOption_eq_ok.mp hfrom⟩
    · exact absurd hid (AList.notMem_empty id)
  · rintro ⟨p, hp, hid⟩
    obtain ⟨pegout, hpegout, hparsed⟩ := hforth p hp
    obtain ⟨id', hid', heq⟩ := bind_eq_ok.mp hparsed
    obtain rfl : id = id' := some.inj (hid.symm.trans (ofOption_eq_ok.mp hid'))
    obtain rfl := ok.inj heq
    exact .inl (mem_map_of_mem hpegout)

/-- The reset with a superset keeps every finalized id, and `validate_outputs` keeps refusing
the PSBTs that pay one, exactly when the superset confirms every id this node had finalized. -/
theorem reset_keeps_iff (config : Config) (server : Server) (bitcoind : Bitcoind) (fuel : Nat)
    (btc : BitcoinLib) (lib : SigningLib) {request : List RpcFinalizedPegout}
    (hrequest : reader.resetRequest superset = some request) :
    (∀ id ∈ server.db.finalizedPegoutIds,
      id ∈ (config.step server
        ⟨.resetWalletState request, bitcoind, fuel⟩).2.db.finalizedPegoutIds ∧
      ∀ psbt : Psbt, id ∈ psbt.paidIds → (validateOutputs btc lib psbt (config.step server
        ⟨.resetWalletState request, bitcoind, fuel⟩).2.db).1 ≠ .ok ()) ↔
    ∀ id ∈ server.db.finalizedPegoutIds, reader.Confirms superset id := by
  have hmem := @mem_finalized_resetWalletState config server bitcoind fuel request
    (fromBytes_of_resetRequest hrequest)
  constructor
  · intro hkeeps id hid
    exact (mem_resetRequest hrequest).mp (hmem.mp (hkeeps id hid).1)
  · intro hconfirms id hid
    have hkept := hmem.mpr ((mem_resetRequest hrequest).mpr (hconfirms id hid))
    exact ⟨hkept, fun psbt hpaid => validateOutputs_ne_ok hpaid hkept⟩

end

/-! ## A node ahead of its peer -/

/-- A chain whose block seven holds the transaction that burned twice. -/
def burnReader : BlockReader where
  blockByNumber n := .ok (if n = 7 then some ⟨7, 1700000000, true⟩ else none)
  transactionsByBlock n := .ok (if n = 7 then some [sampleBurnTx] else none)
  receiptsByBlock n := .ok (if n = 7 then some [⟨true, [sampleBurn, sampleBurn]⟩] else none)
  now := some 1700003600
  addressFromStr := sampleAddressFromStr
  btcNetwork := .bitcoin

def firstBurn : PegoutId := ⟨sampleBurnTx, 0⟩

def secondBurn : PegoutId := ⟨sampleBurnTx, 1⟩

/-- A signer that has finalized both burns. -/
def paidServer : Server := firstSigner.start { freshDb with
  finalizedPegoutIds := FinMap.ofList [(firstBurn, ⟨firstBurn, 7, some 1700000000⟩),
    (secondBurn, ⟨secondBurn, 7, some 1700000000⟩)] }

/-- A peer's whole stream, in one chunk. -/
def peerStream (ids : List PegoutId) : WalletStateMessage :=
  ⟨1, some 1, some ⟨ids.map fun id => (7, id.asBytes), 1⟩⟩

/-- The signer after the reset with a peer's stream. -/
def resetServer (request : List RpcFinalizedPegout) : Server :=
  (firstSigner.step paidServer ⟨.resetWalletState request, unreachable, 0⟩).2

/-- The peer has not finalized the first burn yet: after the sync this node has forgotten
it, and the PSBT that pays it again passes `validate_outputs`. -/
theorem reset_forgets_payment : ∃ request,
    (WalletSyncEnv.receive ⟨burnReader, 1⟩ ⟨some 1, ∅⟩ (peerStream [secondBurn])).1 =
      some request ∧
    firstBurn ∈ paidServer.db.finalizedPegoutIds ∧
    firstBurn ∉ (resetServer request).db.finalizedPegoutIds ∧
    firstBurn ∈ (paymentPsbt firstCoin []).paidIds ∧
    (validateOutputs firstSigner.btc firstSigner.lib (paymentPsbt firstCoin [])
      paidServer.db).1 = .err (.alreadyFinalizedPegouts [firstBurn]) ∧
    (validateOutputs firstSigner.btc firstSigner.lib (paymentPsbt firstCoin [])
      (resetServer request).db).1 = .ok () := by
  refine ⟨[⟨secondBurn.asBytes, 7, 1700000000⟩], ?_⟩
  decide +kernel

/-- A peer that has finalized both: the sync forgets nothing. -/
theorem reset_keeps_confirmed :
    burnReader.resetRequest [(7, firstBurn.asBytes), (7, secondBurn.asBytes)] =
      some [⟨firstBurn.asBytes, 7, 1700000000⟩, ⟨secondBurn.asBytes, 7, 1700000000⟩] ∧
    ∀ id ∈ paidServer.db.finalizedPegoutIds,
      id ∈ (resetServer [⟨firstBurn.asBytes, 7, 1700000000⟩,
        ⟨secondBurn.asBytes, 7, 1700000000⟩]).db.finalizedPegoutIds ∧
      ∀ psbt : Psbt, id ∈ psbt.paidIds → (validateOutputs firstSigner.btc firstSigner.lib psbt
        (resetServer [⟨firstBurn.asBytes, 7, 1700000000⟩,
          ⟨secondBurn.asBytes, 7, 1700000000⟩]).db).1 ≠ .ok () := by
  have hrequest : burnReader.resetRequest [(7, firstBurn.asBytes), (7, secondBurn.asBytes)] =
      some [⟨firstBurn.asBytes, 7, 1700000000⟩, ⟨secondBurn.asBytes, 7, 1700000000⟩] := by
    decide +kernel
  refine ⟨hrequest, (reset_keeps_iff firstSigner paidServer unreachable 0 _ _ hrequest).mpr ?_⟩
  have hpegouts : burnReader.getBlockPegouts (some maxBlockTsCutoffDurationSecs) 7 =
      .ok [(firstBurn, 1700000000), (secondBurn, 1700000000)] := by decide +kernel
  have hids : ∀ id ∈ paidServer.db.finalizedPegoutIds.keys, id = firstBurn ∨ id = secondBurn := by
    decide +kernel
  intro id hid
  rcases hids id hid with rfl | rfl
  · exact ⟨_, mem_cons_self, PegoutId.fromBytes_asBytes _, _, hpegouts, by decide⟩
  · exact ⟨_, mem_cons_of_mem _ mem_cons_self, PegoutId.fromBytes_asBytes _, _, hpegouts,
      by decide⟩

/-- Whatever peers send and whatever is recorded of them: after the reset that a message causes,
every id this node takes for finalized is a pegout of a block of its own chain. -/
theorem reset_sound {env : WalletSyncEnv} {s : WalletSyncState} {message : WalletStateMessage}
    {request : List RpcFinalizedPegout} (hreceive : (env.receive s message).1 = some request)
    (config : Config) (server : Server) (bitcoind : Bitcoind) (fuel : Nat) :
    ∀ id ∈ (config.step server ⟨.resetWalletState request, bitcoind, fuel⟩).2.db.finalizedPegoutIds,
      ∃ block pegouts, env.reader.getBlockPegouts (some maxBlockTsCutoffDurationSecs) block =
        .ok pegouts ∧ id ∈ pegouts.map (·.1) := by
  intro id hid
  obtain ⟨superset, hrequest⟩ : ∃ superset, env.reader.resetRequest superset = some request := by
    unfold WalletSyncEnv.receive at hreceive
    grind
  obtain ⟨entry, -, -, pegouts, hpegouts, hmem⟩ := (mem_resetRequest hrequest).mp
    ((mem_finalized_resetWalletState config server bitcoind fuel
      (fromBytes_of_resetRequest hrequest)).mp hid)
  exact ⟨entry.1, pegouts, hpegouts, hmem⟩

theorem second_burn_sound : ∃ block pegouts,
    burnReader.getBlockPegouts (some maxBlockTsCutoffDurationSecs) block = .ok pegouts ∧
      secondBurn ∈ pegouts.map (·.1) := by
  have hreceive : (WalletSyncEnv.receive ⟨burnReader, 1⟩ ⟨some 1, ∅⟩
      (peerStream [secondBurn])).1 = some [⟨secondBurn.asBytes, 7, 1700000000⟩] := by decide +kernel
  exact reset_sound hreceive firstSigner paidServer unreachable 0 secondBurn (by decide +kernel)

end Macbeth
