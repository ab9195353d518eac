import Macbeth.Authority.WalletSyncSafety

/-!
# Cycles of the wallet state sync (`wallet_state_sync.rs`)

At an epoch block the node draws a uuid, has its peers asked, and makes the uuid the one of the
current cycle.  Answers are handled by another task:

1. an answer with another uuid than the current one is ignored;
2. the first answer of a peer makes a record with the uuid of that time;
3. a later answer is appended, but ignored if the record has another uuid;
4. records are removed only after a superset was found and hydrated.

So a peer that answered in a cycle without a superset has a record that shuts out its answers in
all later cycles (`new_cycle_recorded_iff`).
-/

namespace Macbeth

open Outcome List Option AList

/-- What happens to the two tasks of `sync_wallet_state`. -/
inductive SyncEvent where
  /-- An epoch block: a new uuid is drawn and sent to the frost manager. -/
  | epoch (uuid : Uuid)
  /-- The current response cycle is replaced by the uuid that was sent. -/
  | replaceCycle
  | message (message : WalletStateMessage)
  /-- The node restarts; only the records are in the database. -/
  | restart
  deriving DecidableEq, Repr

/-- The state of both tasks; `sent` is a uuid that is sent and not yet the current one. -/
structure SyncTasks where
  sync : WalletSyncState
  sent : Option Uuid

namespace SyncTasks

/-- Before anything happened. -/
def fresh : SyncTasks := ⟨⟨none, ∅⟩, none⟩

/-- `current_response_cycle.write().await.replace(uuid)`. -/
def replaceCycle (s : SyncTasks) : SyncTasks :=
  ⟨{ s.sync with currentResponseCycle := s.sent.or s.sync.currentResponseCycle }, none⟩

end SyncTasks

abbrev CycleHistory := History SyncTasks SyncEvent (Option (List RpcFinalizedPegout))

/-- One event; the output is the reset request that is sent to btc-server. -/
def WalletSyncEnv.handle (env : WalletSyncEnv) (s : SyncTasks) :
    SyncEvent → Option (List RpcFinalizedPegout) × SyncTasks
  -- the canonical task is sequential: it has replaced the cycle before it sees the next block
  | .epoch uuid => (none, { s.replaceCycle with sent := some uuid })
  | .replaceCycle => (none, s.replaceCycle)
  | .message message =>
    ((env.receive s.sync message).1, { s with sync := (env.receive s.sync message).2 })
  | .restart => (none, ⟨{ s.sync with currentResponseCycle := none }, none⟩)

/-! ## What a history tells -/

namespace CycleHistory

/-- The uuid of the last epoch block since the node started. -/
def issued : CycleHistory → Option Uuid
  | [] => none
  | t :: h => match t.input with
    | .epoch uuid => some uuid
    | .restart => none
    | _ => issued h

/-- A superset was reported since the last epoch block. -/
def supersetFound : CycleHistory → Bool
  | [] => false
  | t :: h => match t.input with
    | .epoch _ => false
    | _ => t.output.isSome || supersetFound h

/-- The last epoch block ended a cycle in which no superset was found. -/
def FollowsFailedCycle : CycleHistory → Prop
  | [] => False
  | t :: h => match t.input with
    | .epoch _ => (issued h).isSome = true ∧ supersetFound h = false
    | .restart => False
    | _ => FollowsFailedCycle h

/-- The message is one of the cycle that is current in a state. -/
def OfCycle (s : SyncTasks) (message : WalletStateMessage) : Bool :=
  message.chunk.isSome && message.uuid.isSome && message.uuid == s.sync.currentResponseCycle

/-- The cycle of the first answer of a peer since the records were last removed. -/
def answeredIn (peer : PeerId) : CycleHistory → Option Uuid
  | [] => none
  | t :: h =>
    if t.output.isSome then none
    else match t.input with
      | .message message =>
        if message.peer = peer ∧ OfCycle t.pre message = true then
          (answeredIn peer h).or message.uuid
        else answeredIn peer h
      | _ => answeredIn peer h

end CycleHistory

/-! ## Appending a chunk -/

/-- Every entry of a chunk is in the record already, or shares neither its block nor its id with
an entry before it. -/
def FitsRecord : (entries data : List StreamedId) → Prop
  | _, [] => True
  | entries, entry :: data =>
    (entry ∈ entries ∨ ∀ old ∈ entries, old.2 ≠ entry.2 ∧ old.1 ≠ entry.1) ∧
      FitsRecord (entries ++ [entry]) data

section
variable {record : WalletStateSyncRecord} {entry old : StreamedId} {data : List StreamedId}

/-- Without a clash the entry is added. -/
theorem addDataIfNotExists_of_free (h : ∀ old ∈ record.entries, old.2 ≠ entry.2 ∧ old.1 ≠ entry.1) :
    record.addDataIfNotExists entry = { record with entries := record.entries ++ [entry] } := by
  have hids : (record.entries.any fun old => old.2 = entry.2) = false := by
    simpa using fun a b hmem => (h (a, b) hmem).1
  have hblocks : (record.entries.any fun old => old.1 = entry.1) = false := by
    simpa using fun a b hmem => (h (a, b) hmem).2
  simp [WalletStateSyncRecord.addDataIfNotExists, hids, hblocks]

/-- With a clash it is not. -/
theorem addDataIfNotExists_of_clash (hold : old ∈ record.entries)
    (hclash : old.2 = entry.2 ∨ old.1 = entry.1) : record.addDataIfNotExists entry = record := by
  unfold WalletStateSyncRecord.addDataIfNotExists
  rcases hclash with hid | hblock
  · rw [if_pos (any_eq_true.mpr ⟨old, hold, by simpa using hid⟩)]
  · have hany : (record.entries.any fun old => old.1 = entry.1) = true :=
      any_eq_true.mpr ⟨old, hold, by simpa using hblock⟩
    rw [hany, if_pos rfl, ite_self]

theorem mem_addDataIfNotExists (h : old ∈ record.entries) (entry : StreamedId) :
    old ∈ (record.addDataIfNotExists entry).entries := by
  rcases addDataIfNotExists_cases record entry with heq | ⟨-, heq⟩
  · rwa [heq]
  · rw [heq]
    exact mem_append_left _ h

theorem mem_foldl_addDataIfNotExists (data : List StreamedId) :
    ∀ {record : WalletStateSyncRecord}, entry ∈ record.entries →
      entry ∈ (data.foldl WalletStateSyncRecord.addDataIfNotExists record).entries := by
  induction data with
  | nil => exact fun h => h
  | cons next data ih => exact fun h => ih (mem_addDataIfNotExists h next)

/-- An entry that clashes is never added. -/
theorem not_mem_foldl_of_clash (data : List StreamedId) :
    ∀ {record : WalletStateSyncRecord}, old ∈ record.entries → entry ∉ record.entries →
      (old.2 = entry.2 ∨ old.1 = entry.1) →
      entry ∉ (data.foldl WalletStateSyncRecord.addDataIfNotExists record).entries := by
  induction data with
  | nil => exact fun _ hnew _ => hnew
  | cons next data ih =>
    intro record hold hnew hclash
    refine ih (mem_addDataIfNotExists hold next) ?_ hclash
    by_cases heq : next = entry
    · rw [heq, addDataIfNotExists_of_clash hold hclash]
      exact hnew
    · rcases addDataIfNotExists_cases record next with h | ⟨-, h⟩
      · rwa [h]
      · rw [h, mem_append, mem_singleton]
        exact fun hmem => hmem.elim hnew fun h => heq h.symm

/-- A chunk is appended as a whole exactly if it fits. -/
theorem forall_mem_foldl_iff (data : List StreamedId) :
    ∀ {record : WalletStateSyncRecord} {entries : List StreamedId},
      (∀ x, x ∈ record.entries ↔ x ∈ entries) →
      ((∀ x ∈ data, x ∈ (data.foldl WalletStateSyncRecord.addDataIfNotExists record).entries) ↔
        FitsRecord entries data) := by
  induction data with
  | nil => simp [FitsRecord]
  | cons entry data ih =>
    intro record entries hsame
    by_cases hfree : entry ∈ entries ∨ ∀ old ∈ entries, old.2 ≠ entry.2 ∧ old.1 ≠ entry.1
    · have hsame' : ∀ x, x ∈ (record.addDataIfNotExists entry).entries ↔ x ∈ entries ++ [entry] := by
        intro x
        rcases hfree with hmem | hfree
        · rw [addDataIfNotExists_of_clash ((hsame entry).mpr hmem) (.inl rfl), hsame]
          simp only [mem_append, mem_singleton]
          exact ⟨.inl, fun h => h.elim id fun h => h ▸ hmem⟩
        · rw [addDataIfNotExists_of_free fun old hold => hfree old ((hsame old).mp hold)]
          simp [hsame]
      have hentry := mem_foldl_addDataIfNotExists data ((hsame' entry).mpr (by simp))
      rw [foldl_cons, forall_mem_cons, FitsRecord, ← ih hsame']
      exact and_congr (iff_of_true hentry hfree) Iff.rfl
    · refine iff_of_false (fun hall => ?_) (fun hfits => hfree hfits.1)
      simp only [not_or, not_forall, not_and_or, ne_eq, not_not] at hfree
      obtain ⟨hnew, old, hold, hclash⟩ := hfree
      exact not_mem_foldl_of_clash (entry :: data) ((hsame old).mpr hold)
        (fun h => hnew ((hsame entry).mp h)) hclash (hall entry mem_cons_self)

end

/-! ## Recording an answer -/

/-- An answer is recorded for a cycle: the records that are then searched for a superset have
all its entries in a record of the cycle. -/
def SyncTasks.Recorded (s : SyncTasks) (message : WalletStateMessage) (uuid : Uuid)
    (chunk : PegoutIdsChunk) : Prop :=
  ∃ records record, s.sync.absorb message = some records ∧
    records.lookup message.peer = some record ∧ record.uuid = uuid ∧
    ∀ entry ∈ chunk.data, entry ∈ record.entries

section
variable {s : WalletSyncState} {message : WalletStateMessage} {uuid : Uuid}
  {chunk : PegoutIdsChunk} {records : SyncRecords}

/-- When a message is not skipped. -/
theorem absorb_eq_some_iff : s.absorb message = some records ↔
    ∃ uuid chunk, message.uuid = some uuid ∧ message.chunk = some chunk ∧
      s.currentResponseCycle = some uuid ∧
      ((∃ record, s.records.lookup message.peer = some record ∧ record.uuid = uuid ∧
          s.records.appendDataToStateSyncRecord message.peer chunk.data = records) ∨
        s.records.lookup message.peer = none ∧
          s.records.createNewStateSyncRecord uuid message.peer chunk.totalChunks chunk.data =
            records) := by
  obtain ⟨peer, _ | requestUuid, _ | chunk⟩ := message
  case some.some =>
    obtain ⟨_ | current, table⟩ := s
    · simp [WalletSyncState.absorb]
    · by_cases hcycle : current = requestUuid
      · subst hcycle
        cases hlookup : table.lookup peer with
        | none => simp [WalletSyncState.absorb, hlookup]
        | some record =>
          by_cases huuid : record.uuid = current <;> simp [WalletSyncState.absorb, hlookup, huuid]
      · simp [WalletSyncState.absorb, hcycle]
  all_goals simp [WalletSyncState.absorb]

theorem appendData_of_lookup {peer : PeerId} {record : WalletStateSyncRecord}
    (h : s.records.lookup peer = some record) (data : List StreamedId) :
    s.records.appendDataToStateSyncRecord peer data =
      s.records.insert peer (data.foldl WalletStateSyncRecord.addDataIfNotExists record) := by
  simp only [SyncRecords.appendDataToStateSyncRecord, h]

variable {sent : Option Uuid}

/-- An answer is recorded in the current cycle, by a peer without a record of another cycle,
if it fits the record. -/
theorem recorded_iff (huuid : message.uuid = some uuid) (hchunk : message.chunk = some chunk) :
    SyncTasks.Recorded ⟨s, sent⟩ message uuid chunk ↔
      s.currentResponseCycle = some uuid ∧
      ∀ record, s.records.lookup message.peer = some record →
        record.uuid = uuid ∧ FitsRecord record.entries chunk.data := by
  constructor
  · intro h
    obtain ⟨records, found, habsorb, hfound, hcycle, hall⟩ := h
    obtain ⟨uuid', chunk', huuid', hchunk', hcurrent, hcases⟩ := absorb_eq_some_iff.mp habsorb
    obtain rfl := some.inj (huuid.symm.trans huuid')
    obtain rfl := some.inj (hchunk.symm.trans hchunk')
    refine ⟨hcurrent, ?_⟩
    intro record hlookup
    rcases hcases with ⟨record', hlookup', hrecord, rfl⟩ | ⟨hnone, -⟩
    · obtain rfl := some.inj (hlookup.symm.trans hlookup')
      rw [appendData_of_lookup hlookup, lookup_insert] at hfound
      rw [← some.inj hfound] at hall
      exact ⟨hrecord, (forall_mem_foldl_iff chunk.data fun x => Iff.rfl).mp hall⟩
    · rw [hnone] at hlookup
      cases hlookup
  · intro h
    obtain ⟨hcurrent, hrecord⟩ := h
    cases hlookup : s.records.lookup message.peer with
    | none =>
      refine ⟨_, ⟨uuid, chunk.data, chunk.totalChunks⟩, absorb_eq_some_iff.mpr
        ⟨uuid, chunk, huuid, hchunk, hcurrent, .inr ⟨hlookup, rfl⟩⟩, ?_, rfl, fun _ h => h⟩
      exact lookup_insert _
    | some record =>
      obtain ⟨hcycle, hfits⟩ := hrecord record hlookup
      refine ⟨_, chunk.data.foldl WalletStateSyncRecord.addDataIfNotExists record,
        absorb_eq_some_iff.mpr
          ⟨uuid, chunk, huuid, hchunk, hcurrent, .inl ⟨record, hlookup, hcycle, rfl⟩⟩, ?_, ?_, ?_⟩
      · rw [appendData_of_lookup hlookup, lookup_insert]
      · rw [foldl_addDataIfNotExists_uuid, hcycle]
      · exact (forall_mem_foldl_iff chunk.data fun x => Iff.rfl).mpr hfits

/-! ## Records along a run -/

/-- The cycles of the records after an answer: only the first answer of a peer makes one. -/
theorem uuid_of_absorb (h : s.absorb message = some records) (peer : PeerId) :
    (records.lookup peer).map (·.uuid) =
      if message.peer = peer then ((s.records.lookup peer).map (·.uuid)).or message.uuid
      else (s.records.lookup peer).map (·.uuid) := by
  obtain ⟨uuid, chunk, huuid, hchunk, hcurrent, hcases⟩ := absorb_eq_some_iff.mp h
  by_cases hpeer : message.peer = peer
  · subst hpeer
    rw [if_pos rfl]
    rcases hcases with ⟨record, hlookup, hrecord, rfl⟩ | ⟨hnone, rfl⟩
    · rw [appendData_of_lookup hlookup, lookup_insert, hlookup]
      simp [foldl_addDataIfNotExists_uuid]
    · simp [SyncRecords.createNewStateSyncRecord, hnone, huuid]
  · rw [if_neg hpeer]
    rcases hcases with ⟨record, hlookup, hrecord, rfl⟩ | ⟨hnone, rfl⟩
    · rw [appendData_of_lookup hlookup, lookup_insert_ne (Ne.symm hpeer)]
    · rw [SyncRecords.createNewStateSyncRecord, lookup_insert_ne (Ne.symm hpeer)]

/-- An answer of the current cycle is skipped only if its peer has a record. -/
theorem absorb_ne_none (hcycle : CycleHistory.OfCycle ⟨s, sent⟩ message = true)
    (hnone : s.records.lookup message.peer = none) : s.absorb message ≠ none := by
  simp only [CycleHistory.OfCycle, Bool.and_eq_true, beq_iff_eq, isSome_iff_exists] at hcycle
  obtain ⟨⟨⟨chunk, hchunk⟩, uuid, huuid⟩, hcurrent⟩ := hcycle
  rw [absorb_eq_some_iff.mpr ⟨uuid, chunk, huuid, hchunk, hcurrent.symm.trans huuid,
    .inr ⟨hnone, rfl⟩⟩]
  exact some_ne_none _

theorem ofCycle_of_absorb (h : s.absorb message = some records) :
    CycleHistory.OfCycle ⟨s, sent⟩ message = true := by
  obtain ⟨uuid, chunk, huuid, hchunk, hcurrent, -⟩ := absorb_eq_some_iff.mp h
  simp [CycleHistory.OfCycle, huuid, hchunk, hcurrent]

/-- What a message does: it is skipped, it is recorded, or the records are removed. -/
theorem WalletSyncEnv.receive_cases (env : WalletSyncEnv) (s : WalletSyncState)
    (message : WalletStateMessage) :
    (s.absorb message = none ∧ env.receive s message = (none, s)) ∨
      (∃ records, s.absorb message = some records ∧
        env.receive s message = (none, { s with records })) ∨
      ∃ request, env.receive s message = (some request, { s with records := ∅ }) := by
  unfold WalletSyncEnv.receive
  split
  · next habsorb => exact .inl ⟨habsorb, rfl⟩
  · next records habsorb =>
    split
    · exact .inr (.inl ⟨records, habsorb, rfl⟩)
    · split
      · exact .inr (.inl ⟨records, habsorb, rfl⟩)
      · next request _ => exact .inr (.inr ⟨request, rfl⟩)

end

open CycleHistory

theorem answeredIn_message (peer : PeerId) (pre post : SyncTasks) (message : WalletStateMessage)
    (output : Option (List RpcFinalizedPegout)) (h : CycleHistory) :
    answeredIn peer (⟨pre, .message message, output, post⟩ :: h) =
      if output.isSome then none
      else if message.peer = peer ∧ OfCycle pre message = true then
        (answeredIn peer h).or message.uuid
      else answeredIn peer h :=
  rfl

/-- The record of a peer is of the cycle of its first answer since records were removed. -/
theorem uuid_eq_answeredIn {env : WalletSyncEnv} {h : CycleHistory} {s : SyncTasks}
    (hrun : Run env.handle .fresh h s) (peer : PeerId) :
    (s.sync.records.lookup peer).map (·.uuid) = answeredIn peer h := by
  induction hrun with
  | start => rfl
  | @next h s event _ ih =>
    cases event with
    | epoch uuid => exact ih
    | replaceCycle => exact ih
    | restart => exact ih
    | message message =>
      -- the output and the next state of the message are those of `receive`
      show ((env.receive s.sync message).2.records.lookup peer).map (·.uuid) =
        answeredIn peer (⟨s, .message message, (env.receive s.sync message).1, _⟩ :: h)
      rw [answeredIn_message, ← ih]
      rcases env.receive_cases s.sync message with
        ⟨hskip, hreceive⟩ | ⟨records, habsorb, hreceive⟩ | ⟨request, hreceive⟩
      · rw [hreceive, isSome_none, if_neg Bool.false_ne_true]
        split
        · next hcycle =>
          obtain ⟨rfl, hcycle⟩ := hcycle
          have hsome : s.sync.records.lookup message.peer ≠ none :=
            fun hnone => absorb_ne_none hcycle hnone hskip
          obtain ⟨record, hrecord⟩ := ne_none_iff_exists'.mp hsome
          simp [hrecord]
        · rfl
      · rw [hreceive, isSome_none, if_neg Bool.false_ne_true,
          uuid_of_absorb habsorb peer, ofCycle_of_absorb habsorb]
        simp
      · rw [hreceive, isSome_some, if_pos rfl]
        rfl

/-- After any run, an answer is recorded for its cycle exactly if the cycle has been made the
current one, the first answer of the peer since records were removed was in no other cycle, and
the answer fits what is recorded of the peer. -/
theorem WalletSyncEnv.new_cycle_recorded_iff (env : WalletSyncEnv) {h : CycleHistory}
    {s : SyncTasks} (hrun : Run env.handle .fresh h s) {message : WalletStateMessage} {uuid : Uuid}
    {chunk : PegoutIdsChunk} (huuid : message.uuid = some uuid)
    (hchunk : message.chunk = some chunk) :
    s.Recorded message uuid chunk ↔
      s.sync.currentResponseCycle = some uuid ∧
      (∀ first ∈ answeredIn message.peer h, first = uuid) ∧
      ∀ record, s.sync.records.lookup message.peer = some record →
        FitsRecord record.entries chunk.data := by
  have hanswered := uuid_eq_answeredIn hrun message.peer
  rw [show s.Recorded message uuid chunk ↔ _ from recorded_iff huuid hchunk, ← hanswered]
  cases s.sync.records.lookup message.peer <;> simp

/-! ## A peer that answers twice -/

/-- A node that needs the records of two peers. -/
def cycleEnv : WalletSyncEnv := ⟨burnReader, 2⟩

def onlyChunk : PegoutIdsChunk := ⟨[(5, [1])], 1⟩

/-- The whole answer of a peer in a cycle. -/
def answer (peer : PeerId) (uuid : Uuid) : WalletStateMessage := ⟨peer, some uuid, some onlyChunk⟩

/-- One peer answers in the first cycle, and the second cycle is started. -/
def secondCycle (peer : PeerId) : CycleHistory × SyncTasks :=
  play cycleEnv.handle .fresh
    [.replaceCycle, .epoch 2, .message (answer peer 1), .replaceCycle, .epoch 1]

/-- Another peer that answers then is recorded. -/
theorem other_peer_recorded :
    FollowsFailedCycle (secondCycle 8).1 ∧ issued (secondCycle 8).1 = some 2 ∧
    (secondCycle 8).2.Recorded (answer 7 2) 2 onlyChunk := by
  have hnone : (secondCycle 8).2.sync.records.lookup 7 = none :=
    isNone_iff_eq_none.mp (by decide +kernel)
  have hrun : Run cycleEnv.handle .fresh (secondCycle 8).1 (secondCycle 8).2 := Run.play _
  have huuid : (answer 7 2).uuid = some 2 := rfl
  refine ⟨⟨rfl, by decide +kernel⟩, rfl,
    (cycleEnv.new_cycle_recorded_iff hrun huuid rfl).mpr ⟨rfl, ?_, ?_⟩⟩
  · have hanswered : answeredIn 7 (secondCycle 8).1 = none := by decide +kernel
    intro first hfirst
    cases hanswered.symm.trans hfirst
  · intro record hrecord
    cases hnone.symm.trans hrecord

/-- The peer that answered before is not, although its answer is one of the new cycle. -/
theorem same_peer_unrecorded :
    Run cycleEnv.handle .fresh (secondCycle 7).1 (secondCycle 7).2 ∧
    FollowsFailedCycle (secondCycle 7).1 ∧ issued (secondCycle 7).1 = some 2 ∧
    (secondCycle 7).2.sync.currentResponseCycle = some 2 ∧
    ¬ (secondCycle 7).2.Recorded (answer 7 2) 2 onlyChunk := by
  refine ⟨Run.play _, ⟨rfl, by decide +kernel⟩, rfl, rfl, ?_⟩
  intro h
  obtain ⟨records, record, habsorb, -⟩ := h
  have hskip : ((secondCycle 7).2.sync.absorb (answer 7 2)).isNone = true := by decide +kernel
  rw [habsorb] at hskip
  cases hskip

end Macbeth
