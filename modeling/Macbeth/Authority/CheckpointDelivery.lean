import Macbeth.Authority.FrostTask

/-!
# Delivery of committed blocks

A staged header is only removed by a successful submission (`submitted_of_removed`).  That it
is submitted at all rests on an invariant: a staged header is in the channel, among the
headers being retried, or the flag to look for staged headers is set.  Every step keeps it
but one, a commit into a full channel: the displaced notification leaves its header staged
and the flag unset.  Without such a commit every staged header is handed over within one
round of the task's loop.

The order of the deliveries is that of the block numbers as long as the task only hands over
the lowest staged header; after a failed submission it goes on with the next notification.
-/

namespace Macbeth

open List Option FinMap AList

namespace FrostTask

section
variable {H : Type}

/-- The blocks the task has been told of. -/
def waiting (s : FrostTask H) : List (CommittedBlock H) := s.point.rest ++ s.notifications

@[simp] theorem staged_advance (s : FrostTask H) : s.advance.staged = s.staged := by
  unfold advance
  split <;> rfl

@[simp] theorem staged_turn (s : FrostTask H) (syncing : Bool) :
    (s.turn syncing).staged = s.staged := by
  unfold turn
  repeat' split
  all_goals rfl

@[simp] theorem staged_notifyCanonState (s : FrostTask H) (block : CommittedBlock H) :
    (s.notifyCanonState block).staged = s.staged := by
  unfold notifyCanonState
  split <;> rfl

@[simp] theorem checkStagedHeaders_notifyCanonState (s : FrostTask H) (block : CommittedBlock H) :
    (s.notifyCanonState block).checkStagedHeaders = s.checkStagedHeaders := by
  unfold notifyCanonState
  split <;> rfl

theorem mem_waiting_of_notifyCanonState {s : FrostTask H} {block b : CommittedBlock H}
    (h : b ∈ (s.notifyCanonState block).waiting) : b ∈ s.waiting ∨ b = block := by
  simp only [waiting, mem_append]
  unfold notifyCanonState at h
  split at h
  · simp only [waiting, mem_append, mem_singleton] at h
    tauto
  · simp only [waiting, mem_append, mem_singleton] at h
    have := fun h : b ∈ s.notifications.tail => mem_of_mem_tail h
    tauto

/-- Taking up a block takes it off the waiting ones. -/
theorem waiting_of_next {s : FrostTask H} {block : CommittedBlock H} (h : s.next = some block) :
    s.waiting = block :: s.advance.waiting ∧ s.point ≠ .top ∧ s.advance.point ≠ .top ∧
      s.advance.checkStagedHeaders = s.checkStagedHeaders ∧ s.advance.lagged = s.lagged := by
  obtain ⟨staged, notifications, lagged, flag, point⟩ := s
  cases point with
  | top => cases h
  | retrying rest =>
    cases rest with
    | nil => cases h
    | cons b rest =>
      obtain rfl : b = block := by simpa [next] using h
      simp [waiting, advance, TaskPoint.rest]
  | receiving =>
    cases lagged with
    | true => simp [next] at h
    | false =>
      cases notifications with
      | nil => simp [next] at h
      | cons b rest =>
        obtain rfl : b = block := by simpa [next] using h
        simp [waiting, advance, TaskPoint.rest]

/-- When there is no block to take up, the task is at the top of its loop, or it ends one of
the inner loops. -/
theorem turn_of_next_none {s : FrostTask H} (h : s.next = none) (hcurrent : s.lagged = false)
    (syncing : Bool) :
    (s.point = .top ∧ syncing = true ∧ s.turn syncing = s) ∨
    (s.point = .top ∧ syncing = false ∧ s.checkStagedHeaders = true ∧
      s.turn syncing = { s with checkStagedHeaders := false, point := .retrying s.sortedHeaders }) ∨
    (s.point = .top ∧ syncing = false ∧ s.checkStagedHeaders = false ∧
      s.turn syncing = { s with point := .receiving }) ∨
    (s.point = .retrying [] ∧ s.turn syncing = { s with point := .receiving }) ∨
    (s.point = .receiving ∧ s.waiting = [] ∧ s.turn syncing = { s with point := .top }) := by
  obtain ⟨staged, notifications, lagged, flag, point⟩ := s
  obtain rfl : lagged = false := hcurrent
  cases point with
  | top => cases syncing <;> cases flag <;> simp [turn]
  | retrying rest =>
    obtain rfl : rest = [] := by simpa [next] using h
    simp [turn]
  | receiving =>
    obtain rfl : notifications = [] := by simpa [next] using h
    simp [turn, waiting, TaskPoint.rest]

end

section
variable {H : Type} [DecidableEq H] {s : FrostTask H} {event : FrostEvent H} {hash : H}
  {block : CommittedBlock H} {answers : Nat → Bool}

/-- The submission of a block whose extra data decodes. -/
theorem handleCanonStateCommit_of_isSome (h : block.bitcoinBlockHash.isSome) :
    s.handleCanonStateCommit block answers =
      if retryExec answers then
        (some (block, true), { s with staged := s.staged.erase block.hash })
      else (some (block, false), { s with checkStagedHeaders := true }) := by
  obtain ⟨_, hsome⟩ := isSome_iff_exists.mp h
  rw [handleCanonStateCommit, hsome]

theorem step_task_of_none (h : s.next = none) (syncing : Bool) :
    s.step (.task syncing answers) = (none, s.turn syncing) := by
  simp only [step, h]

theorem step_task_of_some (h : s.next = some block) (syncing : Bool) :
    s.step (.task syncing answers) = s.advance.handleCanonStateCommit block answers := by
  simp only [step, h]

@[simp] theorem step_submitThenCrash : (s.step (.submitThenCrash answers)).2 = start s.staged := by
  unfold step
  cases s.next <;> rfl

/-- The submission of a block either fails and leaves the staged headers as they are, or it
returns `Ok` and removes the header. -/
theorem handleCanonStateCommit_cases (s : FrostTask H) (block : CommittedBlock H)
    (answers : Nat → Bool) :
    ((∀ b, (s.handleCanonStateCommit block answers).1 ≠ some (b, true)) ∧
      (s.handleCanonStateCommit block answers).2.staged = s.staged) ∨
    (retryExec answers = true ∧
      (s.handleCanonStateCommit block answers).1 = some (block, true) ∧
      (s.handleCanonStateCommit block answers).2.staged = s.staged.erase block.hash) := by
  unfold handleCanonStateCommit
  split
  · simp
  · split <;> simp_all

/-- A header leaves the staging table with the submission of its block. -/
theorem submitted_of_removed (hstaged : hash ∈ s.staged) (hgone : hash ∉ (s.step event).2.staged) :
    ∃ block, (s.step event).1 = some (block, true) ∧ block.hash = hash := by
  cases event with
  | commit block =>
    refine absurd ?_ hgone
    simp only [step, staged_notifyCanonState, insertStagedHeader]
    exact mem_insert _ |>.mpr (.inr hstaged)
  | commitThenCrash block =>
    refine absurd ?_ hgone
    simp only [step, start, insertStagedHeader]
    exact mem_insert _ |>.mpr (.inr hstaged)
  | task syncing answers =>
    cases hnext : s.next with
    | none =>
      rw [step_task_of_none hnext, staged_turn] at hgone
      exact absurd hstaged hgone
    | some block =>
      rw [step_task_of_some hnext] at hgone ⊢
      rcases handleCanonStateCommit_cases s.advance block answers with ⟨-, hsame⟩ |
        ⟨-, hok, herased⟩
      · rw [hsame, staged_advance] at hgone
        exact absurd hstaged hgone
      · refine ⟨block, hok, ?_⟩
        by_contra hne
        rw [herased, staged_advance] at hgone
        exact hgone (mem_erase.mpr ⟨fun h => hne h.symm, hstaged⟩)
  | submitThenCrash answers =>
    rw [step_submitThenCrash] at hgone
    exact absurd hstaged hgone
  | crash => exact absurd hstaged hgone

/-! ## No staged header is overlooked -/

/-- The hashes of some blocks. -/
def hashes (blocks : List (CommittedBlock H)) : List H := blocks.map (·.hash)

/-- Every staged header will be looked at, and whatever is handed over can be submitted. -/
structure Accounted (s : FrostTask H) : Prop where
  found : ∀ hash ∈ s.staged, s.checkStagedHeaders = true ∨ hash ∈ hashes s.waiting
  entries : ∀ hash block, s.staged.lookup hash = some block →
    block.hash = hash ∧ block.bitcoinBlockHash.isSome
  decodes : ∀ block ∈ s.waiting, block.bitcoinBlockHash.isSome
  current : s.lagged = false

/-- What a step must not do: commit a block into a full channel, or one whose extra data does
not decode. -/
def Orderly (s : FrostTask H) : FrostEvent H → Prop
  | .commit block => s.notifications.length < canonStateNotificationChannelSize ∧
      block.bitcoinBlockHash.isSome
  | .commitThenCrash block => block.bitcoinBlockHash.isSome
  | _ => True

/-- After a start the staged headers are looked at. -/
theorem accounted_start {staged : FinMap H (CommittedBlock H)}
    (h : ∀ hash block, staged.lookup hash = some block →
      block.hash = hash ∧ block.bitcoinBlockHash.isSome) : (start staged).Accounted where
  found _ _ := .inl rfl
  entries := h
  decodes _ hblock := by simp [waiting, start, TaskPoint.rest] at hblock
  current := rfl

theorem Accounted.entries_insert (h : s.Accounted) (hblock : block.bitcoinBlockHash.isSome) :
    ∀ hash b, (s.insertStagedHeader block).staged.lookup hash = some b →
      b.hash = hash ∧ b.bitcoinBlockHash.isSome := by
  intro hash b hlookup
  rw [insertStagedHeader, lookup_insert_eq] at hlookup
  split at hlookup
  case isTrue heq => exact some.inj hlookup ▸ ⟨heq.symm, hblock⟩
  case isFalse => exact h.entries hash b hlookup

/-- Committing a block into a channel with room. -/
theorem commit_of_lt (h : s.notifications.length < canonStateNotificationChannelSize) :
    (s.insertStagedHeader block).notifyCanonState block =
      { s with
        staged := s.staged.insert block.hash block
        notifications := s.notifications ++ [block] } :=
  if_pos h

theorem Accounted.commit (h : s.Accounted)
    (hroom : s.notifications.length < canonStateNotificationChannelSize)
    (hblock : block.bitcoinBlockHash.isSome) :
    ((s.insertStagedHeader block).notifyCanonState block).Accounted := by
  have hentries := h.entries_insert hblock
  rw [commit_of_lt hroom]
  have hwaiting : (s.point.rest ++ (s.notifications ++ [block])) = s.waiting ++ [block] :=
    (append_assoc _ _ _).symm
  refine ⟨?_, hentries, ?_, h.current⟩
  · intro hash hhash
    rw [waiting, hwaiting, hashes, map_append, mem_append]
    rcases (mem_insert _).mp hhash with rfl | hhash
    · exact .inr (.inr (by simp))
    · exact (h.found hash hhash).imp id .inl
  · intro b hb
    rw [waiting, hwaiting] at hb
    rcases mem_append.mp hb with hb | hb
    · exact h.decodes b hb
    · exact mem_singleton.mp hb ▸ hblock

/-- Submitting a block, whether it succeeds or not. -/
theorem Accounted.handle (h : s.Accounted) (hnext : s.next = some block) :
    (s.advance.handleCanonStateCommit block answers).2.Accounted := by
  obtain ⟨hwaiting, -, -, hflag, hlagged⟩ := waiting_of_next hnext
  have hblock : block.bitcoinBlockHash.isSome := h.decodes block (by simp [hwaiting])
  have hdecodes : ∀ b ∈ s.advance.waiting, b.bitcoinBlockHash.isSome := fun b hb =>
    h.decodes b (by simp [hwaiting, hb])
  rw [handleCanonStateCommit_of_isSome hblock]
  split
  · refine ⟨fun hash hhash => ?_, fun hash b hb => ?_, hdecodes, hlagged.trans h.current⟩
    · obtain ⟨hne, hhash⟩ := mem_erase.mp hhash
      rw [staged_advance] at hhash
      refine (h.found hash hhash).imp (fun hf => hflag.trans hf) fun hmem => ?_
      rw [hwaiting, hashes, map_cons, mem_cons] at hmem
      exact hmem.resolve_left hne
    · dsimp only at hb
      rw [lookup_erase_eq, staged_advance] at hb
      split at hb
      · cases hb
      · exact h.entries hash b hb
  · refine ⟨fun _ _ => .inl rfl, fun hash b hb => ?_, hdecodes, hlagged.trans h.current⟩
    rw [staged_advance] at hb
    exact h.entries hash b hb

theorem hash_mem_sortedHeaders (h : s.Accounted) (hstaged : hash ∈ s.staged) :
    hash ∈ hashes s.sortedHeaders := by
  obtain ⟨b, hb⟩ := mem_iff_lookup.mp hstaged
  have hmem : b ∈ s.sortedHeaders :=
    mem_mergeSort.mpr (mem_values.mpr ⟨hash, hb⟩)
  exact (h.entries hash b hb).1 ▸ mem_map_of_mem hmem

theorem Accounted.turn (h : s.Accounted) (hnext : s.next = none) (syncing : Bool) :
    (s.turn syncing).Accounted := by
  rcases turn_of_next_none hnext h.current syncing with ⟨-, -, heq⟩ | ⟨hpoint, -, -, heq⟩ |
    ⟨hpoint, -, -, heq⟩ | ⟨hpoint, heq⟩ | ⟨hpoint, -, heq⟩
  · rw [heq]
    exact h
  · rw [heq]
    refine ⟨fun hash hhash => .inr ?_, h.entries, fun b hb => ?_, h.current⟩
    · rw [waiting, hashes, map_append, mem_append]
      exact .inl (hash_mem_sortedHeaders h hhash)
    · rcases mem_append.mp hb with hb | hb
      · obtain ⟨k, hk⟩ := mem_values.mp (mem_mergeSort.mp hb)
        exact (h.entries k b hk).2
      · exact h.decodes b (mem_append_right _ hb)
  all_goals
    have hwaiting : (s.turn syncing).waiting = s.waiting := by
      rw [heq, waiting, waiting, hpoint]
      rfl
    have hflag : (s.turn syncing).checkStagedHeaders = s.checkStagedHeaders := by rw [heq]
    exact ⟨by rw [staged_turn, hwaiting, hflag]; exact h.found, by rw [staged_turn]; exact h.entries,
      by rw [hwaiting]; exact h.decodes, by rw [heq]; exact h.current⟩

/-- Every orderly step keeps the staged headers accounted for. -/
theorem Accounted.step (h : s.Accounted) (horderly : s.Orderly event) :
    (s.step event).2.Accounted := by
  cases event with
  | commit block => exact h.commit horderly.1 horderly.2
  | commitThenCrash block => exact accounted_start (h.entries_insert horderly)
  | task syncing answers =>
    cases hnext : s.next with
    | none =>
      rw [step_task_of_none hnext]
      exact h.turn hnext syncing
    | some block =>
      rw [step_task_of_some hnext]
      exact h.handle hnext
  | submitThenCrash answers =>
    rw [step_submitThenCrash]
    exact accounted_start h.entries
  | crash => exact accounted_start h.entries

/-! ## Delivery -/

/-- The task will take up a block with this hash before it is at the top of its loop again. -/
def Bound (s : FrostTask H) (hash : H) : Prop := s.point ≠ .top ∧ hash ∈ hashes s.waiting

/-- The process goes on, and btc-server answers `Ok`. -/
def Serves : FrostEvent H → Prop
  | .commit _ => True
  | .task _ answers => ∀ k, answers k = true
  | _ => False

/-- The step submits a block with this hash, and its header is no longer staged. -/
def Delivers (s : FrostTask H) (event : FrostEvent H) (hash : H) : Prop :=
  (∃ block, (s.step event).1 = some (block, true) ∧ block.hash = hash) ∧
    hash ∉ (s.step event).2.staged

/-- A step delivers what the task is bound to take up, or it stays so. -/
theorem Bound.step (hbound : s.Bound hash) (h : s.Accounted) (horderly : s.Orderly event)
    (hserves : Serves event) : s.Delivers event hash ∨ (s.step event).2.Bound hash := by
  obtain ⟨hpoint, hmem⟩ := hbound
  cases event with
  | commit block =>
    refine .inr ?_
    simp only [FrostTask.step]
    rw [commit_of_lt horderly.1]
    refine ⟨hpoint, ?_⟩
    rw [waiting, ← append_assoc, hashes, map_append]
    exact mem_append_left _ hmem
  | task syncing answers =>
    cases hnext : s.next with
    | none =>
      simp only [FrostTask.step, hnext]
      rcases turn_of_next_none hnext h.current syncing with ⟨htop, -⟩ | ⟨htop, -⟩ | ⟨htop, -⟩ |
        ⟨hretry, heq⟩ | ⟨-, hempty, -⟩
      · exact absurd htop hpoint
      · exact absurd htop hpoint
      · exact absurd htop hpoint
      · refine .inr ?_
        rw [waiting, hretry] at hmem
        rw [heq]
        exact ⟨by simp, hmem⟩
      · rw [hempty] at hmem
        cases hmem
    | some block =>
      obtain ⟨hwaiting, -, hadvance, -⟩ := waiting_of_next hnext
      have hblock : block.bitcoinBlockHash.isSome := h.decodes block (by simp [hwaiting])
      have hok : retryExec answers = true :=
        any_eq_true.mpr ⟨0, by simp, hserves 0⟩
      rw [Delivers]
      simp only [FrostTask.step, hnext]
      rw [handleCanonStateCommit_of_isSome hblock, if_pos hok]
      rw [hwaiting, hashes, map_cons, mem_cons] at hmem
      rcases hmem with rfl | hmem
      · exact .inl ⟨⟨block, rfl, rfl⟩, fun hin => (mem_erase.mp hin).1 rfl⟩
      · exact .inr ⟨hadvance, hmem⟩
  | commitThenCrash _ => cases hserves
  | submitThenCrash _ => cases hserves
  | crash => cases hserves

/-- A round of the loop that the node's sync does not hold up binds every staged header. -/
theorem Accounted.bound (h : s.Accounted) (hstaged : hash ∈ s.staged) (htop : s.point = .top)
    (hanswers : event = .task false answers) : (s.step event).2.Bound hash := by
  subst hanswers
  have hnext : s.next = none := by simp [next, htop]
  simp only [FrostTask.step, hnext]
  rcases turn_of_next_none hnext h.current false with ⟨-, hsyncing, -⟩ | ⟨-, -, -, heq⟩ |
    ⟨-, -, hflag, heq⟩ | ⟨hretry, -⟩ | ⟨hreceiving, -⟩
  · cases hsyncing
  · rw [heq]
    refine ⟨by simp, ?_⟩
    rw [waiting, hashes, map_append]
    exact mem_append_left _ (hash_mem_sortedHeaders h hstaged)
  · rw [heq]
    have hmem := (h.found hash hstaged).resolve_left (by simp [hflag])
    rw [waiting, htop] at hmem
    exact ⟨by simp, hmem⟩
  · rw [htop] at hretry
    cases hretry
  · rw [htop] at hreceiving
    cases hreceiving

/-- In every infinite run of the driver and the task: a header is removed only by a
submission of its block that returned `Ok`.  And if no block is committed into a full channel
or with extra data that does not decode: from the point on where btc-server answers `Ok` and
the process is not restarted, every staged header is submitted and removed, provided the task
keeps starting rounds of its loop while the node is not syncing. -/
theorem staged_delivered (events : Nat → FrostEvent H) :
    (∀ n hash, hash ∈ (trace step (start ∅) events n).staged →
      hash ∉ (trace step (start ∅) events (n + 1)).staged →
      ∃ block, emitted step (start ∅) events n = some (block, true) ∧ block.hash = hash) ∧
    ((∀ n, (trace step (start ∅) events n).Orderly (events n)) →
      ∀ N, (∀ n, N ≤ n → Serves (events n)) →
      (∀ n, ∃ m, n ≤ m ∧ (trace step (start ∅) events m).point = .top ∧
        ∃ answers, events m = .task false answers) →
      ∀ n, N ≤ n → ∀ hash ∈ (trace step (start ∅) events n).staged,
        ∃ m, n ≤ m ∧ (trace step (start ∅) events m).Delivers (events m) hash) := by
  refine ⟨fun n hash hstaged hgone => submitted_of_removed hstaged hgone, ?_⟩
  intro horderly N hserves hrounds n hn hash hstaged
  have haccounted : ∀ k, (trace step (start ∅) events k).Accounted := by
    intro k
    induction k with
    | zero => exact accounted_start fun hash block hlookup => by simp at hlookup
    | succ k ih => exact ih.step (horderly k)
  have hbound : ∀ k, N ≤ k → (trace step (start ∅) events k).Bound hash →
      (trace step (start ∅) events k).Delivers (events k) hash ∨
        (trace step (start ∅) events (k + 1)).Bound hash := fun k hk hb =>
    hb.step (haccounted k) (horderly k) (hserves k hk)
  have hkeeps : ∀ k, hash ∈ (trace step (start ∅) events k).staged →
      (trace step (start ∅) events k).Delivers (events k) hash ∨
        hash ∈ (trace step (start ∅) events (k + 1)).staged := by
    intro k hin
    by_cases hnext : hash ∈ (trace step (start ∅) events (k + 1)).staged
    · exact .inr hnext
    · exact .inl ⟨submitted_of_removed hin hnext, hnext⟩
  obtain ⟨m, hm, htop, answers, hevent⟩ := hrounds n
  by_cases hkept : hash ∈ (trace step (start ∅) events m).staged
  · -- the round that starts at `m` takes up the header before the next round starts
    obtain ⟨m', hm', htop', -⟩ := hrounds (m + 1)
    have hstart : (trace step (start ∅) events (m + 1)).Bound hash :=
      (haccounted m).bound hkept htop hevent
    have hend : ¬ (trace step (start ∅) events m').Bound hash := fun hb => hb.1 htop'
    obtain ⟨k, hk, hdelivers⟩ :=
      exists_served hm' (fun k hk => hbound k (by omega)) hstart hend
    exact ⟨k, by omega, hdelivers⟩
  · -- it was removed before that round
    obtain ⟨k, hk, hdelivers⟩ := exists_served hm (fun k _ => hkeeps k) hstaged hkept
    exact ⟨k, hk, hdelivers⟩

end

/-! ## A header that is overlooked -/

section
variable {H : Type} {s : FrostTask H} {event : FrostEvent H} {hash : H}

/-- A staged header that nothing makes the task look at. -/
structure Overlooked (s : FrostTask H) (hash : H) : Prop where
  staged : hash ∈ s.staged
  unchecked : s.checkStagedHeaders = false
  unknown : hash ∉ hashes s.waiting

/-- Turning to the next part of the loop makes nothing known. -/
theorem Overlooked.turn (h : s.Overlooked hash) (hnext : s.next = none) (syncing : Bool) :
    (s.turn syncing).Overlooked hash := by
  obtain ⟨staged, notifications, lagged, flag, point⟩ := s
  obtain ⟨hstaged, hflag, hunknown⟩ := h
  obtain rfl : flag = false := hflag
  refine ⟨by simpa using hstaged, ?_, ?_⟩
  · cases point <;> cases syncing <;> rfl
  · cases point with
    | top => cases syncing <;> exact hunknown
    | retrying rest =>
      obtain rfl : rest = [] := by simpa [next] using hnext
      exact hunknown
    | receiving => exact hunknown

variable [DecidableEq H]

/-- As long as btc-server answers `Ok` and the process is not restarted, an overlooked header
is not submitted and stays overlooked. -/
theorem Overlooked.step (h : s.Overlooked hash) (hserves : Serves event)
    (hother : ∀ block, event = .commit block → block.hash ≠ hash) :
    ¬ s.Delivers event hash ∧ (s.step event).2.Overlooked hash := by
  suffices hnext : (s.step event).2.Overlooked hash from
    ⟨fun hdelivers => hdelivers.2 hnext.staged, hnext⟩
  obtain ⟨hstaged, hflag, hunknown⟩ := h
  cases event with
  | commit block =>
    refine ⟨?_, ?_, ?_⟩
    · simp only [FrostTask.step, staged_notifyCanonState, insertStagedHeader]
      exact (mem_insert _).mpr (.inr hstaged)
    · simp only [FrostTask.step, checkStagedHeaders_notifyCanonState]
      exact hflag
    · intro hmem
      obtain ⟨b, hb, rfl⟩ := mem_map.mp hmem
      rcases mem_waiting_of_notifyCanonState hb with hb | rfl
      · exact hunknown (mem_map_of_mem hb)
      · exact hother b rfl rfl
  | task syncing answers =>
    cases hnext : s.next with
    | none =>
      simp only [FrostTask.step, hnext]
      exact Overlooked.turn ⟨hstaged, hflag, hunknown⟩ hnext syncing
    | some block =>
      obtain ⟨hwaiting, -, -, hkeep, -⟩ := waiting_of_next hnext
      rw [hwaiting, hashes, map_cons, mem_cons, not_or] at hunknown
      have hok : retryExec answers = true := any_eq_true.mpr ⟨0, by simp, hserves 0⟩
      simp only [FrostTask.step, hnext, handleCanonStateCommit, hok, if_true]
      split
      · exact ⟨by simpa using hstaged, hkeep.trans hflag, hunknown.2⟩
      · refine ⟨mem_erase.mpr ⟨hunknown.1, by simpa using hstaged⟩, hkeep.trans hflag,
          hunknown.2⟩
  | commitThenCrash _ => cases hserves
  | submitThenCrash _ => cases hserves
  | crash => cases hserves

end

/-- Blocks of an endless chain, without pegins and pegouts. -/
def blockAt (k : Nat) : CommittedBlock Nat := ⟨k, k, some 0, [], []⟩

/-- The task starts, 257 blocks are committed before it comes to its receive loop again, and
then a block every fourth step. -/
def burst (n : Nat) : FrostEvent Nat :=
  if n < 3 then .task false fun _ => true
  else if n < 260 then .commit (blockAt (n - 3))
  else if n % 4 = 0 then .commit (blockAt n)
  else .task false fun _ => true

/-- After the burst btc-server answers `Ok`, the process is not restarted, blocks keep being
committed and the task keeps running, but the first header stays staged for ever and is not
submitted. -/
theorem first_header_stranded :
    (∀ n, Serves (burst n)) ∧ (∀ n, ∃ m, n ≤ m ∧ ∃ block, burst m = .commit block) ∧
    (∀ n, ∃ m, n ≤ m ∧ ∃ answers, burst m = .task false answers) ∧
    ∀ n, 260 ≤ n → 0 ∈ (trace step (start ∅) burst n).staged ∧
      ¬ (trace step (start ∅) burst n).Delivers (burst n) 0 := by
  have hserves : ∀ n, Serves (burst n) := by
    intro n
    unfold burst
    repeat' split
    all_goals simp [Serves]
  have hstart : (trace step (start ∅) burst 260).Overlooked 0 := by
    have : 0 ∈ (trace step (start ∅) burst 260).staged ∧
        (trace step (start ∅) burst 260).checkStagedHeaders = false ∧
        0 ∉ hashes (trace step (start ∅) burst 260).waiting := by decide +kernel
    exact ⟨this.1, this.2.1, this.2.2⟩
  have hother : ∀ n, 260 ≤ n → ∀ block, burst n = .commit block → block.hash ≠ 0 := by
    intro n hn block hburst
    unfold burst at hburst
    rw [if_neg (by omega), if_neg (by omega)] at hburst
    split at hburst
    · obtain rfl := FrostEvent.commit.inj hburst
      show n ≠ 0
      omega
    · cases hburst
  have hall : ∀ n, 260 ≤ n → (trace step (start ∅) burst n).Overlooked 0 := by
    intro n hn
    induction n, hn using Nat.le_induction with
    | base => exact hstart
    | succ n hn ih => exact (ih.step (hserves n) (hother n hn)).2
  refine ⟨hserves, fun n => ⟨4 * (n + 260), by omega, blockAt (4 * (n + 260)), ?_⟩,
    fun n => ⟨4 * (n + 260) + 1, by omega, fun _ => true, ?_⟩, fun n hn =>
      ⟨(hall n hn).staged, ((hall n hn).step (hserves n) (hother n hn)).1⟩⟩
  · unfold burst
    rw [if_neg (by omega), if_neg (by omega), if_pos (by omega)]
  · unfold burst
    rw [if_neg (by omega), if_neg (by omega), if_neg (by omega)]

/-! ## The order of the deliveries -/

section
variable {H : Type}

/-- The transitions of the driver and the task. -/
abbrev FrostHistory (H : Type) :=
  History (FrostTask H) (FrostEvent H) (Option (CommittedBlock H × Bool))

/-- The block number of a submission that returned `Ok`. -/
def okNumber : Option (CommittedBlock H × Bool) → Option Nat
  | some (block, true) => some block.number
  | _ => none

/-- The numbers of the blocks whose submissions returned `Ok`, the newest first. -/
def okNumbers (h : FrostHistory H) : List Nat := h.filterMap fun t => okNumber t.output

variable [DecidableEq H] {h : FrostHistory H} {s : FrostTask H} {event : FrostEvent H}
  {block : CommittedBlock H} {answers : Nat → Bool}

/-- The block's header is staged, and no other staged one has a number as low. -/
def Lowest (s : FrostTask H) (block : CommittedBlock H) : Prop :=
  (s.staged.lookup block.hash).map (·.number) = some block.number ∧
    ∀ other ∈ FinMap.values (s.staged.erase block.hash), block.number < other.number

/-- A block is committed above every delivered one, what is handed over is the lowest staged
header, and the process does not die between an `Ok` and the removal of the header. -/
def KeepsOrder (h : FrostHistory H) (s : FrostTask H) : FrostEvent H → Prop
  | .commit block => ∀ k ∈ okNumbers h, k < block.number
  | .commitThenCrash block => ∀ k ∈ okNumbers h, k < block.number
  | .task _ answers => ∀ block ∈ s.next, retryExec answers = true → s.Lowest block
  | .submitThenCrash answers => ∀ block ∈ s.next, retryExec answers = false
  | .crash => True

instance (s : FrostTask H) (block : CommittedBlock H) : Decidable (s.Lowest block) :=
  inferInstanceAs (Decidable (_ ∧ _))

instance (h : FrostHistory H) (s : FrostTask H) : ∀ event, Decidable (KeepsOrder h s event)
  | .commit block => inferInstanceAs (Decidable (∀ k ∈ okNumbers h, k < block.number))
  | .commitThenCrash block => inferInstanceAs (Decidable (∀ k ∈ okNumbers h, k < block.number))
  | .task _ answers =>
    inferInstanceAs (Decidable (∀ block ∈ s.next, retryExec answers = true → s.Lowest block))
  | .submitThenCrash answers =>
    inferInstanceAs (Decidable (∀ block ∈ s.next, retryExec answers = false))
  | .crash => inferInstanceAs (Decidable True)

/-- Every staged header is above every delivered block, and they were delivered in order. -/
structure Ordered (h : FrostHistory H) (s : FrostTask H) : Prop where
  above : ∀ hash block, s.staged.lookup hash = some block → ∀ k ∈ okNumbers h, k < block.number
  descending : (okNumbers h).Pairwise (· > ·)

/-- A step that delivers nothing and stages nothing. -/
theorem Ordered.quiet (hi : Ordered h s) (hok : okNumber (s.step event).1 = none)
    (hstaged : (s.step event).2.staged = s.staged) :
    Ordered (fire step s event :: h) (s.step event).2 := by
  have hnumbers : okNumbers (fire step s event :: h) = okNumbers h := filterMap_cons_none hok
  exact ⟨by rw [hnumbers, hstaged]; exact hi.above, by rw [hnumbers]; exact hi.descending⟩

/-- A step that stages a block above every delivered one. -/
theorem Ordered.stage (hi : Ordered h s) (hok : okNumber (s.step event).1 = none)
    (hstaged : (s.step event).2.staged = s.staged.insert block.hash block)
    (habove : ∀ k ∈ okNumbers h, k < block.number) :
    Ordered (fire step s event :: h) (s.step event).2 := by
  have hnumbers : okNumbers (fire step s event :: h) = okNumbers h := filterMap_cons_none hok
  refine ⟨fun hash b hlookup => ?_, by rw [hnumbers]; exact hi.descending⟩
  rw [hnumbers]
  rw [hstaged, lookup_insert_eq] at hlookup
  split at hlookup
  · obtain rfl := some.inj hlookup
    exact habove
  · exact hi.above hash b hlookup

/-- A step that delivers the lowest staged header and removes it. -/
theorem Ordered.deliver (hi : Ordered h s) (hlowest : s.Lowest block)
    (hok : okNumber (s.step event).1 = some block.number)
    (hstaged : (s.step event).2.staged = s.staged.erase block.hash) :
    Ordered (fire step s event :: h) (s.step event).2 := by
  have hnumbers : okNumbers (fire step s event :: h) = block.number :: okNumbers h :=
    filterMap_cons_some hok
  obtain ⟨header, hheader, hnumber⟩ := map_eq_some_iff.mp hlowest.1
  refine ⟨fun hash b hlookup k hk => ?_, ?_⟩
  · rw [hstaged] at hlookup
    rw [hnumbers] at hk
    rcases mem_cons.mp hk with rfl | hk
    · exact hlowest.2 b (mem_values.mpr ⟨hash, hlookup⟩)
    · rw [lookup_erase_eq] at hlookup
      split at hlookup
      · cases hlookup
      · exact hi.above hash b hlookup k hk
  · rw [hnumbers]
    refine pairwise_cons.mpr ⟨fun k hk => ?_, hi.descending⟩
    rw [← hnumber]
    exact hi.above block.hash header hheader k hk

omit [DecidableEq H] in
theorem okNumber_eq_none {out : Option (CommittedBlock H × Bool)} (h : ∀ b, out ≠ some (b, true)) :
    okNumber out = none := by
  unfold okNumber
  split
  · exact absurd rfl (h _)
  · rfl

/-- Every step that keeps the order. -/
theorem Ordered.step (hi : Ordered h s) (hkeeps : KeepsOrder h s event) :
    Ordered (fire FrostTask.step s event :: h) (s.step event).2 := by
  cases event with
  | commit block =>
    refine hi.stage rfl ?_ hkeeps
    simp [FrostTask.step, insertStagedHeader]
  | commitThenCrash block => exact hi.stage rfl rfl hkeeps
  | crash => exact hi.quiet rfl rfl
  | task syncing answers =>
    cases hnext : s.next with
    | none =>
      have hstep : s.step (.task syncing answers) = _ := step_task_of_none hnext syncing
      exact hi.quiet (by rw [hstep]; rfl) (by rw [hstep, staged_turn])
    | some block =>
      have hstep : s.step (.task syncing answers) = _ := step_task_of_some hnext syncing
      rcases handleCanonStateCommit_cases s.advance block answers with ⟨hnone, hsame⟩ |
        ⟨hok, hsome, herased⟩
      · exact hi.quiet (hstep ▸ okNumber_eq_none hnone) (by rw [hstep, hsame, staged_advance])
      · exact hi.deliver (hkeeps block hnext hok) (by rw [hstep, hsome]; rfl)
          (by rw [hstep, herased, staged_advance])
  | submitThenCrash answers =>
    refine hi.quiet ?_ (by rw [step_submitThenCrash]; rfl)
    unfold FrostTask.step
    cases hnext : s.next with
    | none => rfl
    | some block =>
      rcases handleCanonStateCommit_cases s.advance block answers with ⟨hnone, -⟩ | ⟨hok, -⟩
      · exact okNumber_eq_none hnone
      · rw [hkeeps block hnext] at hok
        cases hok

/-- In every run whose steps keep the order, the submissions that returned `Ok` are in
strictly ascending order of the block numbers. -/
theorem delivered_ascending (hrun : Run step (start ∅) h s) (hmeets : Meets KeepsOrder h) :
    (okNumbers h).reverse.Pairwise (· < ·) := by
  have hordered : Ordered h s := hrun.invariant (I := Ordered)
    ⟨fun hash block hlookup => by simp [start] at hlookup, .nil⟩
    (fun h s event _ hi hkeeps => hi.step hkeeps) hmeets
  exact pairwise_reverse.mpr hordered.descending

end

/-- The task runs while nothing is staged; then blocks 1 and 2 are committed and handed over
as their notifications come in. -/
def deliverTwo : FrostHistory Nat × FrostTask Nat :=
  play step (start ∅) [.task false fun _ => true, .commit (blockAt 2), .task false fun _ => true,
    .commit (blockAt 1), .task false fun _ => true, .task false fun _ => true]

theorem deliverTwo_ascending :
    okNumbers deliverTwo.1 = [2, 1] ∧ (okNumbers deliverTwo.1).reverse.Pairwise (· < ·) := by
  have hmeets : Meets KeepsOrder deliverTwo.1 := by decide +kernel
  exact ⟨by decide +kernel, delivered_ascending (Run.play _) hmeets⟩

/-- Block 1 is refused by all four calls, and the notification of block 2 is next. -/
def overtaken : FrostHistory Nat × FrostTask Nat :=
  play step (start ∅) [.task false fun _ => true, .task false fun _ => true,
    .task false fun _ => true, .task false fun _ => true, .task false fun _ => false,
    .commit (blockAt 2), .commit (blockAt 1), .task false fun _ => true, .task false fun _ => true]

/-- Block 2 is delivered before block 1. -/
theorem overtaken_not_ascending :
    Run step (start ∅) overtaken.1 overtaken.2 ∧ (okNumbers overtaken.1).reverse = [2, 1] ∧
      ¬ (okNumbers overtaken.1).reverse.Pairwise (· < ·) :=
  ⟨Run.play _, by decide +kernel, by decide +kernel⟩

end FrostTask

end Macbeth
