import Macbeth.Dkg.Member
import Macbeth.Lib.Outbox

/-!
# No package of the key generation is forgotten

A member owes the packages of its round that are available and not acknowledged.  Each of them
waits in the queue or has a timer, unless all wait for the first package of the round to arrive
(`Remembered`), and a package whose timer has expired leaves again after `on_timeout`
(`overdue_repeated`).  Only a new session of the coordinator drops packages, with the session
they belong to.
-/

namespace Macbeth.Dkg

open Handler Outcome DkgStateMachine Outbox List Option FinMap

/-! ## What is owed -/

namespace DkgStateMachine

variable (n : DkgStateMachine)

def messageOne (r : RoundOne) (pair : Identifier × Identifier) (entry : OutEntryRoundOne) :
    DkgPayload :=
  ⟨n.myFrostId, pair.2,
    .round1 pair.1 r.context r.nonce entry.ephemeralPub entry.signature entry.package⟩

def messageTwo (pair : Identifier × Identifier) (entry : OutEntryRoundTwo) : DkgPayload :=
  n.round2Message (if n.isCoordinator then pair.2 else n.coordinator) pair entry

def messageThree (pair : Identifier × Identifier) (entry : OutEntryRoundThree) : DkgPayload :=
  ⟨n.myFrostId, pair.2, .round3 pair.1 entry.signature⟩

/-- The messages of the available entries of the round, with their timers. -/
def owed : List (DkgPayload × Option Nat) :=
  match n.state with
  | .roundOne r => (inOrder r.outRound1Packages).filterMap fun e =>
    e.2.map fun entry => (n.messageOne r e.1 entry, entry.timer)
  | .roundTwo r => (inOrder r.outRound2Packages).filterMap fun e =>
    e.2.map fun entry => (n.messageTwo e.1 entry, entry.timer)
  | .roundThree r => (inOrder r.outRound3Packages).filterMap fun e =>
    e.2.map fun entry => (n.messageThree e.1 entry, entry.timer)
  | _ => []

/-- The pending flag of the round. -/
def isPending : Bool :=
  match n.state with
  | .roundTwo r => r.pending
  | .roundThree r => r.pending
  | _ => false

/-- Every package that is owed is in the queue or timed, unless the round is pending. -/
def Remembered : Prop :=
  ∀ owed ∈ n.owed, owed.2.isSome = true ∨ owed.1 ∈ n.queue ∨ n.isPending = true

/-- Calls of `send` at given times, with the messages that leave. -/
def sends : List Nat → DkgStateMachine → List DkgPayload × DkgStateMachine
  | [], n => ([], n)
  | now :: later, n =>
    ((n.send now).1.toList ++ (sends later (n.send now).2).1, (sends later (n.send now).2).2)

end DkgStateMachine

/-! ## Outgoing maps -/

section
variable {ε : Type} {out : FinMap (Identifier × Identifier) (Option ε)}
variable {pair : Identifier × Identifier} {timer : ε → Option Nat}
variable {message : Identifier × Identifier → ε → DkgPayload} {queue : List DkgPayload}
variable {n : DkgStateMachine}

theorem mem_inOrder {v : Option ε} : (pair, v) ∈ inOrder out ↔ out.lookup pair = some v := by
  unfold inOrder
  rw [List.mem_insertionSort, List.mem_map]
  constructor
  · intro ⟨e, he, heq⟩
    obtain ⟨rfl, rfl⟩ := Prod.mk.inj heq
    exact AList.mem_lookup_iff.mpr he
  · intro h
    exact ⟨⟨pair, v⟩, AList.mem_lookup_iff.mp h, rfl⟩

/-- The available entries of an outgoing map. -/
theorem mem_available {α : Type} {f : Identifier × Identifier → ε → α} {a : α} :
    (a ∈ (inOrder out).filterMap fun e => e.2.map (f e.1)) ↔
      ∃ pair entry, out.lookup pair = some (some entry) ∧ f pair entry = a := by
  simp [mem_filterMap, mem_inOrder]

theorem covered_owed (h : Covered timer message out queue) {owed : DkgPayload × Option Nat}
    (howed : owed ∈ (inOrder out).filterMap fun e =>
      e.2.map fun entry => (message e.1 entry, timer entry)) :
    owed.2.isSome = true ∨ owed.1 ∈ queue := by
  obtain ⟨pair, entry, hentry, rfl⟩ :=
    (mem_available (f := fun pair entry => (message pair entry, timer entry))).mp howed
  exact h pair entry hentry

/-- Entries of a stored package are filled in when its messages are queued. -/
theorem covered_fillEntries {initiator : Identifier} {entry : ε} {recipients : List Identifier}
    (h : Covered timer message out queue)
    (hmem : ∀ id ∈ recipients, message (initiator, id) entry ∈ queue) :
    Covered timer message (fillEntries out initiator recipients entry) queue := by
  unfold fillEntries
  induction recipients generalizing out with
  | nil => exact h
  | cons id recipients ih =>
    exact ih (h.insert (.inr (hmem id mem_cons_self))) fun id' hid' =>
      hmem id' (mem_cons_of_mem id hid')

/-- The own entries are there when their messages are queued. -/
theorem covered_ownEntries {entry : ε}
    (h : ∀ id ∈ n.others, message (n.myFrostId, id) entry ∈ queue) :
    Covered timer message (n.ownEntries entry) queue := by
  intro pair entry' hlookup
  obtain ⟨pair', hpair', heq⟩ := mem_map.mp (mem_of_lookup_ofList hlookup)
  obtain ⟨rfl, hentry⟩ := Prod.mk.inj heq
  split at hentry
  · next hown =>
    obtain rfl := some.inj hentry
    have hdelivery := mem_filter.mp hpair'
    have hother : pair'.2 ∈ n.others := mem_filter.mpr
      ⟨(mem_product.mp hdelivery.1).2, by simpa using (by simpa using hdelivery.2 : _ ∧ _).1⟩
    have := h pair'.2 hother
    rw [← hown] at this
    exact .inr this
  · cases hentry

end

/-! ## The invariant -/

/-- The outbox of a round. -/
def OutboxKept (n : DkgStateMachine) : StageState → Prop
  | .roundOne r =>
    Covered OutEntryRoundOne.timer (n.messageOne r) r.outRound1Packages n.queue
  | .roundTwo r => (r.pending = true → n.isCoordinator = false) ∧
    (r.pending = false → Covered OutEntryRoundTwo.timer n.messageTwo r.outRound2Packages n.queue)
  | .roundThree r => (r.pending = true → n.isCoordinator = false) ∧
    (r.pending = false →
      Covered OutEntryRoundThree.timer n.messageThree r.outRound3Packages n.queue)
  | _ => True

/-- The member is in a session. -/
def InSession : StageState → Prop
  | .roundOne _ | .roundTwo _ | .roundThree _ => True
  | _ => False

/-- A member that keeps its outbox, and that was able to join its session. -/
structure Delivers (lib : Lib) (n : DkgStateMachine) : Prop where
  outbox : OutboxKept n n.state
  able : InSession n.state → ∃ rand,
    (lib.part1 n.myFrostId n.config.maxSigners n.config.minSigners rand).isSome = true

section
variable {lib : Lib} {n n' : DkgStateMachine}

theorem Delivers.one (h : Delivers lib n) {r : RoundOne} (hr : n.state = .roundOne r) :
    Covered OutEntryRoundOne.timer (n.messageOne r) r.outRound1Packages n.queue := by
  simpa [OutboxKept, hr] using h.outbox

theorem Delivers.two (h : Delivers lib n) {r : RoundTwo} (hr : n.state = .roundTwo r) :
    OutboxKept n (.roundTwo r) := hr ▸ h.outbox

theorem Delivers.three (h : Delivers lib n) {r : RoundThree} (hr : n.state = .roundThree r) :
    OutboxKept n (.roundThree r) := hr ▸ h.outbox

theorem Delivers.remembered (h : Delivers lib n) : n.Remembered := by
  unfold Remembered owed isPending
  cases hs : n.state with
  | roundOne r => exact fun owed howed => (covered_owed (h.one hs) howed).imp_right .inl
  | roundTwo r =>
    intro owed howed
    cases hpending : r.pending with
    | true => exact .inr (.inr hpending)
    | false => exact (covered_owed ((h.two hs).2 hpending) howed).imp_right .inl
  | roundThree r =>
    intro owed howed
    cases hpending : r.pending with
    | true => exact .inr (.inr hpending)
    | false => exact (covered_owed ((h.three hs).2 hpending) howed).imp_right .inl
  | awaitingInit | aborted | finalized => exact fun _ howed => absurd howed not_mem_nil

/-! ## Handling a message -/

/-- More messages in the queue do not hurt. -/
theorem Delivers.push (h : Delivers lib n) (msgs : List DkgPayload) :
    Delivers lib { n with queue := n.queue ++ msgs } := by
  refine ⟨?_, h.able⟩
  have hsub : n.queue ⊆ n.queue ++ msgs := subset_append_left _ _
  change OutboxKept { n with queue := n.queue ++ msgs } n.state
  cases hs : n.state with
  | roundOne r => exact (h.one hs).mono hsub
  | roundTwo r => exact ⟨(h.two hs).1, fun hp => ((h.two hs).2 hp).mono hsub⟩
  | roundThree r => exact ⟨(h.three hs).1, fun hp => ((h.three hs).2 hp).mono hsub⟩
  | awaitingInit | aborted | finalized => trivial

/-- The packages that waited are all in the queue. -/
theorem covered_heldTwo {r : RoundTwo} (h : OutboxKept n (.roundTwo r)) (ack : DkgPayload) :
    Covered OutEntryRoundTwo.timer n.messageTwo r.outRound2Packages
      (n.queue ++ ack :: n.heldTwo r) := by
  cases hpending : r.pending with
  | false => exact (h.2 hpending).mono (subset_append_left _ _)
  | true =>
    intro pair entry hentry
    have hheld : n.messageTwo pair entry ∈ n.heldTwo r := by
      unfold heldTwo messageTwo
      rw [hpending, h.1 hpending]
      exact mem_available.mpr ⟨pair, entry, hentry, rfl⟩
    exact .inr (mem_append_right _ (mem_cons_of_mem _ hheld))

theorem covered_heldThree {r : RoundThree} (h : OutboxKept n (.roundThree r)) (ack : DkgPayload)
    (msgs : List DkgPayload) :
    Covered OutEntryRoundThree.timer n.messageThree r.outRound3Packages
      (n.queue ++ ack :: (n.heldThree r ++ msgs)) := by
  cases hpending : r.pending with
  | false => exact (h.2 hpending).mono (subset_append_left _ _)
  | true =>
    intro pair entry hentry
    have hheld : n.messageThree pair entry ∈ n.heldThree r := by
      unfold heldThree
      rw [hpending]
      exact (mem_available (f := n.messageThree)).mpr ⟨pair, entry, hentry, rfl⟩
    exact .inr (mem_append_right _ (mem_cons_of_mem _ (mem_append_left _ hheld)))

theorem Handles.delivers
    (hpart1 : ∀ id max min rand rand',
      (lib.part1 id max min rand).isSome = (lib.part1 id max min rand').isSome)
    {sender : Identifier} {rand : Rand} {msg : DkgMessage}
    (hhandles : Handles lib n sender rand msg n') (h : Delivers lib n) : Delivers lib n' := by
  cases hhandles with
  | ignored => exact h
  | replied => exact h.push _
  | joined hcoordinator hnonce hstage hopened hauth hours =>
    refine ⟨(covered_of_keys_eq_nil rfl).insert (.inr ?_), fun _ =>
      ⟨rand, isSome_iff_exists.mpr ⟨_, hours⟩⟩⟩
    exact mem_cons_of_mem _ mem_cons_self
  | joinFailed hnone =>
    refine ⟨?_, h.able⟩
    by_cases hsession : InSession n.state
    · obtain ⟨rand', hable⟩ := h.able hsession
      rw [hpart1 _ _ _ rand' rand, hnone] at hable
      cases hable
    · dsimp only
      cases hs : n.state with
      | roundOne | roundTwo | roundThree => exact absurd (by rw [hs]; trivial) hsession
      | awaitingInit | aborted | finalized => trivial
  | storedOne hr hmember hne hnew hauth =>
    refine ⟨covered_fillEntries ((h.one hr).mono (subset_append_left _ _)) fun id hid => ?_,
      fun _ => h.able (by simp [hr, InSession])⟩
    exact mem_append_right _ (mem_cons_of_mem _ (mem_map.mpr ⟨id, hid, rfl⟩))
  | storedTwo hr hmember hne hnew hauth =>
    exact ⟨⟨fun hp => absurd hp Bool.false_ne_true, fun _ => covered_heldTwo (h.two hr) _⟩,
      fun _ => h.able (by simp [hr, InSession])⟩
  | @forwarded r initiator target nonce ciphertext hr hcoordinator htarget hentry =>
    refine ⟨⟨(h.two hr).1, fun hp => ?_⟩, fun _ => h.able (by simp [hr, InSession])⟩
    refine (((h.two hr).2 hp).mono (subset_append_left _ _)).insert (.inr ?_)
    have hmessage : n.messageTwo (initiator, target) ⟨nonce, ciphertext, none, 0⟩ =
        n.round2Message target (initiator, target) ⟨nonce, ciphertext, none, 0⟩ := by
      rw [messageTwo, if_pos hcoordinator]
    exact mem_append_right _ (mem_cons_of_mem _ (hmessage ▸ mem_cons_self))
  | storedThree hr hmember hne hnew hauth =>
    refine ⟨⟨fun hp => absurd hp Bool.false_ne_true, fun _ => ?_⟩,
      fun _ => h.able (by simp [hr, InSession])⟩
    refine covered_fillEntries (covered_heldThree (h.three hr) _ _) fun id hid => ?_
    exact mem_append_right _ (mem_cons_of_mem _
      (mem_append_right _ (mem_map.mpr ⟨id, hid, rfl⟩)))
  | ackedOne hr => exact ⟨(h.one hr).erase _, fun _ => h.able (by simp [hr, InSession])⟩
  | ackedTwo hr =>
    exact ⟨⟨(h.two hr).1, fun hp => ((h.two hr).2 hp).erase _⟩,
      fun _ => h.able (by simp [hr, InSession])⟩
  | ackedThree hr =>
    exact ⟨⟨(h.three hr).1, fun hp => ((h.three hr).2 hp).erase _⟩,
      fun _ => h.able (by simp [hr, InSession])⟩

/-! ## Going on -/

/-- The coordinator's own packages of round two are in the queue; the others come later. -/
theorem covered_outgoingTwo (hcoordinator : n.isCoordinator = true)
    (entries : List (Identifier × OutEntryRoundTwo)) :
    Covered OutEntryRoundTwo.timer n.messageTwo (n.outgoingTwo entries)
      (n.queue ++ n.messagesTwo entries) := by
  intro pair entry hlookup
  rcases mem_append.mp (mem_of_lookup_ofList hlookup) with hown | hforwarded
  · obtain ⟨e, he, heq⟩ := mem_map.mp hown
    obtain ⟨rfl, hentry⟩ := Prod.mk.inj heq
    obtain rfl := some.inj hentry
    have hmessage : n.messageTwo (n.myFrostId, e.1) e.2 ∈ n.messagesTwo entries := by
      rw [messageTwo, messagesTwo, if_pos hcoordinator, if_pos hcoordinator]
      exact mem_map.mpr ⟨e, he, rfl⟩
    exact .inr (mem_append_right _ hmessage)
  · obtain ⟨_, _, heq⟩ := mem_map.mp hforwarded
    cases (Prod.mk.inj heq).2

theorem Advances.delivers {msg : DkgMessage} (hadvances : Advances lib n msg n')
    (h : Delivers lib n) : Delivers lib n' := by
  cases hadvances with
  | waits => exact h
  | aborted => exact ⟨trivial, False.elim⟩
  | unfinished hmsg hr hstarts =>
    exact ⟨covered_of_keys_eq_nil hstarts.2, fun _ => h.able (by rw [hr]; trivial)⟩
  | unsealed hmsg hr hstarts =>
    exact ⟨covered_of_keys_eq_nil hstarts.2, fun _ => h.able (by rw [hr]; trivial)⟩
  | second hmsg hr =>
    refine ⟨⟨(Bool.not_eq_true' n.isCoordinator).mp, fun hp => ?_⟩,
      fun _ => h.able (by rw [hr]; trivial)⟩
    exact covered_outgoingTwo (by simpa using hp) _
  | lost hmsg hr hstarts =>
    exact ⟨⟨(h.two hr).1, fun _ => covered_of_keys_eq_nil hstarts.2.1⟩,
      fun _ => h.able (by rw [hr]; trivial)⟩
  | third hmsg hr =>
    refine ⟨⟨(Bool.not_eq_true' n.isCoordinator).mp, fun hp => ?_⟩,
      fun _ => h.able (by rw [hr]; trivial)⟩
    have hcoordinator : n.isCoordinator = true := by simpa using hp
    dsimp only
    rw [if_pos hcoordinator, if_pos hcoordinator]
    exact covered_ownEntries fun id hid =>
      mem_append_right _ (mem_map.mpr ⟨id, hid, rfl⟩)
  | finished => exact ⟨trivial, False.elim⟩

theorem Opens.delivers {nonce : BitVec 64} {rand : Rand} (hopens : Opens lib n nonce rand n') :
    Delivers lib n' := by
  cases hopens with
  | opened hauth hpart1 =>
    refine ⟨covered_ownEntries fun id hid => ?_, fun _ =>
      ⟨rand, isSome_iff_exists.mpr ⟨_, hpart1⟩⟩⟩
    exact mem_map.mpr ⟨id, hid, rfl⟩

/-! ## Messages that leave -/

section
variable {now : Nat} {pair : Identifier × Identifier}

/-- The message of an available entry is not outdated. -/
theorem stamp_messageOne {r : RoundOne} {entry : OutEntryRoundOne} (hr : n.state = .roundOne r)
    (hentry : r.outRound1Packages.lookup pair = some (some entry)) :
    n.stamp now (n.messageOne r pair entry) ≠ none := by
  simp [stamp, messageOne, hr, hentry]

theorem stamp_messageTwo {r : RoundTwo} {entry : OutEntryRoundTwo} (hr : n.state = .roundTwo r)
    (hentry : r.outRound2Packages.lookup pair = some (some entry)) :
    n.stamp now (n.messageTwo pair entry) ≠ none := by
  simp [stamp, messageTwo, round2Message, hr, hentry]

theorem stamp_messageThree {r : RoundThree} {entry : OutEntryRoundThree}
    (hr : n.state = .roundThree r)
    (hentry : r.outRound3Packages.lookup pair = some (some entry)) :
    n.stamp now (n.messageThree pair entry) ≠ none := by
  simp [stamp, messageThree, hr, hentry]

end

/-- Messages in front of the queue that stamp nothing can go. -/
theorem Delivers.drop (h : Delivers lib n) {outdated rest : List DkgPayload}
    (hqueue : n.queue = outdated ++ rest)
    (hout : ∀ m ∈ outdated, m.msg.ack = none ∨ ∃ now, n.stamp now m = none) :
    Delivers lib { n with queue := rest } := by
  refine ⟨?_, h.able⟩
  change OutboxKept { n with queue := rest } n.state
  cases hs : n.state with
  | roundOne r =>
    refine (hqueue ▸ h.one hs).drop fun pair entry hentry hmem => ?_
    rcases hout _ hmem with hack | ⟨now, hstamp⟩
    · cases hack
    · exact stamp_messageOne hs hentry hstamp
  | roundTwo r =>
    refine ⟨(h.two hs).1, fun hp => (hqueue ▸ (h.two hs).2 hp).drop fun pair entry hentry hmem => ?_⟩
    rcases hout _ hmem with hack | ⟨now, hstamp⟩
    · cases hack
    · exact stamp_messageTwo hs hentry hstamp
  | roundThree r =>
    refine ⟨(h.three hs).1,
      fun hp => (hqueue ▸ (h.three hs).2 hp).drop fun pair entry hentry hmem => ?_⟩
    rcases hout _ hmem with hack | ⟨now, hstamp⟩
    · cases hack
    · exact stamp_messageThree hs hentry hstamp
  | awaitingInit | aborted | finalized => trivial

variable {pair : Identifier × Identifier} {payload : DkgPayload} {initiator : Identifier}

theorem pair_of_messageOne {r : RoundOne} {entry : OutEntryRoundOne} {context : List UInt8}
    {nonce : BitVec 64} {ephPub : PublicKey} {signature : Signature} {package : Round1Package}
    (h : n.messageOne r pair entry = payload)
    (hmsg : payload.msg = .round1 initiator context nonce ephPub signature package) :
    pair = (initiator, payload.recipient) := by
  subst h
  obtain ⟨rfl, -⟩ := DkgMessage.round1.inj hmsg
  rfl

theorem pair_of_messageTwo {entry : OutEntryRoundTwo} {target : Identifier} {nonce : BitVec 64}
    {ciphertext : List UInt8} (h : n.messageTwo pair entry = payload)
    (hmsg : payload.msg = .round2 initiator target nonce ciphertext) :
    pair = (initiator, target) := by
  subst h
  obtain ⟨rfl, rfl, -⟩ := DkgMessage.round2.inj hmsg
  rfl

theorem pair_of_messageThree {entry : OutEntryRoundThree} {signature : Signature}
    (h : n.messageThree pair entry = payload) (hmsg : payload.msg = .round3 initiator signature) :
    pair = (initiator, payload.recipient) := by
  subst h
  obtain ⟨rfl, -⟩ := DkgMessage.round3.inj hmsg
  rfl

variable {now : Nat}

/-- A package that leaves is timed. -/
theorem Stamps.delivers {outdated rest : List DkgPayload} (hstamps : Stamps n now payload n')
    (h : Delivers lib n) (hqueue : n.queue = outdated ++ payload :: rest)
    (hout : ∀ m ∈ outdated, n.stamp now m = none) : Delivers lib { n' with queue := rest } := by
  cases hstamps with
  | reply hmsg =>
    refine h.drop (hqueue.trans (append_cons _ _ _)) fun m hm => ?_
    rcases mem_append.mp hm with hm | hm
    · exact .inr ⟨now, hout m hm⟩
    · exact .inl (List.mem_singleton.mp hm ▸ hmsg)
  | one hmsg hr hentry =>
    refine ⟨?_, fun _ => h.able (by rw [hr]; trivial)⟩
    refine (hqueue ▸ h.one hr).leave (fun pair e he hmem => ?_) (fun pair e _ hmessage => ?_) rfl
    · exact stamp_messageOne hr he (hout _ hmem)
    · exact pair_of_messageOne hmessage hmsg
  | two hmsg hr hentry =>
    refine ⟨⟨(h.two hr).1, fun hp => ?_⟩, fun _ => h.able (by rw [hr]; trivial)⟩
    refine (hqueue ▸ (h.two hr).2 hp).leave (fun pair e he hmem => ?_)
      (fun pair e _ hmessage => ?_) rfl
    · exact stamp_messageTwo hr he (hout _ hmem)
    · exact pair_of_messageTwo hmessage hmsg
  | three hmsg hr hentry =>
    refine ⟨⟨(h.three hr).1, fun hp => ?_⟩, fun _ => h.able (by rw [hr]; trivial)⟩
    refine (hqueue ▸ (h.three hr).2 hp).leave (fun pair e he hmem => ?_)
      (fun pair e _ hmessage => ?_) rfl
    · exact stamp_messageThree hr he (hout _ hmem)
    · exact pair_of_messageThree hmessage hmsg

theorem Delivers.send (h : Delivers lib n) (now : Nat) : Delivers lib (n.send now).2 := by
  rcases @send_cases n now with ⟨hall, hsend⟩ | ⟨outdated, payload, rest, n₁, hqueue, hout, hstamp,
    hsend⟩
  · rw [hsend]
    exact h.drop (append_nil _).symm fun m hm => .inr ⟨now, hall m hm⟩
  · rw [hsend]
    exact (stamp_cases hstamp).delivers h hqueue hout

/-- A message that is not outdated: its entry is available, or it is an acknowledgment. -/
def Sendable (state : StageState) (m : DkgPayload) : Prop :=
  match m.msg, state with
  | .round1 initiator _ _ _ _ _, .roundOne r =>
    ∃ entry, r.outRound1Packages.lookup (initiator, m.recipient) = some (some entry)
  | .round2 initiator target _ _, .roundTwo r =>
    ∃ entry, r.outRound2Packages.lookup (initiator, target) = some (some entry)
  | .round3 initiator _, .roundThree r =>
    ∃ entry, r.outRound3Packages.lookup (initiator, m.recipient) = some (some entry)
  | .round1 .., _ | .round2 .., _ | .round3 .., _ => False
  | _, _ => True

variable {m : DkgPayload}

theorem stamp_ne_none_iff : n.stamp now m ≠ none ↔ Sendable n.state m := by
  unfold stamp Sendable
  cases m.msg <;> cases n.state <;> simp
  all_goals
    split
    · next h => simp [h]
    · next h => simpa using h

/-- An entry that is timed stays available. -/
theorem exists_lookup_insert {ε : Type} {out : FinMap (Identifier × Identifier) (Option ε)}
    {pair' : Identifier × Identifier} {entry : ε} (h : ∃ e, out.lookup pair' = some (some e)) :
    ∃ e, (out.insert pair (some entry)).lookup pair' = some (some e) := by
  rw [lookup_insert_eq]
  split
  · exact ⟨entry, rfl⟩
  · exact h

/-- Stamping a message outdates no other. -/
theorem Stamps.sendable (hstamps : Stamps n now payload n') (hm : Sendable n.state m) :
    Sendable n'.state m := by
  unfold Sendable at hm ⊢
  cases hstamps with
  | reply => exact hm
  | one hmsg hr hentry =>
    rw [hr] at hm
    cases hmm : m.msg with
    | round1 => rw [hmm] at hm; exact exists_lookup_insert hm
    | round2 | round3 => rw [hmm] at hm; exact hm.elim
    | ackRound1 | ackRound2 | ackRound3 => trivial
  | two hmsg hr hentry =>
    rw [hr] at hm
    cases hmm : m.msg with
    | round2 => rw [hmm] at hm; exact exists_lookup_insert hm
    | round1 | round3 => rw [hmm] at hm; exact hm.elim
    | ackRound1 | ackRound2 | ackRound3 => trivial
  | three hmsg hr hentry =>
    rw [hr] at hm
    cases hmm : m.msg with
    | round3 => rw [hmm] at hm; exact exists_lookup_insert hm
    | round1 | round2 => rw [hmm] at hm; exact hm.elim
    | ackRound1 | ackRound2 | ackRound3 => trivial

/-- Everything in the queue leaves, but for what is outdated. -/
theorem mem_sends : ∀ {times : List Nat} {n : DkgStateMachine},
    n.queue.length ≤ times.length → m ∈ n.queue → Sendable n.state m → m ∈ (sends times n).1
  | [], n, hlength, hm, _ => by simp_all
  | now :: times, n, hlength, hm, hsendable => by
    have hstamp : n.stamp now m ≠ none := stamp_ne_none_iff.mpr hsendable
    rcases @send_cases n now with ⟨hall, -⟩ | ⟨outdated, payload, rest, n₁, hqueue, hout, hn₁, hsend⟩
    · exact absurd (hall m hm) hstamp
    · rw [sends, hsend]
      rw [hqueue, mem_append, mem_cons] at hm
      rcases hm with hm | rfl | hm
      · exact absurd (hout m hm) hstamp
      · simp
      · refine mem_append_right _ (mem_sends ?_ hm ((stamp_cases hn₁).sendable hsendable))
        simp only [hqueue, length_append, length_cons] at hlength ⊢
        omega

theorem queue_sends : ∀ {times : List Nat} {n : DkgStateMachine},
    n.queue.length ≤ times.length → (sends times n).2.queue = []
  | [], n, h => length_eq_zero_iff.mp (Nat.le_zero.mp h)
  | now :: times, n, h => by
    rw [sends]
    refine queue_sends ?_
    rcases @send_cases n now with ⟨-, hsend⟩ | ⟨outdated, payload, rest, n₁, hqueue, -, -, hsend⟩
    · simp [hsend]
    · simp only [hqueue, length_append, length_cons, hsend] at h ⊢
      omega

/-! ## What is overdue -/

section
variable {ε : Type} {out : FinMap (Identifier × Identifier) (Option ε)} {timer : ε → Option Nat}
variable {m : DkgPayload} {t now : Nat}

/-- A timer that is up makes the entry's message one to be repeated. -/
theorem mem_expired (message : Identifier × Identifier → ε → DkgPayload)
    (h : (m, some t) ∈ (inOrder out).filterMap fun e =>
      e.2.map fun entry => (message e.1 entry, timer entry)) (ht : t ≤ now) :
    m ∈ (inOrder out).filterMap fun e => e.2.bind fun entry =>
      if expired (timer entry) now then some (message e.1 entry) else none := by
  obtain ⟨pair, entry, hentry, heq⟩ :=
    (mem_available (f := fun pair entry => (message pair entry, timer entry))).mp h
  obtain ⟨rfl, htimer⟩ := Prod.mk.inj heq
  have hexpired : expired (timer entry) now = true := by
    simp only [expired, htimer, any_some, decide_eq_true_eq]
    omega
  exact mem_filterMap.mpr ⟨(pair, some entry), mem_inOrder.mpr hentry, by simp [hexpired]⟩

end

theorem mem_resent {t : Nat} (h : (m, some t) ∈ n.owed) (ht : t ≤ now) : m ∈ n.resent now := by
  unfold owed at h
  unfold resent
  cases hs : n.state with
  | roundOne r => rw [hs] at h; exact mem_expired (n.messageOne r) h ht
  | roundTwo r => rw [hs] at h; exact mem_expired n.messageTwo h ht
  | roundThree r => rw [hs] at h; exact mem_expired n.messageThree h ht
  | awaitingInit | aborted | finalized => rw [hs] at h; cases h

theorem sendable_of_owed {owed : DkgPayload × Option Nat} (h : owed ∈ n.owed) :
    Sendable n.state owed.1 := by
  refine (@stamp_ne_none_iff n 0 owed.1).mp ?_
  unfold DkgStateMachine.owed at h
  cases hs : n.state with
  | roundOne r =>
    rw [hs] at h
    obtain ⟨pair, entry, hentry, rfl⟩ :=
      (mem_available (f := fun pair entry => (n.messageOne r pair entry, entry.timer))).mp h
    exact stamp_messageOne hs hentry
  | roundTwo r =>
    rw [hs] at h
    obtain ⟨pair, entry, hentry, rfl⟩ :=
      (mem_available (f := fun pair entry => (n.messageTwo pair entry, entry.timer))).mp h
    exact stamp_messageTwo hs hentry
  | roundThree r =>
    rw [hs] at h
    obtain ⟨pair, entry, hentry, rfl⟩ :=
      (mem_available (f := fun pair entry => (n.messageThree pair entry, entry.timer))).mp h
    exact stamp_messageThree hs hentry
  | awaitingInit | aborted | finalized => rw [hs] at h; cases h

theorem onTimeout_eq {rand : Rand} (h : n.sessionExpired now = false) :
    n.onTimeout lib now rand = (.ok (), { n with queue := n.queue ++ n.resent now }) := by
  simp only [onTimeout, restartExpired, bind_run, get_run, h]
  rfl

/-- After `on_timeout` every overdue package leaves again, unless the session is restarted. -/
theorem overdue_repeated {rand : Rand} (h : n.sessionExpired now = false) :
    ∃ n', n.onTimeout lib now rand = (.ok (), n') ∧
      ∀ times, n'.queue.length ≤ times.length → (sends times n').2.queue = [] ∧
        ∀ m t, (m, some t) ∈ n.owed → t ≤ now → m ∈ (sends times n').1 := by
  refine ⟨_, onTimeout_eq h, fun times hlength => ⟨queue_sends hlength, fun m t howed ht => ?_⟩⟩
  refine mem_sends hlength ?_ (sendable_of_owed howed)
  exact mem_append_right _ (mem_resent howed ht)

/-! ## Runs -/

theorem Delivers.step
    (hpart1 : ∀ id max min rand rand',
      (lib.part1 id max min rand).isSome = (lib.part1 id max min rand').isSome)
    (h : Delivers lib n) {i : MemberEvent} (hstep : (memberStep lib (some n) i).2 = some n') :
    Delivers lib n' := by
  cases i with
  | recv payload rand =>
    rcases recv_cases hstep with hhandles | ⟨n₁, -, -, hhandles, hadvances⟩
    · exact hhandles.delivers hpart1 h
    · exact hadvances.delivers (hhandles.delivers hpart1 h)
  | timeout now rand =>
    obtain ⟨n₁, hn₁, rfl⟩ := onTimeout_cases hstep
    rcases hn₁ with ⟨-, rfl⟩ | ⟨-, nonce, -, hopens⟩
    · exact h.push _
    · exact hopens.delivers.push _
  | send now => exact some.inj hstep ▸ h.send now

variable {myFrostId coordinator : Identifier} {myStaticSec : SecretKey}
variable {members : FinMap Identifier PublicKey} {config : Config} {nonce : Option (BitVec 64)}
variable {rand : Rand} {n₀ : DkgStateMachine} {h : MemberHistory} {s : Option DkgStateMachine}

theorem delivers_of_run
    (hpart1 : ∀ id max min rand rand',
      (lib.part1 id max min rand).isSome = (lib.part1 id max min rand').isSome)
    (hnew : new lib myFrostId myStaticSec coordinator members config nonce rand = .ok n₀)
    (hrun : Run (memberStep lib) (some n₀) h s) : ∀ n, s = some n → Delivers lib n := by
  refine hrun.always (I := fun s => ∀ n, s = some n → Delivers lib n) ?_ ?_
  · intro n hn
    obtain rfl := some.inj hn
    rcases new_cases hnew with rfl | ⟨nonce, hopens⟩
    · exact ⟨trivial, False.elim⟩
    · exact hopens.delivers
  · intro s i hs n' hn'
    cases s with
    | none => cases hn'
    | some n => exact (hs n rfl).step hpart1 hn'

/-- In every run every package is remembered.  After the time `timeout` gives, `on_timeout`
repeats every package whose timer is up, unless it finds the coordinator's session over its
time and starts the next one. -/
theorem no_package_forgotten
    (hpart1 : ∀ id max min rand rand',
      (lib.part1 id max min rand).isSome = (lib.part1 id max min rand').isSome)
    (hnew : new lib myFrostId myStaticSec coordinator members config nonce rand = .ok n₀)
    (hrun : Run (memberStep lib) (some n₀) h (some n)) :
    n.Remembered ∧
      ∀ now d now' rand, n.timeout now = some d → now + d ≤ now' →
        n.sessionExpired now' = false →
        ∃ n', n.onTimeout lib now' rand = (.ok (), n') ∧
          ∀ times, n'.queue.length ≤ times.length → (sends times n').2.queue = [] ∧
            ∀ m t, (m, some t) ∈ n.owed → t ≤ now' → m ∈ (sends times n').1 :=
  ⟨(delivers_of_run hpart1 hnew hrun n rfl).remembered,
    fun _ _ _ _ _ _ hexpired => overdue_repeated hexpired⟩

end

/-! ## A coordinator that repeats its package -/

/-- The package of round one of the coordinator, for member 2. -/
def pairPackage : DkgPayload :=
  ⟨1, 2, .round1 1 sessionContext 1 ⟨false, 105⟩
    ⟨⟨false, 11⟩, .round1 ⟨⟨sessionContext, 1⟩, 1, ⟨false, 105⟩, [5]⟩⟩ [5]⟩

/-- The machine after a run of the coordinator, the newest input first. -/
def pairAfter (inputs : List MemberEvent) : DkgStateMachine :=
  (play (memberStep pairLib) (some (pairFirst pairLib)) inputs).2.getD (pairNode .awaitingInit)

/-- The package has left. -/
def sentOnce : List MemberEvent := [.send 0]

/-- The package has left, was due again after ten milliseconds and left once more much later. -/
def sentLate : List MemberEvent := [.send 90, .timeout 10 0, .send 0]

theorem pairLib_part1 (id : Identifier) (max min : BitVec 16) (rand rand' : Rand) :
    (pairLib.part1 id max min rand).isSome = (pairLib.part1 id max min rand').isSome := rfl

/-- When its timer is up, the package is repeated. -/
theorem package_repeated :
    (pairAfter sentOnce).timeout 0 = some 10 ∧
      (pairPackage, some 10) ∈ (pairAfter sentOnce).owed ∧
      ∃ n', (pairAfter sentOnce).onTimeout pairLib 10 0 = (.ok (), n') ∧
        ∀ times, n'.queue.length ≤ times.length → pairPackage ∈ (sends times n').1 := by
  have hnew : new pairLib 1 11 1 pairNetwork.members pairNetwork.config (some 1) 5 =
      .ok (pairFirst pairLib) := Outcome.eq_ok_getD (by decide +kernel) _
  have hrun : Run (memberStep pairLib) (some (pairFirst pairLib))
      (play (memberStep pairLib) (some (pairFirst pairLib)) sentOnce).1
      (some (pairAfter sentOnce)) := Run.play sentOnce
  have howed : (pairPackage, some 10) ∈ (pairAfter sentOnce).owed := by decide +kernel
  have htimeout : (pairAfter sentOnce).timeout 0 = some 10 := by decide +kernel
  obtain ⟨n', hn', hsends⟩ := (no_package_forgotten pairLib_part1 hnew hrun).2 0 10 10 0
    htimeout (Nat.le_refl 10) (by decide +kernel)
  exact ⟨htimeout, howed, n', hn', fun times hlength =>
    (hsends times hlength).2 pairPackage 10 howed (Nat.le_refl 10)⟩

/-- When the session is over its time as well, the package goes with the session. -/
theorem session_over_drops :
    new pairLib 1 11 1 pairNetwork.members pairNetwork.config (some 1) 5 =
        .ok (pairFirst pairLib) ∧
      (play (memberStep pairLib) (some (pairFirst pairLib)) sentLate).2 =
        some (pairAfter sentLate) ∧
      (pairAfter sentLate).timeout 90 = some 10 ∧
      (pairPackage, some 100) ∈ (pairAfter sentLate).owed ∧
      ((pairAfter sentLate).onTimeout pairLib 100 6).1 = .ok () ∧
      (sends [100, 100] ((pairAfter sentLate).onTimeout pairLib 100 6).2).2.queue = [] ∧
      pairPackage ∉ (sends [100, 100] ((pairAfter sentLate).onTimeout pairLib 100 6).2).1 :=
  ⟨Outcome.eq_ok_getD (by decide +kernel) _, rfl, by decide +kernel, by decide +kernel,
    by decide +kernel, by decide +kernel, by decide +kernel⟩

end Macbeth.Dkg
