import Macbeth.Dkg.FailedTransition
import Macbeth.Lib.Wp

/-!
# One member of the key generation

A member on its own: it receives any messages, in any order, and its calls are made at any
time.  A member that panics is gone; a call that fails leaves the machine as it is then.

What a call can do is said once: handling a message is one of the cases of `Handles`, going on
to the next round one of `Advances`.  What holds of a member in every run is proved along them.
-/

namespace Macbeth.Dkg

open Handler Outcome DkgStateMachine List Option Outcome

/-! ## Runs -/

inductive MemberEvent where
  | recv (payload : DkgPayload) (rand : Rand)
  | timeout (now : Nat) (rand : Rand)
  | send (now : Nat)
  deriving DecidableEq, Repr

/-- What is left of a member after a call. -/
def surviving : Outcome Error Unit × DkgStateMachine → Option DkgStateMachine
  | (.panic, _) => none
  | (_, n) => some n

/-- A call of a member, with the message that leaves it. -/
def memberStep (lib : Lib) :
    Option DkgStateMachine → MemberEvent → Option DkgPayload × Option DkgStateMachine
  | none, _ => (none, none)
  | some n, .recv payload rand => (none, surviving (n.recv lib payload rand))
  | some n, .timeout now rand => (none, surviving (n.onTimeout lib now rand))
  | some n, .send now => ((n.send now).1, some (n.send now).2)

abbrev MemberHistory := History (Option DkgStateMachine) MemberEvent (Option DkgPayload)

/-- The machine the member is at some time of a run. -/
def Visits (h : MemberHistory) (s : Option DkgStateMachine) (n : DkgStateMachine) : Prop :=
  some n ∈ s :: h.map Transition.pre

theorem visits_fire {lib : Lib} {h : MemberHistory} {s s' : Option DkgStateMachine}
    {i : MemberEvent} {n : DkgStateMachine} :
    Visits (fire (memberStep lib) s i :: h) s' n ↔ s' = some n ∨ Visits h s n := by
  simp [Visits, fire, eq_comm]

theorem surviving_eq_some {r : Outcome Error Unit × DkgStateMachine} {n : DkgStateMachine} :
    surviving r = some n ↔ ∃ o, r = (o, n) ∧ o ≠ .panic := by
  rcases r with ⟨_ | _ | _, n'⟩ <;> simp [surviving]

/-- What every end of a call leaves holds of a member that survives it. -/
theorem of_surviving {Q : DkgStateMachine → Prop} {x : Call Unit} {n n' : DkgStateMachine}
    {panics : Prop} (hx : wp x n (fun _ => Q) Q panics) (h : surviving (x n) = some n') : Q n' := by
  obtain ⟨o, hrun, ho⟩ := surviving_eq_some.mp h
  exact hx.of_run hrun ho

/-! ## The small steps of a call -/

section
variable {α : Type} {n : DkgStateMachine} {Q : Unit → DkgStateMachine → Prop}
variable {E : DkgStateMachine → Prop} {panics : Prop}

@[simp] theorem wp_push {msgs : List DkgPayload} :
    wp (push msgs) n Q E panics ↔ Q () { n with queue := n.queue ++ msgs } := Iff.rfl

@[simp] theorem wp_setState {state : StageState} :
    wp (setState state) n Q E panics ↔ Q () { n with state } := Iff.rfl

variable {initiator recipient : Identifier}

@[simp] theorem wp_sendRound1Ack :
    wp (sendRound1Ack initiator recipient) n Q E panics ↔ Q () { n with
      queue := n.queue ++ [⟨n.myFrostId, recipient, .ackRound1 initiator⟩] } := Iff.rfl

@[simp] theorem wp_sendRound2Ack {target : Identifier} :
    wp (sendRound2Ack initiator recipient target) n Q E panics ↔ Q () { n with
      queue := n.queue ++ [⟨n.myFrostId, recipient, .ackRound2 initiator target⟩] } := Iff.rfl

@[simp] theorem wp_sendRound3Ack :
    wp (sendRound3Ack initiator recipient) n Q E panics ↔ Q () { n with
      queue := n.queue ++ [⟨n.myFrostId, recipient, .ackRound3 initiator⟩] } := Iff.rfl

theorem wp_debugAssert {lib : Lib} {c : Prop} [Decidable c] :
    wp (debugAssert lib c) n Q E panics ↔
      ((lib.debugAssertions = true → c) → Q () n) ∧
        (lib.debugAssertions = true → ¬ c → panics) := by
  unfold debugAssert
  by_cases hon : lib.debugAssertions = true <;> by_cases hc : c <;>
    simp [hon, hc, wp, Handler.assert]

theorem wp_orEncryption {x : Except EncryptionError α} {Q : α → DkgStateMachine → Prop} :
    wp (orEncryption x) n Q E panics ↔
      (∀ v, x = .ok v → Q v n) ∧ (∀ e, x = .error e → E n) := by
  cases x <;> simp [wp, orEncryption, Outcome.ofExcept]

theorem wp_orFrost {x : Option α} {Q : α → DkgStateMachine → Prop} :
    wp (orFrost x) n Q E panics ↔ (∀ v, x = some v → Q v n) ∧ (x = none → E n) := by
  cases x <;> simp [wp, orFrost, ofOption]

end

/-! ## Handling a message -/

/-- The answer to a package that is stored. -/
def DkgMessage.ack : DkgMessage → Option DkgMessage
  | .round1 initiator .. => some (.ackRound1 initiator)
  | .round2 initiator target .. => some (.ackRound2 initiator target)
  | .round3 initiator _ => some (.ackRound3 initiator)
  | _ => none

/-- The round a message belongs to. -/
def DkgMessage.round : DkgMessage → Nat
  | .round1 .. | .ackRound1 _ => 1
  | .round2 .. | .ackRound2 .. => 2
  | .round3 .. | .ackRound3 _ => 3

variable (lib : Lib) (n : DkgStateMachine)

namespace DkgStateMachine

/-- The members a stored package goes on to: only the coordinator forwards. -/
def relays {ε : Type} (out : FinMap (Identifier × Identifier) (Option ε))
    (initiator sender : Identifier) : List Identifier :=
  if n.isCoordinator then n.forwardTo out initiator sender else []

/-- A member that has joined a session: it has the package of the coordinator and its own. -/
def joined (nonce : BitVec 64) (package : Round1Package) (auth : DkgHandshakeManager)
    (secretPackage : Secret) (ours : Round1Package) : DkgStateMachine :=
  let (ephPub, signature, auth) := auth.commitRound1 lib ours
  { n with
    sessionActivated := none
    sessionNonce := some nonce
    queue := [⟨n.myFrostId, n.coordinator, .ackRound1 n.coordinator⟩,
      ⟨n.myFrostId, n.coordinator,
        .round1 n.myFrostId sessionContext nonce ephPub signature ours⟩]
    state := .roundOne {
      context := sessionContext
      nonce
      auth
      secretPackage
      inRound1Packages := (∅ : FinMap Identifier Round1Package).insert n.coordinator package
      outRound1Packages := (∅ : FinMap (Identifier × Identifier) (Option OutEntryRoundOne)).insert
        (n.myFrostId, n.coordinator) (some ⟨ours, ephPub, signature, none, 0⟩) } }

/-- The packages of round two that waited for the first one to arrive. -/
def heldTwo (r : RoundTwo) : List DkgPayload :=
  if r.pending then
    (inOrder r.outRound2Packages).filterMap fun e => e.2.map (n.round2Message n.coordinator e.1)
  else []

/-- The signature of round three that waited for the first one to arrive. -/
def heldThree (r : RoundThree) : List DkgPayload :=
  if r.pending then
    (inOrder r.outRound3Packages).filterMap fun e =>
      e.2.map fun entry => ⟨n.myFrostId, e.1.2, .round3 e.1.1 entry.signature⟩
  else []

end DkgStateMachine

/-- The ways in which a message can be handled. -/
inductive Handles (sender : Identifier) (rand : Rand) : DkgMessage → DkgStateMachine → Prop
  | ignored (msg : DkgMessage) : Handles sender rand msg n
  | replied {msg ack : DkgMessage} (hack : msg.ack = some ack) :
    Handles sender rand msg { n with queue := n.queue ++ [⟨n.myFrostId, sender, ack⟩] }
  | joined {nonce : BitVec 64} {ephPub : PublicKey} {signature : Signature}
      {package ours : Round1Package} {opened auth : DkgHandshakeManager} {secretPackage : Secret}
      (hcoordinator : n.isCoordinator = false) (hnonce : n.sessionNonce.all (· < nonce) = true)
      (hstage : n.state.stage ≠ .finalized)
      (hopened : DkgHandshakeManager.new lib sessionContext nonce n.myFrostId n.myStaticSec
        n.members rand = .ok opened)
      (hauth : opened.validateRound1 n.coordinator ephPub signature package = .ok auth)
      (hpart1 : lib.part1 n.myFrostId n.config.maxSigners n.config.minSigners rand =
        some (secretPackage, ours)) :
    Handles sender rand (.round1 n.coordinator sessionContext nonce ephPub signature package)
      (n.joined lib nonce package auth secretPackage ours)
  | joinFailed {nonce : BitVec 64} {ephPub : PublicKey} {signature : Signature}
      {package : Round1Package}
      (hpart1 : lib.part1 n.myFrostId n.config.maxSigners n.config.minSigners rand = none) :
    Handles sender rand (.round1 n.coordinator sessionContext nonce ephPub signature package)
      { n with
        sessionActivated := none
        sessionNonce := some nonce
        queue := [⟨n.myFrostId, n.coordinator, .ackRound1 n.coordinator⟩] }
  | storedOne {r : RoundOne} {initiator : Identifier} {nonce : BitVec 64} {ephPub : PublicKey}
      {signature : Signature} {package : Round1Package} {auth : DkgHandshakeManager}
      (hr : n.state = .roundOne r) (hmember : initiator ∈ n.members)
      (hne : initiator ≠ n.myFrostId) (hnew : initiator ∉ r.inRound1Packages)
      (hauth : r.auth.validateRound1 initiator ephPub signature package = .ok auth) :
    Handles sender rand (.round1 initiator sessionContext nonce ephPub signature package)
      { n with
        queue := n.queue ++ ⟨n.myFrostId, sender, .ackRound1 initiator⟩ ::
          (n.relays r.outRound1Packages initiator sender).map fun recipient =>
            ⟨n.myFrostId, recipient,
              .round1 initiator r.context r.nonce ephPub signature package⟩
        state := .roundOne { r with
          auth
          inRound1Packages := r.inRound1Packages.insert initiator package
          outRound1Packages := fillEntries r.outRound1Packages initiator
            (n.relays r.outRound1Packages initiator sender)
            ⟨package, ephPub, signature, none, 0⟩ } }
  | storedTwo {r : RoundTwo} {initiator : Identifier} {nonce : BitVec 64}
      {ciphertext : List UInt8} {package : Round2Package} {auth : SecureChannelManager}
      (hr : n.state = .roundTwo r) (hmember : initiator ∈ n.members)
      (hne : initiator ≠ n.myFrostId) (hnew : initiator ∉ r.inRound2Packages)
      (hauth : r.auth.validateRound2 lib initiator nonce ciphertext = .ok (package, auth)) :
    Handles sender rand (.round2 initiator n.myFrostId nonce ciphertext)
      { n with
        queue := n.queue ++ ⟨n.myFrostId, sender, .ackRound2 initiator n.myFrostId⟩ ::
          n.heldTwo r
        state := .roundTwo { r with
          pending := false
          auth
          inRound2Packages := r.inRound2Packages.insert initiator package } }
  | forwarded {r : RoundTwo} {initiator target : Identifier} {nonce : BitVec 64}
      {ciphertext : List UInt8} (hr : n.state = .roundTwo r) (hcoordinator : n.isCoordinator = true)
      (htarget : target ≠ n.myFrostId) (hentry : (initiator, target) ∈ r.outRound2Packages) :
    Handles sender rand (.round2 initiator target nonce ciphertext)
      { n with
        queue := n.queue ++ [⟨n.myFrostId, sender, .ackRound2 initiator target⟩,
          n.round2Message target (initiator, target) ⟨nonce, ciphertext, none, 0⟩]
        state := .roundTwo { r with
          outRound2Packages := r.outRound2Packages.insert (initiator, target)
            (some ⟨nonce, ciphertext, none, 0⟩) } }
  | storedThree {r : RoundThree} {initiator : Identifier} {signature : Signature}
      {auth : KeyVerificationManager} (hr : n.state = .roundThree r)
      (hmember : initiator ∈ n.members) (hne : initiator ≠ n.myFrostId)
      (hnew : initiator ∉ r.inRound3Packages)
      (hauth : r.auth.validateRound3 initiator signature = .ok auth) :
    Handles sender rand (.round3 initiator signature)
      { n with
        queue := n.queue ++ ⟨n.myFrostId, sender, .ackRound3 initiator⟩ ::
          (n.heldThree r ++ (n.relays r.outRound3Packages initiator sender).map fun recipient =>
            ⟨n.myFrostId, recipient, .round3 initiator signature⟩)
        state := .roundThree { r with
          pending := false
          auth
          inRound3Packages := r.inRound3Packages.insert initiator signature
          outRound3Packages := fillEntries r.outRound3Packages initiator
            (n.relays r.outRound3Packages initiator sender) ⟨signature, none, 0⟩ } }
  | ackedOne {r : RoundOne} {initiator : Identifier} (hr : n.state = .roundOne r) :
    Handles sender rand (.ackRound1 initiator) { n with
      state := .roundOne { r with
        outRound1Packages := r.outRound1Packages.erase (initiator, sender) } }
  | ackedTwo {r : RoundTwo} {initiator target : Identifier} (hr : n.state = .roundTwo r) :
    Handles sender rand (.ackRound2 initiator target) { n with
      state := .roundTwo { r with
        outRound2Packages := r.outRound2Packages.erase (initiator, target) } }
  | ackedThree {r : RoundThree} {initiator : Identifier} (hr : n.state = .roundThree r) :
    Handles sender rand (.ackRound3 initiator) { n with
      state := .roundThree { r with
        outRound3Packages := r.outRound3Packages.erase (initiator, sender) } }

section
variable {lib n} {sender : Identifier} {rand : Rand}

/-- A call that handles a message, from a given state. -/
abbrev HandlesBy (lib : Lib) (n : DkgStateMachine) (sender : Identifier) (rand : Rand)
    (msg : DkgMessage) (x : Call Unit) : Prop :=
  wp x n (fun _ => Handles lib n sender rand msg) (Handles lib n sender rand msg) True

variable {initiator : Identifier} {nonce : BitVec 64} {ephPub : PublicKey} {signature : Signature}
variable {package : Round1Package}

theorem storeRound1_handles (hmember : initiator ∈ n.members) (hne : initiator ≠ n.myFrostId) :
    HandlesBy lib n sender rand (.round1 initiator sessionContext nonce ephPub signature package)
      (storeRound1 initiator ephPub signature package sender) := by
  simp only [HandlesBy, storeRound1, wp_bind, wp_get]
  split
  · next r hr =>
    simp only [wp_ite, wp_bind, wp_orEncryption, wp_setState, wp_sendRound1Ack, wp_push,
      append_assoc, singleton_append]
    exact ⟨fun _ => .replied rfl, fun hnew =>
      ⟨fun auth hauth => .storedOne hr hmember hne hnew hauth, fun _ _ => .ignored _⟩⟩
  · simp only [wp_ite, wp_sendRound1Ack, wp_pure]
    exact ⟨fun _ => .replied rfl, fun _ => .ignored _⟩

/-- A member joins the session of a package, or goes on as it was. -/
theorem validateNewSessionInit_handles {context : List UInt8} :
    wp (validateNewSessionInit lib initiator context nonce ephPub signature package rand) n
      (fun joins n' => if joins then
          Handles lib n sender rand (.round1 initiator context nonce ephPub signature package) n'
        else n' = n)
      (Handles lib n sender rand (.round1 initiator context nonce ephPub signature package))
      True := by
  simp only [validateNewSessionInit, wp_bind, wp_get, wp_ite, wp_pure, wp_orEncryption, wp_orFrost,
    wp_update, wp_push, wp_setState, wp_sendRound1Ack, Bool.false_eq_true, if_false, if_true,
    implies_true, true_and]
  intro hcoordinator hinitiator hcontext hnonce hstage
  obtain rfl := not_not.mp hinitiator
  obtain rfl := not_not.mp hcontext
  refine ⟨fun opened hopened => ⟨fun auth hauth => ⟨fun ours hpart1 => ?_, ?_⟩, ?_⟩, ?_⟩
  · refine .joined (by simpa using hcoordinator) ?_ hstage hopened hauth hpart1
    cases h : n.sessionNonce <;> simp_all
  · exact fun hpart1 => .joinFailed hpart1
  · exact fun _ _ => .ignored _
  · exact fun _ _ => .ignored _

theorem onDkgMsgRound1_handles {context : List UInt8} :
    HandlesBy lib n sender rand (.round1 initiator context nonce ephPub signature package)
      (onDkgMsgRound1 lib initiator context nonce ephPub signature package sender rand) := by
  simp only [HandlesBy, onDkgMsgRound1, wp_bind, wp_get, wp_ite, wp_pure, wp_debugAssert,
    implies_true, and_true]
  refine ⟨fun _ => .ignored _, fun hmember => ⟨fun _ => .ignored _, fun hne =>
    ⟨fun _ => .ignored _, fun hcontext => ⟨fun _ => .ignored _, fun _ _ => ?_⟩⟩⟩⟩
  obtain rfl := not_not.mp hcontext
  refine ⟨fun _ => ?_, fun _ => ?_⟩
  · refine validateNewSessionInit_handles.mono (fun joins n' hjoins => ?_) fun _ h => h
    refine ⟨fun h _ => by simpa [h] using hjoins, fun h => ?_⟩
    obtain rfl : n' = n := by simpa [h] using hjoins
    exact storeRound1_handles (not_not.mp hmember) hne
  · exact ⟨fun h => absurd h Bool.false_ne_true, fun _ =>
      storeRound1_handles (not_not.mp hmember) hne⟩

variable {ciphertext : List UInt8}

theorem storeRound2_handles {r : RoundTwo} (hr : n.state = .roundTwo r)
    (hmember : initiator ∈ n.members) (hne : initiator ≠ n.myFrostId) :
    HandlesBy lib n sender rand (.round2 initiator n.myFrostId nonce ciphertext)
      (storeRound2 lib r initiator n.myFrostId nonce ciphertext sender) := by
  simp only [HandlesBy, storeRound2, wp_bind, wp_get, wp_ite, wp_pure, wp_debugAssert,
    wp_orEncryption, wp_push, wp_setState, wp_sendRound2Ack, implies_true, and_true]
  refine ⟨fun _ => .replied rfl, fun hnew => ⟨fun checked hchecked => ?_, fun _ _ => .ignored _⟩⟩
  have hstored : Handles lib n sender rand (.round2 initiator n.myFrostId nonce ciphertext) _ :=
    .storedTwo hr hmember hne hnew hchecked
  refine ⟨fun hpending _ _ => ?_, fun hpending => ?_⟩
  · simpa [heldTwo, hpending] using hstored
  · simpa [heldTwo, hpending] using hstored

variable {target : Identifier}

theorem forwardRound2_handles {r : RoundTwo} (hr : n.state = .roundTwo r)
    (hcoordinator : n.isCoordinator = true) (htarget : target ≠ n.myFrostId) :
    HandlesBy lib n sender rand (.round2 initiator target nonce ciphertext)
      (forwardRound2 lib r initiator target nonce ciphertext sender) := by
  simp only [HandlesBy, forwardRound2, wp_bind, wp_get, wp_ite, wp_pure, wp_debugAssert, wp_push,
    wp_setState, wp_sendRound2Ack, implies_true, and_true, append_assoc,
    singleton_append]
  exact fun _ => ⟨fun hentry => .forwarded hr hcoordinator htarget hentry, fun _ => .ignored _⟩

theorem onDkgMsgRound2_handles :
    HandlesBy lib n sender rand (.round2 initiator target nonce ciphertext)
      (onDkgMsgRound2 lib initiator target nonce ciphertext sender) := by
  simp only [HandlesBy, onDkgMsgRound2, wp_bind, wp_get, wp_ite, wp_pure]
  refine ⟨fun _ => .ignored _, fun hmember => ⟨fun _ => .ignored _, fun hne => ?_⟩⟩
  split
  · next r hr =>
    simp only [wp_ite, wp_pure]
    refine ⟨fun htarget => ?_, fun htarget => ⟨fun hcoordinator => ?_, fun _ => .ignored _⟩⟩
    · subst htarget
      exact storeRound2_handles hr (not_not.mp hmember) hne
    · exact forwardRound2_handles hr hcoordinator htarget
  · simp only [wp_ite, wp_sendRound2Ack, wp_pure]
    exact ⟨fun _ => .replied rfl, fun _ => .ignored _⟩

theorem storeRound3_handles {r : RoundThree} (hr : n.state = .roundThree r)
    (hmember : initiator ∈ n.members) (hne : initiator ≠ n.myFrostId) :
    HandlesBy lib n sender rand (.round3 initiator signature)
      (storeRound3 lib r initiator signature sender) := by
  simp only [HandlesBy, storeRound3, sendPendingRound3, wp_bind, wp_get, wp_ite, wp_pure,
    wp_debugAssert, wp_orEncryption, wp_push, wp_setState, wp_sendRound3Ack, implies_true, and_true]
  refine ⟨fun _ => .replied rfl, fun hnew => ⟨fun auth hauth => ?_, fun _ _ => .ignored _⟩⟩
  have hstored : Handles lib n sender rand (.round3 initiator signature) _ :=
    .storedThree hr hmember hne hnew hauth
  refine ⟨fun hpending _ _ _ => ?_, fun hpending => ?_⟩
  · simpa [heldThree, hpending, relays] using hstored
  · simpa [heldThree, hpending, relays] using hstored

theorem onDkgMsgRound3_handles :
    HandlesBy lib n sender rand (.round3 initiator signature)
      (onDkgMsgRound3 lib initiator signature sender) := by
  simp only [HandlesBy, onDkgMsgRound3, wp_bind, wp_get, wp_ite, wp_pure]
  refine ⟨fun _ => .ignored _, fun hmember => ⟨fun _ => .ignored _, fun hne => ?_⟩⟩
  split
  · next r hr => exact storeRound3_handles hr (not_not.mp hmember) hne
  · simp only [wp_ite, wp_sendRound3Ack, wp_pure]
    exact ⟨fun _ => .replied rfl, fun _ => .ignored _⟩

theorem onDkgMsgAckRound1_handles :
    HandlesBy lib n sender rand (.ackRound1 initiator) (onDkgMsgAckRound1 initiator sender) := by
  simp only [HandlesBy, onDkgMsgAckRound1, wp_bind, wp_get, wp_ite, wp_pure]
  refine ⟨fun _ => .ignored _, fun _ => ?_⟩
  split
  · next r hr => exact .ackedOne hr
  · exact .ignored _

theorem onDkgMsgAckRound2_handles :
    HandlesBy lib n sender rand (.ackRound2 initiator target)
      (onDkgMsgAckRound2 initiator target) := by
  simp only [HandlesBy, onDkgMsgAckRound2, wp_bind, wp_get, wp_ite, wp_pure]
  refine ⟨fun _ => .ignored _, fun _ => ?_⟩
  split
  · next r hr => exact .ackedTwo hr
  · exact .ignored _

theorem onDkgMsgAckRound3_handles :
    HandlesBy lib n sender rand (.ackRound3 initiator) (onDkgMsgAckRound3 initiator sender) := by
  simp only [HandlesBy, onDkgMsgAckRound3, wp_bind, wp_get, wp_ite, wp_pure]
  refine ⟨fun _ => .ignored _, fun _ => ?_⟩
  split
  · next r hr => exact .ackedThree hr
  · exact .ignored _

/-- Every message is handled in one of the ways. -/
theorem handle_handles (payload : DkgPayload) :
    HandlesBy lib n payload.sender rand payload.msg (handle lib payload rand) := by
  unfold handle
  cases payload.msg with
  | round1 => exact onDkgMsgRound1_handles
  | ackRound1 => exact onDkgMsgAckRound1_handles
  | round2 => exact onDkgMsgRound2_handles
  | ackRound2 => exact onDkgMsgAckRound2_handles
  | round3 => exact onDkgMsgRound3_handles
  | ackRound3 => exact onDkgMsgAckRound3_handles

end

/-! ## Going on to the next round -/

namespace DkgStateMachine

/-- The packages of round two, encrypted for their targets. -/
def commitShares (auth : SecureChannelManager) : List (Identifier × Round2Package) →
    Except EncryptionError (SecureChannelManager × List (Identifier × OutEntryRoundTwo))
  | [] => .ok (auth, [])
  | (target, package) :: shares => do
    let (ciphertext, nonce, auth) ← auth.commitRound2 lib target package
    let (auth, entries) ← commitShares auth shares
    return (auth, (target, ⟨nonce, ciphertext, none, 0⟩) :: entries)

/-- The outgoing packages of round two: the own ones, and for the coordinator those to come. -/
def outgoingTwo (entries : List (Identifier × OutEntryRoundTwo)) :
    FinMap (Identifier × Identifier) (Option OutEntryRoundTwo) :=
  FinMap.ofList ((entries.map fun e => ((n.myFrostId, e.1), some e.2)) ++
    (if n.isCoordinator then n.deliveries.filter fun pair => pair.1 ≠ n.myFrostId else []).map
      fun pair => (pair, none))

/-- The packages the coordinator sends at the start of round two. -/
def messagesTwo (entries : List (Identifier × OutEntryRoundTwo)) : List DkgPayload :=
  if n.isCoordinator then entries.map fun e => n.round2Message e.1 (n.myFrostId, e.1) e.2 else []

end DkgStateMachine

/-- The ways in which a member goes on after a message, or does not. -/
inductive Advances (msg : DkgMessage) : DkgStateMachine → Prop
  | waits : Advances msg n
  | aborted {r : RoundOne} (hmsg : msg.round = 1) (hr : n.state = .roundOne r)
      (hstarts : StartsStage2 n r)
      (hpart2 : lib.part2 r.secretPackage r.inRound1Packages = none) :
    Advances msg { n with state := .aborted }
  | unfinished {r : RoundOne} {e : EncryptionError} (hmsg : msg.round = 1)
      (hr : n.state = .roundOne r)
      (hstarts : StartsStage2 n r) (hfinalize : r.auth.finalize lib = .err e) :
    Advances msg { n with state := .roundOne { r with inRound1Packages := ∅ } }
  | unsealed {r : RoundOne} {secretPackage : Secret} {shares : FinMap Identifier Round2Package}
      {auth : SecureChannelManager} {left : DkgHandshakeManager} {e : EncryptionError}
      {msgs : List DkgPayload} (hmsg : msg.round = 1) (hr : n.state = .roundOne r)
      (hstarts : StartsStage2 n r)
      (hpart2 : lib.part2 r.secretPackage r.inRound1Packages = some (secretPackage, shares))
      (hfinalize : r.auth.finalize lib = .ok (auth, left))
      (hseal : commitShares lib auth (ascending shares) = .error e) :
    Advances msg { n with
      queue := n.queue ++ msgs
      state := .roundOne { r with inRound1Packages := ∅, auth := left } }
  | second {r : RoundOne} {secretPackage : Secret} {shares : FinMap Identifier Round2Package}
      {auth auth' : SecureChannelManager} {left : DkgHandshakeManager}
      {entries : List (Identifier × OutEntryRoundTwo)} (hmsg : msg.round = 1)
      (hr : n.state = .roundOne r)
      (hstarts : StartsStage2 n r)
      (hpart2 : lib.part2 r.secretPackage r.inRound1Packages = some (secretPackage, shares))
      (hfinalize : r.auth.finalize lib = .ok (auth, left))
      (hseal : commitShares lib auth (ascending shares) = .ok (auth', entries)) :
    Advances msg { n with
      queue := n.queue ++ n.messagesTwo entries
      state := .roundTwo {
        pending := !n.isCoordinator
        auth := auth'
        secretPackage
        inRound1Packages := r.inRound1Packages
        inRound2Packages := ∅
        outRound2Packages := n.outgoingTwo entries } }
  | lost {r : RoundTwo} (hmsg : msg.round = 2)
      (hr : n.state = .roundTwo r) (hstarts : StartsStage3 lib n r)
      (hfails : lib.part3 r.secretPackage r.inRound1Packages r.inRound2Packages = none ∨
        ∃ e, r.auth.finalize = .error e) :
    Advances msg { n with
      state := .roundTwo { r with inRound1Packages := ∅, inRound2Packages := ∅ } }
  | third {r : RoundTwo} {secretPackage : Secret} {publicKeyPackage : PublicKeyPackage}
      {auth : KeyVerificationManager} {left : SecureChannelManager} (hmsg : msg.round = 2)
      (hr : n.state = .roundTwo r)
      (hstarts : StartsStage3 lib n r)
      (hpart3 : lib.part3 r.secretPackage r.inRound1Packages r.inRound2Packages =
        some (secretPackage, publicKeyPackage))
      (hfinalize : r.auth.finalize = .ok (auth, left)) :
    Advances msg { n with
      queue := n.queue ++ if n.isCoordinator then
          n.others.map fun recipient => ⟨n.myFrostId, recipient,
            .round3 n.myFrostId (auth.commitRound3 lib publicKeyPackage).1⟩
        else []
      state := .roundThree {
        pending := !n.isCoordinator
        auth := (auth.commitRound3 lib publicKeyPackage).2
        secretPackage
        publicKeyPackage
        inRound1Packages := r.inRound1Packages
        inRound2Packages := r.inRound2Packages
        inRound3Packages := ∅
        outRound3Packages := if n.isCoordinator then
            n.ownEntries ⟨(auth.commitRound3 lib publicKeyPackage).1, none, 0⟩
          else (∅ : FinMap (Identifier × Identifier) (Option OutEntryRoundThree)).insert
            (n.myFrostId, n.coordinator)
            (some ⟨(auth.commitRound3 lib publicKeyPackage).1, none, 0⟩) } }
  | finished {r : RoundThree} (hmsg : msg.round = 3)
      (hr : n.state = .roundThree r)
      (hin : r.inRound3Packages.keys.length = n.members.keys.length - 1)
      (hout : r.outRound3Packages.keys = []) (hfinalize : r.auth.finalize = .ok ()) :
    Advances msg { n with
      state := .finalized r.secretPackage r.publicKeyPackage
      sessionNonce := none
      sessionActivated := none }

section
variable {lib n}

theorem wp_sealShares {s : DkgStateMachine} {E : DkgStateMachine → Prop} {panics : Prop} :
    ∀ {shares : List (Identifier × Round2Package)} {n : DkgStateMachine}
      {auth : SecureChannelManager}
      {Q : SecureChannelManager × List ((Identifier × Identifier) × Option OutEntryRoundTwo) →
        DkgStateMachine → Prop},
      (∀ auth' entries, commitShares lib auth shares = .ok (auth', entries) →
        Q (auth', entries.map fun e => ((s.myFrostId, e.1), some e.2))
          { n with queue := n.queue ++ s.messagesTwo entries }) →
      (∀ e msgs, commitShares lib auth shares = .error e →
        E { n with queue := n.queue ++ msgs }) →
      wp (sealShares lib s auth shares) n Q E panics
  | [], n, auth, Q, hok, _ => by
    simpa [sealShares, messagesTwo] using hok auth [] rfl
  | (target, package) :: shares, n, auth, Q, hok, herr => by
    simp only [sealShares, wp_bind, wp_orEncryption, wp_push, wp_pure]
    refine ⟨fun committed hcommit => ?_, fun e he => ?_⟩
    · refine wp_sealShares (fun auth' entries hentries => ?_) fun e msgs he => ?_
      · have := hok auth' ((target, ⟨committed.2.1, committed.1, none, 0⟩) :: entries)
          (by simp [commitShares, hcommit, hentries, bind, Except.bind, pure, Except.pure])
        cases hcoordinator : s.isCoordinator <;>
          simpa [messagesTwo, hcoordinator] using this
      · have := herr e ((if s.isCoordinator then [s.round2Message target (s.myFrostId, target)
            ⟨committed.2.1, committed.1, none, 0⟩] else []) ++ msgs)
          (by simp [commitShares, hcommit, he, bind, Except.bind])
        simpa using this
    · simpa using herr e [] (by simp [commitShares, he, bind, Except.bind])

/-- A call that may go on to the next round, from a given state. -/
abbrev AdvancesBy (lib : Lib) (n : DkgStateMachine) (msg : DkgMessage) (x : Call Unit) : Prop :=
  wp x n (fun _ => Advances lib n msg) (Advances lib n msg) True

variable {msg : DkgMessage}

theorem transitionStage2Checked_advances (hmsg : msg.round = 1) :
    AdvancesBy lib n msg (transitionStage2Checked lib) := by
  simp only [AdvancesBy, transitionStage2Checked, wp_bind, wp_get]
  split
  · next r hr =>
    simp only [wp_ite, wp_bind, wp_pure, wp_setState]
    refine ⟨fun _ => .waits, fun htest => ?_⟩
    have hstarts : StartsStage2 n r := by simpa [StartsStage2, not_or] using htest
    split
    · next hpart2 => exact .aborted hmsg hr hstarts hpart2
    · next secretPackage shares hpart2 =>
      simp only [wp_bind, wp_setState]
      cases hfinalize : r.auth.finalize lib with
      | ok keys =>
        refine wp_sealShares (fun auth' entries hseal => ?_) fun e msgs hseal => ?_
        · exact .second hmsg hr hstarts hpart2 hfinalize hseal
        · exact .unsealed hmsg hr hstarts hpart2 hfinalize hseal
      | err e => exact .unfinished hmsg hr hstarts hfinalize
      | panic => exact trivial
  · exact .waits

theorem transitionStage3Checked_advances (hmsg : msg.round = 2) :
    AdvancesBy lib n msg (transitionStage3Checked lib) := by
  simp only [AdvancesBy, transitionStage3Checked, wp_bind, wp_get]
  split
  · next r hr =>
    simp only [wp_ite, wp_bind, wp_pure, wp_setState, wp_debugAssert, implies_true, and_true]
    refine fun hone => ⟨fun _ => .waits, fun htest hpending => ?_⟩
    have hcomplete := not_or.mp htest
    have hstarts : StartsStage3 lib n r :=
      ⟨not_not.mp hcomplete.1, not_not.mp hcomplete.2, fun h => ⟨hone h, hpending h⟩⟩
    split
    · next hpart3 => exact .lost hmsg hr hstarts (.inl hpart3)
    · next secretPackage publicKeyPackage hpart3 =>
      simp only [wp_bind, wp_orEncryption, wp_push, wp_setState]
      exact ⟨fun keys hfinalize => .third hmsg hr hstarts hpart3 hfinalize,
        fun e he => .lost hmsg hr hstarts (.inr ⟨e, he⟩)⟩
  · exact .waits

theorem transitionFinalChecked_advances (hmsg : msg.round = 3) :
    AdvancesBy lib n msg (transitionFinalChecked lib) := by
  simp only [AdvancesBy, transitionFinalChecked, wp_bind, wp_get]
  split
  · next r hr =>
    simp only [wp_ite, wp_bind, wp_pure, wp_update, wp_debugAssert, wp_orEncryption, implies_true,
      and_true]
    refine fun _ _ => ⟨fun _ => .waits, fun htest => ⟨fun _ hfinalize _ => ?_, fun _ _ => .waits⟩⟩
    have hcomplete := not_or.mp htest
    exact .finished hmsg hr (not_not.mp hcomplete.1) (not_not.mp hcomplete.2) hfinalize
  · exact .waits

theorem advance_advances (payload : DkgPayload) :
    AdvancesBy lib n payload.msg (advance lib payload) := by
  unfold advance
  cases payload.msg with
  | round1 | ackRound1 => exact transitionStage2Checked_advances rfl
  | round2 | ackRound2 => exact transitionStage3Checked_advances rfl
  | round3 | ackRound3 => exact transitionFinalChecked_advances rfl

variable {rand : Rand} {n' : DkgStateMachine}

/-- A member that survives a message has handled it, and then gone on if that did not fail. -/
theorem recv_cases {payload : DkgPayload} (h : surviving (n.recv lib payload rand) = some n') :
    Handles lib n payload.sender rand payload.msg n' ∨
      ∃ n₁, payload.recipient = n.myFrostId ∧ handle lib payload rand n = (.ok (), n₁) ∧
        Handles lib n payload.sender rand payload.msg n₁ ∧ Advances lib n₁ payload.msg n' := by
  by_cases hrecipient : payload.recipient = n.myFrostId
  · rw [recv_eq lib rand hrecipient, bind_run] at h
    have hhandles : ∀ o n₁, handle lib payload rand n = (o, n₁) → o ≠ .panic →
        Handles lib n payload.sender rand payload.msg n₁ :=
      fun _ _ hrun => (handle_handles payload).of_run hrun
    rcases hrun : handle lib payload rand n with ⟨_ | _ | _, n₁⟩
    · rw [hrun] at h
      exact .inr ⟨n₁, hrecipient, rfl, hhandles _ _ hrun (by simp),
        of_surviving (advance_advances payload) h⟩
    · rw [hrun] at h
      exact .inl (some.inj h ▸ hhandles _ _ hrun (by simp))
    · simp [hrun, surviving] at h
  · have hrecv : n.recv lib payload rand = (.ok (), n) := by
      unfold recv
      rw [bind_run, get_run]
      dsimp only
      rw [if_pos hrecipient]
      rfl
    rw [hrecv] at h
    exact .inl (some.inj h ▸ .ignored _)

/-! ## Sessions -/

namespace DkgStateMachine

/-- A coordinator that has started a session: it has its own package. -/
def opened (lib : Lib) (n : DkgStateMachine) (nonce : BitVec 64) (auth : DkgHandshakeManager)
    (secretPackage : Secret) (package : Round1Package) : DkgStateMachine :=
  let (ephPub, signature, auth) := auth.commitRound1 lib package
  { n with
    sessionActivated := none
    sessionNonce := some nonce
    queue := n.others.map fun recipient => ⟨n.myFrostId, recipient,
      .round1 n.myFrostId sessionContext nonce ephPub signature package⟩
    state := .roundOne {
      context := sessionContext
      nonce
      auth
      secretPackage
      inRound1Packages := ∅
      outRound1Packages := n.ownEntries ⟨package, ephPub, signature, none, 0⟩ } }

end DkgStateMachine

/-- A session is started. -/
inductive Opens (lib : Lib) (n : DkgStateMachine) (nonce : BitVec 64) (rand : Rand) :
    DkgStateMachine → Prop
  | opened {auth : DkgHandshakeManager} {secretPackage : Secret} {package : Round1Package}
      (hauth : DkgHandshakeManager.new lib sessionContext nonce n.myFrostId n.myStaticSec
        n.members rand = .ok auth)
      (hpart1 : lib.part1 n.myFrostId n.config.maxSigners n.config.minSigners rand =
        some (secretPackage, package)) :
    Opens lib n nonce rand (n.opened lib nonce auth secretPackage package)

theorem initNewSession_opens {nonce : BitVec 64} :
    wp (initNewSession lib nonce rand) n (fun _ => Opens lib n nonce rand) (fun _ => True)
      True := by
  simp only [initNewSession, wp_bind, wp_get, wp_debugAssert, wp_update, wp_orFrost,
    wp_orEncryption, wp_push, wp_setState, implies_true, and_true]
  exact fun _ _ hpart1 _ hauth => .opened hauth hpart1

/-- A new member waits, or is the coordinator in its first session. -/
theorem new_cases {myFrostId coordinator : Identifier} {myStaticSec : SecretKey}
    {members : FinMap Identifier PublicKey} {config : Config} {nonce : Option (BitVec 64)}
    {n : DkgStateMachine}
    (h : new lib myFrostId myStaticSec coordinator members config nonce rand = .ok n) :
    n = awaiting myFrostId myStaticSec coordinator members config ∨
      ∃ nonce, Opens lib (awaiting myFrostId myStaticSec coordinator members config) nonce rand
        n := by
  unfold new at h
  dsimp only at h
  iterate 4 (split at h; cases h)
  split at h
  · split at h
    · cases h
    · next nonce =>
      split at h
      · next n' hrun =>
        obtain rfl := ok.inj h
        have hopens := @initNewSession_opens lib
          (awaiting myFrostId myStaticSec coordinator members config) rand nonce
        unfold wp at hopens
        rw [hrun] at hopens
        exact .inr ⟨nonce, hopens⟩
      · cases h
      · cases h
  · exact .inl (ok.inj h).symm

/-- What is overdue is repeated, in a new session if the old one is over its time. -/
def Repeats (lib : Lib) (n : DkgStateMachine) (now : Nat) (rand : Rand) (n' : DkgStateMachine) :
    Prop :=
  ∃ n₁, (n.sessionExpired now = false ∧ n₁ = n ∨
      n.sessionExpired now = true ∧ ∃ nonce, n.sessionNonce = some nonce ∧
        Opens lib n (nonce + 1) rand n₁) ∧
    n' = { n₁ with queue := n₁.queue ++ n₁.resent now }

variable {now : Nat}

theorem onTimeout_cases (h : surviving (n.onTimeout lib now rand) = some n') :
    Repeats lib n now rand n' := by
  suffices hends : wp (onTimeout lib now rand) n (fun _ => Repeats lib n now rand)
      (Repeats lib n now rand) True from of_surviving hends h
  simp only [onTimeout, restartExpired, wp_bind, wp_get, wp_ite, wp_pure, wp_push]
  refine ⟨fun hexpired => ?_, fun hexpired => ?_⟩
  · cases hnonce : n.sessionNonce with
    | none => exact trivial
    | some nonce =>
      have hopens := @initNewSession_opens lib n rand (nonce + 1)
      simp only [wp, orPanic, Handler.expect, lift_run] at hopens ⊢
      rcases hrun : initNewSession lib (nonce + 1) rand n with ⟨_ | _ | _, n₁⟩
      · rw [hrun] at hopens
        exact ⟨n₁, .inr ⟨hexpired, nonce, hnonce, hopens⟩, rfl⟩
      · trivial
      · trivial
  · exact ⟨n, .inl ⟨by simpa using hexpired, rfl⟩, rfl⟩

/-! ## Messages that leave -/

/-- A message leaves the queue after those that are outdated. -/
theorem send_cases :
    (∀ m ∈ n.queue, n.stamp now m = none) ∧ n.send now = (none, { n with queue := [] }) ∨
      ∃ outdated payload rest n₁, n.queue = outdated ++ payload :: rest ∧
        (∀ m ∈ outdated, n.stamp now m = none) ∧ n.stamp now payload = some n₁ ∧
        n.send now = (some payload, { n₁ with queue := rest }) := by
  unfold send
  induction n.queue with
  | nil => exact .inl ⟨fun _ h => absurd h not_mem_nil, rfl⟩
  | cons payload rest ih =>
    unfold sendFrom
    cases hstamp : n.stamp now payload with
    | some n₁ => exact .inr ⟨[], payload, rest, n₁, rfl, by simp, hstamp, rfl⟩
    | none =>
      rcases ih with ⟨hall, hsend⟩ | ⟨outdated, m, rest', n₁, rfl, hout, hm, hsend⟩
      · exact .inl ⟨forall_mem_cons.mpr ⟨hstamp, hall⟩, hsend⟩
      · exact .inr ⟨payload :: outdated, m, rest', n₁, rfl,
          forall_mem_cons.mpr ⟨hstamp, hout⟩, hm, hsend⟩

/-- What the machine notes of a message that leaves: a package is timed from then on. -/
inductive Stamps (n : DkgStateMachine) (now : Nat) (payload : DkgPayload) : DkgStateMachine → Prop
  | reply (hmsg : payload.msg.ack = none) : Stamps n now payload n
  | one {r : RoundOne} {initiator : Identifier} {context : List UInt8} {nonce : BitVec 64}
      {ephPub : PublicKey} {signature : Signature} {package : Round1Package}
      {entry : OutEntryRoundOne}
      (hmsg : payload.msg = .round1 initiator context nonce ephPub signature package)
      (hr : n.state = .roundOne r)
      (hentry : r.outRound1Packages.lookup (initiator, payload.recipient) = some (some entry)) :
    Stamps n now payload { n with
      sessionActivated := some (n.sessionActivated.getD now)
      state := .roundOne { r with
        outRound1Packages := r.outRound1Packages.insert (initiator, payload.recipient)
          (some { entry with
            timer := some (now + n.config.round1PackageTimeout)
            attempts := entry.attempts + 1 }) } }
  | two {r : RoundTwo} {initiator target : Identifier} {nonce : BitVec 64}
      {ciphertext : List UInt8} {entry : OutEntryRoundTwo}
      (hmsg : payload.msg = .round2 initiator target nonce ciphertext)
      (hr : n.state = .roundTwo r)
      (hentry : r.outRound2Packages.lookup (initiator, target) = some (some entry)) :
    Stamps n now payload { n with
      state := .roundTwo { r with
        outRound2Packages := r.outRound2Packages.insert (initiator, target)
          (some { entry with
            timer := some (now + n.config.round2PackageTimeout)
            attempts := entry.attempts + 1 }) } }
  | three {r : RoundThree} {initiator : Identifier} {signature : Signature}
      {entry : OutEntryRoundThree} (hmsg : payload.msg = .round3 initiator signature)
      (hr : n.state = .roundThree r)
      (hentry : r.outRound3Packages.lookup (initiator, payload.recipient) = some (some entry)) :
    Stamps n now payload { n with
      state := .roundThree { r with
        outRound3Packages := r.outRound3Packages.insert (initiator, payload.recipient)
          (some { entry with
            timer := some (now + n.config.round3PackageTimeout)
            attempts := entry.attempts + 1 }) } }

theorem stamp_cases {payload : DkgPayload} (h : n.stamp now payload = some n') :
    Stamps n now payload n' := by
  unfold stamp at h
  split at h
  · next hmsg hr =>
    split at h
    · next hentry => exact some.inj h ▸ .one hmsg hr hentry
    · cases h
  · next hmsg hr =>
    split at h
    · next hentry => exact some.inj h ▸ .two hmsg hr hentry
    · cases h
  · next hmsg hr =>
    split at h
    · next hentry => exact some.inj h ▸ .three hmsg hr hentry
    · cases h
  · cases h
  · cases h
  · cases h
  · next h₁ h₂ h₃ _ _ _ =>
    obtain rfl := some.inj h
    refine .reply ?_
    cases hmsg : payload.msg with
    | round1 => exact (h₁ _ _ _ _ _ _ hmsg).elim
    | round2 => exact (h₂ _ _ _ _ hmsg).elim
    | round3 => exact (h₃ _ _ hmsg).elim
    | ackRound1 | ackRound2 | ackRound3 => rfl

end

/-- The coordinator of a federation of two in its first session. -/
def pairFirst (lib : Lib) : DkgStateMachine :=
  (new lib 1 11 1 pairNetwork.members pairNetwork.config (some 1) 5).getD (pairNode .awaitingInit)

end Macbeth.Dkg
