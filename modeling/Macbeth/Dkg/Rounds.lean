import Macbeth.Dkg.StateMachine

/-!
# The rounds of the key generation (`dkg/mod.rs`)

What a member does with the packages and acknowledgments of each round, when it goes on to
the next round, and the three calls that drive the machine.  The coordinator forwards what it
receives to everyone else and keeps an entry for each delivery until it is acknowledged.
-/

namespace Macbeth.Dkg

open Handler

namespace DkgStateMachine

variable (lib : Lib)

/-! ## Packages -/

/-- The entries of an outgoing map in ascending order. -/
def inOrder {ε : Type} (out : FinMap (Identifier × Identifier) (Option ε)) :
    List ((Identifier × Identifier) × Option ε) :=
  (out.entries.map fun e => (e.1, e.2)).insertionSort fun a b =>
    a.1.1.toNat < b.1.1.toNat ∨ a.1.1 = b.1.1 ∧ a.1.2.toNat ≤ b.1.2.toNat

/-- The members a package from a sender is forwarded to: those it is still owed to. -/
def forwardTo {ε : Type} (s : DkgStateMachine)
    (out : FinMap (Identifier × Identifier) (Option ε)) (initiator sender : Identifier) :
    List Identifier :=
  s.memberIds.filter fun id => id ≠ s.myFrostId ∧ id ≠ sender ∧ (initiator, id) ∈ out

/-- Fill in the entries of a package. -/
def fillEntries {ε : Type} (out : FinMap (Identifier × Identifier) (Option ε))
    (initiator : Identifier) (recipients : List Identifier) (entry : ε) :
    FinMap (Identifier × Identifier) (Option ε) :=
  recipients.foldl (fun out id => out.insert (initiator, id) (some entry)) out

/-- The second half of `on_dkg_msg_round1`: a package of the active session. -/
def storeRound1 (initiator : Identifier) (ephemeralPub : PublicKey) (signature : Signature)
    (package : Round1Package) (sender : Identifier) : Call Unit := do
  let s ← Handler.get
  match s.state with
  | .roundOne r =>
    if initiator ∈ r.inRound1Packages then sendRound1Ack initiator sender
    else
      let auth ← orEncryption (r.auth.validateRound1 initiator ephemeralPub signature package)
      let recipients :=
        if s.isCoordinator then s.forwardTo r.outRound1Packages initiator sender else []
      setState (.roundOne { r with
        auth
        inRound1Packages := r.inRound1Packages.insert initiator package
        outRound1Packages := fillEntries r.outRound1Packages initiator recipients
          ⟨package, ephemeralPub, signature, none, 0⟩ })
      sendRound1Ack initiator sender
      push (recipients.map fun recipient => ⟨s.myFrostId, recipient,
        .round1 initiator r.context r.nonce ephemeralPub signature package⟩)
  | state => if state.didRoundOneFinalize then sendRound1Ack initiator sender

/-- `on_dkg_msg_round1`. -/
def onDkgMsgRound1 (initiator : Identifier) (context : List UInt8) (nonce : BitVec 64)
    (ephemeralPub : PublicKey) (signature : Signature) (package : Round1Package)
    (sender : Identifier) (rand : Rand) : Call Unit := do
  let s ← Handler.get
  if initiator ∉ s.members then return
  if initiator = s.myFrostId then return
  if context ≠ sessionContext then return
  -- outdated nonce
  if s.sessionNonce.any (nonce < ·) then return
  debugAssert lib (s.sessionNonce = none → s.isCoordinator = false)
  let joined ← if s.sessionNonce.all (· < nonce) then
      validateNewSessionInit lib initiator context nonce ephemeralPub signature package rand
    else pure false
  if joined then debugAssert lib (s.isCoordinator = false)
  else storeRound1 initiator ephemeralPub signature package sender

/-- `on_dkg_msg_ack_round1`. -/
def onDkgMsgAckRound1 (initiator sender : Identifier) : Call Unit := do
  let s ← Handler.get
  if initiator ∉ s.members then return
  match s.state with
  | .roundOne r =>
    setState (.roundOne { r with outRound1Packages := r.outRound1Packages.erase (initiator, sender) })
  | _ => return

/-- `on_dkg_msg_ack_round2`: the sender is not looked at. -/
def onDkgMsgAckRound2 (initiator target : Identifier) : Call Unit := do
  let s ← Handler.get
  if initiator ∉ s.members then return
  match s.state with
  | .roundTwo r =>
    setState (.roundTwo { r with outRound2Packages := r.outRound2Packages.erase (initiator, target) })
  | _ => return

/-- `on_dkg_msg_ack_round3`. -/
def onDkgMsgAckRound3 (initiator sender : Identifier) : Call Unit := do
  let s ← Handler.get
  if initiator ∉ s.members then return
  match s.state with
  | .roundThree r =>
    setState (.roundThree
      { r with outRound3Packages := r.outRound3Packages.erase (initiator, sender) })
  | _ => return

/-- The message of an entry of round two. -/
def round2Message (s : DkgStateMachine) (recipient : Identifier) (pair : Identifier × Identifier)
    (entry : OutEntryRoundTwo) : DkgPayload :=
  ⟨s.myFrostId, recipient, .round2 pair.1 pair.2 entry.ciphernonce entry.ciphertext⟩

/-- A package of round two for this member. -/
def storeRound2 (r : RoundTwo) (initiator target : Identifier) (nonce : BitVec 64)
    (ciphertext : List UInt8) (sender : Identifier) : Call Unit := do
  let s ← Handler.get
  if initiator ∈ r.inRound2Packages then sendRound2Ack initiator sender target
  else
    let (package, auth) ← orEncryption (r.auth.validateRound2 lib initiator nonce ciphertext)
    let r := { r with auth, inRound2Packages := r.inRound2Packages.insert initiator package }
    setState (.roundTwo r)
    sendRound2Ack initiator sender target
    -- a member other than the coordinator sends its packages once it has the first one
    if r.pending then
      debugAssert lib (s.isCoordinator = false)
      debugAssert lib (∀ e ∈ inOrder r.outRound2Packages, e.2.isSome → e.1.1 = s.myFrostId)
      push ((inOrder r.outRound2Packages).filterMap fun e =>
        e.2.map (s.round2Message s.coordinator e.1))
      setState (.roundTwo { r with pending := false })

/-- A package of round two for another member, which the coordinator forwards. -/
def forwardRound2 (r : RoundTwo) (initiator target : Identifier) (nonce : BitVec 64)
    (ciphertext : List UInt8) (sender : Identifier) : Call Unit := do
  let s ← Handler.get
  debugAssert lib (r.pending = false)
  if (initiator, target) ∈ r.outRound2Packages then
    let entry : OutEntryRoundTwo := ⟨nonce, ciphertext, none, 0⟩
    setState (.roundTwo { r with
      outRound2Packages := r.outRound2Packages.insert (initiator, target) (some entry) })
    sendRound2Ack initiator sender target
    push [s.round2Message target (initiator, target) entry]

/-- `on_dkg_msg_round2`. -/
def onDkgMsgRound2 (initiator target : Identifier) (nonce : BitVec 64) (ciphertext : List UInt8)
    (sender : Identifier) : Call Unit := do
  let s ← Handler.get
  if initiator ∉ s.members then return
  if initiator = s.myFrostId then return
  match s.state with
  | .roundTwo r =>
    if target = s.myFrostId then storeRound2 lib r initiator target nonce ciphertext sender
    else if s.isCoordinator then forwardRound2 lib r initiator target nonce ciphertext sender
    else return
  | state => if state.didRoundTwoFinalize then sendRound2Ack initiator sender target

/-- The signature of a member other than the coordinator waits for the first one. -/
def sendPendingRound3 (s : DkgStateMachine) (r : RoundThree) : Call Unit :=
  if r.pending then do
    debugAssert lib (s.isCoordinator = false)
    debugAssert lib (r.outRound3Packages.keys.length = 1)
    debugAssert lib (∀ e ∈ inOrder r.outRound3Packages,
      e.2.isSome → e.1 = (s.myFrostId, s.coordinator))
    push ((inOrder r.outRound3Packages).filterMap fun e =>
      e.2.map fun entry => ⟨s.myFrostId, e.1.2, .round3 e.1.1 entry.signature⟩)
  else pure ()

/-- A signature of round three while this member waits for signatures. -/
def storeRound3 (r : RoundThree) (initiator : Identifier) (signature : Signature)
    (sender : Identifier) : Call Unit := do
  let s ← Handler.get
  if initiator ∈ r.inRound3Packages then sendRound3Ack initiator sender
  else
    let auth ← orEncryption (r.auth.validateRound3 initiator signature)
    let recipients :=
      if s.isCoordinator then s.forwardTo r.outRound3Packages initiator sender else []
    setState (.roundThree { r with
      pending := false
      auth
      inRound3Packages := r.inRound3Packages.insert initiator signature
      outRound3Packages :=
        fillEntries r.outRound3Packages initiator recipients ⟨signature, none, 0⟩ })
    sendRound3Ack initiator sender
    sendPendingRound3 lib s r
    push (recipients.map fun recipient =>
      ⟨s.myFrostId, recipient, .round3 initiator signature⟩)

/-- `on_dkg_msg_round3`. -/
def onDkgMsgRound3 (initiator : Identifier) (signature : Signature) (sender : Identifier) :
    Call Unit := do
  let s ← Handler.get
  if initiator ∉ s.members then return
  if initiator = s.myFrostId then return
  match s.state with
  | .roundThree r => storeRound3 lib r initiator signature sender
  | state => if state.didRoundThreeFinalize then sendRound3Ack initiator sender

/-! ## Transitions -/

/-- The encrypted packages of round two; the coordinator sends its own at once. -/
def sealShares (s : DkgStateMachine) (auth : SecureChannelManager) :
    List (Identifier × Round2Package) →
      Call (SecureChannelManager × List ((Identifier × Identifier) × Option OutEntryRoundTwo))
  | [] => pure (auth, [])
  | (target, package) :: shares => do
    let (ciphertext, nonce, auth) ← orEncryption (auth.commitRound2 lib target package)
    let entry : OutEntryRoundTwo := ⟨nonce, ciphertext, none, 0⟩
    push (if s.isCoordinator then [s.round2Message target (s.myFrostId, target) entry] else [])
    let (auth, entries) ← sealShares s auth shares
    return (auth, ((s.myFrostId, target), some entry) :: entries)

/-- `transition_stage2_checked`. -/
def transitionStage2Checked : Call Unit := do
  let s ← Handler.get
  match s.state with
  | .roundOne r =>
    if r.inRound1Packages.keys.length ≠ s.members.keys.length - 1 ∨ r.outRound1Packages.keys ≠ []
    then return
    -- the packages are taken out of the state first
    setState (.roundOne { r with inRound1Packages := ∅ })
    match lib.part2 r.secretPackage r.inRound1Packages with
    | none => setState .aborted
    | some (secretPackage, shares) =>
      let (auth, left) ← lift ((r.auth.finalize lib).mapErr .encryption)
      setState (.roundOne { r with inRound1Packages := ∅, auth := left })
      let (auth, entries) ← sealShares lib s auth (ascending shares)
      let forwarded := if s.isCoordinator then
          s.deliveries.filter fun pair => pair.1 ≠ s.myFrostId
        else []
      setState (.roundTwo {
        pending := !s.isCoordinator
        auth
        secretPackage
        inRound1Packages := r.inRound1Packages
        inRound2Packages := ∅
        outRound2Packages := FinMap.ofList (entries ++ forwarded.map fun pair => (pair, none)) })
  | _ => return

/-- `transition_stage3_checked`. -/
def transitionStage3Checked : Call Unit := do
  let s ← Handler.get
  match s.state with
  | .roundTwo r =>
    debugAssert lib (r.inRound1Packages.keys.length = s.members.keys.length - 1)
    if r.inRound2Packages.keys.length ≠ s.members.keys.length - 1 ∨ r.outRound2Packages.keys ≠ []
    then return
    debugAssert lib (r.pending = false)
    setState (.roundTwo { r with inRound1Packages := ∅, inRound2Packages := ∅ })
    match lib.part3 r.secretPackage r.inRound1Packages r.inRound2Packages with
    | none => return
    | some (secretPackage, publicKeyPackage) =>
      let (auth, _) ← orEncryption r.auth.finalize
      let (signature, auth) := auth.commitRound3 lib publicKeyPackage
      let entry : OutEntryRoundThree := ⟨signature, none, 0⟩
      push (if s.isCoordinator then
          s.others.map fun recipient => ⟨s.myFrostId, recipient, .round3 s.myFrostId signature⟩
        else [])
      setState (.roundThree {
        pending := !s.isCoordinator
        auth
        secretPackage
        publicKeyPackage
        inRound1Packages := r.inRound1Packages
        inRound2Packages := r.inRound2Packages
        inRound3Packages := ∅
        outRound3Packages := if s.isCoordinator then s.ownEntries entry
          else (∅ : FinMap (Identifier × Identifier) (Option OutEntryRoundThree)).insert
            (s.myFrostId, s.coordinator) (some entry) })
  | _ => return

/-- `transition_final_checked`. -/
def transitionFinalChecked : Call Unit := do
  let s ← Handler.get
  match s.state with
  | .roundThree r =>
    debugAssert lib (r.inRound1Packages.keys.length = s.members.keys.length - 1)
    debugAssert lib (r.inRound2Packages.keys.length = s.members.keys.length - 1)
    if r.inRound3Packages.keys.length ≠ s.members.keys.length - 1 ∨ r.outRound3Packages.keys ≠ []
    then return
    orEncryption r.auth.finalize
    debugAssert lib (r.pending = false)
    update fun s => { s with
      state := .finalized r.secretPackage r.publicKeyPackage
      sessionNonce := none
      sessionActivated := none }
  | _ => return

/-! ## The calls -/

/-- `recv`. -/
def recv (payload : DkgPayload) (rand : Rand) : Call Unit := do
  let s ← Handler.get
  if payload.recipient ≠ s.myFrostId then return
  match payload.msg with
  | .round1 initiator context nonce ephemeralPub signature package =>
    onDkgMsgRound1 lib initiator context nonce ephemeralPub signature package payload.sender rand
    transitionStage2Checked lib
  | .ackRound1 initiator =>
    onDkgMsgAckRound1 initiator payload.sender
    transitionStage2Checked lib
  | .round2 initiator target nonce package =>
    onDkgMsgRound2 lib initiator target nonce package payload.sender
    transitionStage3Checked lib
  | .ackRound2 initiator target =>
    onDkgMsgAckRound2 initiator target
    transitionStage3Checked lib
  | .round3 initiator signature =>
    onDkgMsgRound3 lib initiator signature payload.sender
    transitionFinalChecked lib
  | .ackRound3 initiator =>
    onDkgMsgAckRound3 initiator payload.sender
    transitionFinalChecked lib

/-- Whether the coordinator's session is over its time. -/
def sessionExpired (s : DkgStateMachine) (now : Nat) : Bool :=
  s.isCoordinator && s.state.stage ≠ .finalized &&
    match s.config.pendingSessionTimeout, s.sessionActivated with
    | some max, some activated => activated + max ≤ now
    | _, _ => false

/-- A timer that has expired, with a tolerance of a millisecond. -/
def expired (timer : Option Nat) (now : Nat) : Bool := timer.any (· ≤ now + 1)

/-- The messages of the entries whose timer has expired. -/
def resent (s : DkgStateMachine) (now : Nat) : List DkgPayload :=
  match s.state with
  | .roundOne r => (inOrder r.outRound1Packages).filterMap fun e => e.2.bind fun entry =>
    if expired entry.timer now then
      some ⟨s.myFrostId, e.1.2,
        .round1 e.1.1 r.context r.nonce entry.ephemeralPub entry.signature entry.package⟩
    else none
  | .roundTwo r => (inOrder r.outRound2Packages).filterMap fun e => e.2.bind fun entry =>
    if expired entry.timer now then
      some (s.round2Message (if s.isCoordinator then e.1.2 else s.coordinator) e.1 entry)
    else none
  | .roundThree r => (inOrder r.outRound3Packages).filterMap fun e => e.2.bind fun entry =>
    if expired entry.timer now then some ⟨s.myFrostId, e.1.2, .round3 e.1.1 entry.signature⟩
    else none
  | _ => []

/-- A session that is over its time is followed by one with the next nonce. -/
def restartExpired (now : Nat) (rand : Rand) : Call Unit := do
  let s ← Handler.get
  if s.sessionExpired now then
    -- "nonce tracker must be set"
    let nonce ← Handler.expect s.sessionNonce
    orPanic (initNewSession lib (nonce + 1) rand)

/-- `on_timeout`. -/
def onTimeout (now : Nat) (rand : Rand) : Call Unit := do
  restartExpired lib now rand
  let s ← Handler.get
  push (s.resent now)

/-- `timeout`: how long until the next call of `on_timeout`. -/
def timeout (s : DkgStateMachine) (now : Nat) : Option Nat :=
  let session := if s.isCoordinator && s.state.stage ≠ .finalized then
      match s.config.pendingSessionTimeout, s.sessionActivated with
      | some max, some activated => some (activated + max - now)
      | _, _ => none
    else none
  let timers : List (Option Nat) := match s.state with
    | .roundOne r => (inOrder r.outRound1Packages).map fun e => e.2.bind (·.timer)
    | .roundTwo r => (inOrder r.outRound2Packages).map fun e => e.2.bind (·.timer)
    | .roundThree r => (inOrder r.outRound3Packages).map fun e => e.2.bind (·.timer)
    | _ => []
  (session.toList ++ timers.filterMap fun timer => timer.map (· - now)).min?

/-- A message leaves the queue: its timer is set, or it has expired. -/
def stamp (s : DkgStateMachine) (now : Nat) (payload : DkgPayload) : Option DkgStateMachine :=
  match payload.msg, s.state with
  | .round1 initiator _ _ _ _ _, .roundOne r =>
    match r.outRound1Packages.lookup (initiator, payload.recipient) with
    | some (some entry) =>
      let timer := some (now + s.config.round1PackageTimeout)
      let out := r.outRound1Packages.insert (initiator, payload.recipient)
        (some { entry with timer, attempts := entry.attempts + 1 })
      some { s with
        sessionActivated := some (s.sessionActivated.getD now)
        state := .roundOne { r with outRound1Packages := out } }
    | _ => none
  | .round2 initiator target _ _, .roundTwo r =>
    match r.outRound2Packages.lookup (initiator, target) with
    | some (some entry) =>
      let timer := some (now + s.config.round2PackageTimeout)
      let out := r.outRound2Packages.insert (initiator, target)
        (some { entry with timer, attempts := entry.attempts + 1 })
      some { s with state := .roundTwo { r with outRound2Packages := out } }
    | _ => none
  | .round3 initiator _, .roundThree r =>
    match r.outRound3Packages.lookup (initiator, payload.recipient) with
    | some (some entry) =>
      let timer := some (now + s.config.round3PackageTimeout)
      let out := r.outRound3Packages.insert (initiator, payload.recipient)
        (some { entry with timer, attempts := entry.attempts + 1 })
      some { s with state := .roundThree { r with outRound3Packages := out } }
    | _ => none
  | .round1 .., _ | .round2 .., _ | .round3 .., _ => none
  | _, _ => some s

/-- `send`: the first message of the queue that has not expired. -/
def sendFrom (s : DkgStateMachine) (now : Nat) :
    List DkgPayload → Option DkgPayload × DkgStateMachine
  | [] => (none, { s with queue := [] })
  | payload :: rest =>
    match s.stamp now payload with
    | some s' => (some payload, { s' with queue := rest })
    | none => sendFrom s now rest

/-- `send`. -/
def send (s : DkgStateMachine) (now : Nat) : Option DkgPayload × DkgStateMachine :=
  s.sendFrom now s.queue

end DkgStateMachine

end Macbeth.Dkg
