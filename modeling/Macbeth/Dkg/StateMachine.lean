import Macbeth.Dkg.Encryption
import Macbeth.Lib.Handler

/-!
# The key generation (`dkg/mod.rs`)

The members of the federation generate their key in three rounds; every message goes through
the coordinator.  The coordinator starts a session with its package of round one, the others
join the session when they receive it.  A round is over for a member when it has the package
of everyone and every package it has to deliver is acknowledged.  In round three the members
exchange signatures of the key; with all signatures a member is done.  A coordinator that is
not done in time starts a new session with the next nonce.

This module has the states and the start of a session.  Instants and durations are in
milliseconds.  A call that fails leaves the machine as it is at that point.
-/

namespace Macbeth.Dkg

open Handler

/-- `SESSION_CONTEXT`. -/
def sessionContext : List UInt8 := "static-dkg-session-context".toUTF8.data.toList

/-! ## Messages -/

/-- `DkgMessage`; initiators and targets are identifiers. -/
inductive DkgMessage where
  | round1 (initiator : Identifier) (context : List UInt8) (nonce : BitVec 64)
      (ephemeralPub : PublicKey) (signature : Signature) (package : Round1Package)
  | ackRound1 (initiator : Identifier)
  | round2 (initiator target : Identifier) (nonce : BitVec 64) (package : List UInt8)
  | ackRound2 (initiator target : Identifier)
  | round3 (initiator : Identifier) (signature : Signature)
  | ackRound3 (initiator : Identifier)
  deriving DecidableEq, Repr

/-- `DkgPayload`. -/
structure DkgPayload where
  sender : Identifier
  recipient : Identifier
  msg : DkgMessage
  deriving DecidableEq, Repr

/-! ## States -/

/-- `Config`. -/
structure Config where
  maxSigners : BitVec 16
  minSigners : BitVec 16
  round1PackageTimeout : Nat
  round2PackageTimeout : Nat
  round3PackageTimeout : Nat
  pendingSessionTimeout : Option Nat
  deriving DecidableEq, Repr

/-- `Stage`. -/
inductive Stage where
  | awaitingInit
  | roundOne
  | roundTwo
  | roundThree
  | aborted
  | finalized
  deriving DecidableEq, Repr

/-- `OutEntryRoundOne`. -/
structure OutEntryRoundOne where
  package : Round1Package
  ephemeralPub : PublicKey
  signature : Signature
  timer : Option Nat
  attempts : Nat
  deriving DecidableEq, Repr

/-- `OutEntryRoundTwo`. -/
structure OutEntryRoundTwo where
  ciphernonce : BitVec 64
  ciphertext : List UInt8
  timer : Option Nat
  attempts : Nat
  deriving DecidableEq, Repr

/-- `OutEntryRoundThree`. -/
structure OutEntryRoundThree where
  signature : Signature
  timer : Option Nat
  attempts : Nat
  deriving DecidableEq, Repr

/-- `StageState::RoundOne`. -/
structure RoundOne where
  context : List UInt8
  nonce : BitVec 64
  auth : DkgHandshakeManager
  secretPackage : Secret
  inRound1Packages : FinMap Identifier Round1Package
  outRound1Packages : FinMap (Identifier × Identifier) (Option OutEntryRoundOne)

/-- `StageState::RoundTwo`. -/
structure RoundTwo where
  pending : Bool
  auth : SecureChannelManager
  secretPackage : Secret
  inRound1Packages : FinMap Identifier Round1Package
  inRound2Packages : FinMap Identifier Round2Package
  outRound2Packages : FinMap (Identifier × Identifier) (Option OutEntryRoundTwo)

/-- `StageState::RoundThree`. -/
structure RoundThree where
  pending : Bool
  auth : KeyVerificationManager
  secretPackage : Secret
  publicKeyPackage : PublicKeyPackage
  inRound1Packages : FinMap Identifier Round1Package
  inRound2Packages : FinMap Identifier Round2Package
  inRound3Packages : FinMap Identifier Signature
  outRound3Packages : FinMap (Identifier × Identifier) (Option OutEntryRoundThree)

/-- `StageState`. -/
inductive StageState where
  | awaitingInit
  | roundOne (r : RoundOne)
  | roundTwo (r : RoundTwo)
  | roundThree (r : RoundThree)
  | aborted
  | finalized (secretPackage : Secret) (publicKeyPackage : PublicKeyPackage)

/-- `DkgStateMachine`. -/
structure DkgStateMachine where
  config : Config
  myFrostId : Identifier
  myStaticSec : SecretKey
  coordinator : Identifier
  members : FinMap Identifier PublicKey
  queue : List DkgPayload
  state : StageState
  sessionNonce : Option (BitVec 64)
  sessionActivated : Option Nat

/-- `dkg::Error`. -/
inductive Error where
  | badConfig (msg : String)
  | frost
  | encryption (e : EncryptionError)
  deriving DecidableEq, Repr

namespace StageState

/-- `did_round_one_finalize`. -/
def didRoundOneFinalize : StageState → Bool
  | .roundTwo _ | .roundThree _ | .finalized _ _ => true
  | _ => false

/-- `did_round_two_finalize`. -/
def didRoundTwoFinalize : StageState → Bool
  | .roundThree _ | .finalized _ _ => true
  | _ => false

/-- `did_round_three_finalize`. -/
def didRoundThreeFinalize : StageState → Bool
  | .finalized _ _ => true
  | _ => false

/-- `stage`. -/
def stage : StageState → Stage
  | .awaitingInit => .awaitingInit
  | .roundOne _ => .roundOne
  | .roundTwo _ => .roundTwo
  | .roundThree _ => .roundThree
  | .aborted => .aborted
  | .finalized _ _ => .finalized

end StageState

namespace DkgStateMachine

variable (lib : Lib)

/-- `is_coordinator`. -/
def isCoordinator (s : DkgStateMachine) : Bool := s.myFrostId = s.coordinator

/-- The keys of the members, in ascending order. -/
def memberIds (s : DkgStateMachine) : List Identifier := (ascending s.members).map Prod.fst

/-- A call on the machine. -/
abbrev Call := Handler DkgStateMachine Error

/-- `debug_assert!`. -/
def debugAssert (c : Prop) [Decidable c] : Call Unit :=
  if lib.debugAssertions then assert c else pure ()

theorem debugAssert_run {lib : Lib} {c : Prop} [Decidable c] {s : DkgStateMachine}
    (h : lib.debugAssertions = true → c) : debugAssert lib c s = (.ok (), s) := by
  unfold debugAssert
  split
  · next hon => simp [Handler.assert, h hon]
  · rfl

def push (msgs : List DkgPayload) : Call Unit :=
  update fun s => { s with queue := s.queue ++ msgs }

def setState (state : StageState) : Call Unit := update fun s => { s with state }

def orFrost {α : Type} (x : Option α) : Call α := lift (.ofOption x .frost)

def orEncryption {α : Type} (x : Except EncryptionError α) : Call α :=
  lift (.ofExcept x .encryption)

/-- A failure of the call is a panic. -/
def orPanic {α : Type} (x : Call α) : Call α := fun s =>
  match x s with
  | (.err _, s') => (.panic, s')
  | r => r

/-- `send_round1_ack`. -/
def sendRound1Ack (initiator recipient : Identifier) : Call Unit := do
  let s ← Handler.get
  push [⟨s.myFrostId, recipient, .ackRound1 initiator⟩]

/-- `send_round2_ack`. -/
def sendRound2Ack (initiator recipient target : Identifier) : Call Unit := do
  let s ← Handler.get
  push [⟨s.myFrostId, recipient, .ackRound2 initiator target⟩]

/-- `send_round3_ack`. -/
def sendRound3Ack (initiator recipient : Identifier) : Call Unit := do
  let s ← Handler.get
  push [⟨s.myFrostId, recipient, .ackRound3 initiator⟩]

/-! ## Sessions -/

/-- The packages the coordinator delivers: of everyone to everyone else but itself. -/
def deliveries (s : DkgStateMachine) : List (Identifier × Identifier) :=
  (s.memberIds.product s.memberIds).filter fun pair =>
    pair.2 ≠ s.myFrostId ∧ pair.1 ≠ pair.2

/-- The outgoing map of the coordinator: its own package is there, the others come later. -/
def ownEntries {ε : Type} (s : DkgStateMachine) (entry : ε) :
    FinMap (Identifier × Identifier) (Option ε) :=
  FinMap.ofList (s.deliveries.map fun pair =>
    (pair, if pair.1 = s.myFrostId then some entry else none))

/-- The recipients of the coordinator's own packages. -/
def others (s : DkgStateMachine) : List Identifier := s.memberIds.filter fun id => id ≠ s.myFrostId

/-- `init_new_session`. -/
def initNewSession (nonce : BitVec 64) (rand : Rand) : Call Unit := do
  let s ← Handler.get
  debugAssert lib (s.isCoordinator = true)
  update fun s => { s with sessionActivated := none, sessionNonce := some nonce, queue := [] }
  let (secretPackage, package) ←
    orFrost (lib.part1 s.myFrostId s.config.maxSigners s.config.minSigners rand)
  let auth ← orEncryption
    (DkgHandshakeManager.new lib sessionContext nonce s.myFrostId s.myStaticSec s.members rand)
  let (ephPub, signature, auth) := auth.commitRound1 lib package
  push (s.others.map fun recipient =>
    ⟨s.myFrostId, recipient, .round1 s.myFrostId sessionContext nonce ephPub signature package⟩)
  setState (.roundOne {
    context := sessionContext
    nonce
    auth
    secretPackage
    inRound1Packages := ∅
    outRound1Packages := s.ownEntries ⟨package, ephPub, signature, none, 0⟩ })

/-- A machine before its first session. -/
def awaiting (myFrostId : Identifier) (myStaticSec : SecretKey) (coordinator : Identifier)
    (members : FinMap Identifier PublicKey) (config : Config) : DkgStateMachine :=
  ⟨config, myFrostId, myStaticSec, coordinator, members, [], .awaitingInit, none, none⟩

/-- `new`. -/
def new (myFrostId : Identifier) (myStaticSec : SecretKey) (coordinator : Identifier)
    (members : FinMap Identifier PublicKey) (config : Config) (sessionNonce : Option (BitVec 64))
    (rand : Rand) : Outcome Error DkgStateMachine :=
  let this := awaiting myFrostId myStaticSec coordinator members config
  if myFrostId ∉ members then .err (.badConfig "my_frost_id not in members")
  else if coordinator ∉ members then .err (.badConfig "coordinator not in members")
  else if config.minSigners > config.maxSigners then
    .err (.badConfig "min_signers cannot be greater than max_signers")
  else if BitVec.ofNat 16 members.keys.length ≠ config.maxSigners then
    .err (.badConfig "max_signers does not match member size")
  else if this.isCoordinator then
    match sessionNonce with
    | none => .err (.badConfig "coordinator must provide a session nonce")
    | some nonce =>
      match this.initNewSession lib nonce rand with
      | (.ok _, this) => .ok this
      | (.err e, _) => .err e
      | (.panic, _) => .panic
  else .ok this

/-- `validate_new_session_init`. -/
def validateNewSessionInit (initiator : Identifier) (context : List UInt8) (nonce : BitVec 64)
    (ephemeralPub : PublicKey) (signature : Signature) (package : Round1Package) (rand : Rand) :
    Call Bool := do
  let s ← Handler.get
  if s.isCoordinator then return false
  if initiator ≠ s.coordinator then return false
  if context ≠ sessionContext then return false
  if s.sessionNonce.any (nonce ≤ ·) then return false
  if s.state.stage = .finalized then return false
  let auth ← orEncryption
    (DkgHandshakeManager.new lib context nonce s.myFrostId s.myStaticSec s.members rand)
  let auth ← orEncryption (auth.validateRound1 initiator ephemeralPub signature package)
  update fun s => { s with sessionActivated := none, sessionNonce := some nonce, queue := [] }
  sendRound1Ack initiator s.coordinator
  let (secretPackage, ourPackage) ←
    orFrost (lib.part1 s.myFrostId s.config.maxSigners s.config.minSigners rand)
  let (ephPub, ourSignature, auth) := auth.commitRound1 lib ourPackage
  push [⟨s.myFrostId, s.coordinator,
    .round1 s.myFrostId context nonce ephPub ourSignature ourPackage⟩]
  setState (.roundOne {
    context
    nonce
    auth
    secretPackage
    inRound1Packages := (∅ : FinMap Identifier Round1Package).insert initiator package
    outRound1Packages := (∅ : FinMap (Identifier × Identifier) (Option OutEntryRoundOne)).insert
      (s.myFrostId, s.coordinator) (some ⟨ourPackage, ephPub, ourSignature, none, 0⟩) })
  return true

end DkgStateMachine

end Macbeth.Dkg
