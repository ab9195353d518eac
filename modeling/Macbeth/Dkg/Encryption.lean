import Macbeth.BtcServer.Signing

/-!
# Authentication of the key generation (`dkg/encryption.rs`)

Each round of the key generation has its own layer of authentication: the handshake of round
one, the encrypted channels of round two, the verification of the key in round three.

Transcripts and signatures are ideal.  A challenge is what its transcript holds: the
commitment of round one is the setup of the session with the member's identifier, ephemeral
key and package; the challenge of round three is the setup, all commitments of round one and
the key package.  A signature is the key it verifies with and what was signed.  The key
exchange, the cipher and the FROST library are parameters.
-/

namespace Macbeth.Dkg

open Outcome

/-! ## Ideal challenges and signatures -/

abbrev SecretKey := BitVec 256

/-- `round1::Package`, serialized. -/
abbrev Round1Package := List UInt8

/-- `round2::Package`, serialized. -/
abbrev Round2Package := List UInt8

/-- `frost::keys::PublicKeyPackage`, serialized. -/
abbrev PublicKeyPackage := List UInt8

/-- A transcript after `DkgHandshakeManager::new`. -/
structure Setup where
  context : List UInt8
  nonce : BitVec 64
  deriving DecidableEq, Repr

/-- The challenge "round1_commit". -/
structure Round1Commit where
  setup : Setup
  frostId : Identifier
  ephPub : PublicKey
  package : Round1Package
  deriving DecidableEq, Repr

/-- A transcript after round one; that round two is over adds an empty message. -/
structure Transcript where
  setup : Setup
  round1Commits : List Round1Commit
  deriving DecidableEq, Repr

/-- The challenge "round3_commit". -/
structure Round3Challenge where
  transcript : Transcript
  package : PublicKeyPackage
  deriving DecidableEq, Repr

inductive Digest where
  | round1 (commit : Round1Commit)
  | round3 (challenge : Round3Challenge)
  deriving DecidableEq, Repr

/-- `ecdsa::Signature`. -/
structure Signature where
  key : PublicKey
  digest : Digest
  deriving DecidableEq, Repr

/-- `PublicKey::verify`. -/
def verify (key : PublicKey) (digest : Digest) (signature : Signature) : Bool :=
  signature = ⟨key, digest⟩

/-! ## Parameters -/

/-- What a call draws from the random number generator. -/
abbrev Rand := Nat

/-- `round1::SecretPackage`, `round2::SecretPackage` and `KeyPackage`. -/
abbrev Secret := List UInt8

/-- The libraries, and the kind of build. -/
structure Lib where
  publicKey : SecretKey → PublicKey
  /-- `ecdh::SharedSecret::new`. -/
  sharedSecret : PublicKey → SecretKey → List UInt8
  /-- The two keys that a transcript with two shared secrets gives. -/
  symmetricKeys : Transcript → List UInt8 → List UInt8 → List UInt8 × List UInt8
  encrypt : List UInt8 → BitVec 64 → Round2Package → Option (List UInt8)
  decrypt : List UInt8 → BitVec 64 → List UInt8 → Option (List UInt8)
  deserializeRound2 : List UInt8 → Option Round2Package
  ephemeralSecret : Rand → SecretKey
  /-- `dkg::part1`, with the maximum and the minimum of signers. -/
  part1 : Identifier → BitVec 16 → BitVec 16 → Rand → Option (Secret × Round1Package)
  part2 : Secret → FinMap Identifier Round1Package →
    Option (Secret × FinMap Identifier Round2Package)
  part3 : Secret → FinMap Identifier Round1Package → FinMap Identifier Round2Package →
    Option (Secret × PublicKeyPackage)
  /-- Whether `debug_assert!` is checked. -/
  debugAssertions : Bool

/-- `encryption::Error`. -/
inductive EncryptionError where
  | selfNotInFederation
  | insufficientSamples
  | notAFedMember
  | signatureVerificationFailed
  | decryptionFailed
  | deserializationFailed
  | awaitingChallengeGeneration
  | internalAeadError
  deriving DecidableEq, Repr

/-! ## Round one -/

/-- `DkgHandshakeManager`. -/
structure DkgHandshakeManager where
  setup : Setup
  myFrostId : Identifier
  myStaticSec : SecretKey
  myEphSec : SecretKey
  myEphPub : PublicKey
  fedMembers : FinMap Identifier PublicKey
  ephKeys : FinMap Identifier PublicKey
  round1Commits : FinMap Identifier Round1Commit

/-- `SymmetricKeyEntry`. -/
structure SymmetricKeyEntry where
  sending : List UInt8
  receiving : List UInt8
  nonce : BitVec 64
  deriving DecidableEq, Repr

/-- `SecureChannelManager`. -/
structure SecureChannelManager where
  transcript : Transcript
  myFrostId : Identifier
  myStaticSec : SecretKey
  fedMembers : FinMap Identifier PublicKey
  symmetricKeys : FinMap Identifier SymmetricKeyEntry
  round2Checks : Finset Identifier

/-- `KeyVerificationManager`. -/
structure KeyVerificationManager where
  transcript : Transcript
  myFrostId : Identifier
  myStaticSec : SecretKey
  fedMembers : FinMap Identifier PublicKey
  challenge : Option Round3Challenge
  round3Commits : FinMap Identifier Signature

/-- The values of a map in ascending order of identifiers. -/
def ascending {ν : Type} (m : FinMap Identifier ν) : List (Identifier × ν) :=
  (m.entries.map fun e => (e.1, e.2)).insertionSort fun a b => a.1.toNat ≤ b.1.toNat

variable (lib : Lib)

namespace DkgHandshakeManager

/-- `new`. -/
def new (context : List UInt8) (nonce : BitVec 64) (myFrostId : Identifier)
    (myStaticSec : SecretKey) (fedMembers : FinMap Identifier PublicKey) (rand : Rand) :
    Except EncryptionError DkgHandshakeManager :=
  if myFrostId ∉ fedMembers then .error .selfNotInFederation
  else
    let myEphSec := lib.ephemeralSecret rand
    let myEphPub := lib.publicKey myEphSec
    .ok {
      setup := ⟨context, nonce⟩
      myFrostId
      myStaticSec
      myEphSec
      myEphPub
      fedMembers
      ephKeys := (∅ : FinMap Identifier PublicKey).insert myFrostId myEphPub
      round1Commits := ∅ }

variable (m : DkgHandshakeManager)

/-- The commitment a member makes by signing. -/
def commit (frostId : Identifier) (ephPub : PublicKey) (package : Round1Package) : Round1Commit :=
  ⟨m.setup, frostId, ephPub, package⟩

/-- `commit_round1`. -/
def commitRound1 (package : Round1Package) : PublicKey × Signature × DkgHandshakeManager :=
  let commit := m.commit m.myFrostId m.myEphPub package
  (m.myEphPub, ⟨lib.publicKey m.myStaticSec, .round1 commit⟩,
    { m with round1Commits := m.round1Commits.insert m.myFrostId commit })

/-- `validate_round1`. -/
def validateRound1 (initiator : Identifier) (ephPub : PublicKey) (signature : Signature)
    (package : Round1Package) : Except EncryptionError DkgHandshakeManager :=
  match m.fedMembers.lookup initiator with
  | none => .error .notAFedMember
  | some fedStatic =>
    let commit := m.commit initiator ephPub package
    if verify fedStatic (.round1 commit) signature then
      .ok { m with
        ephKeys := m.ephKeys.insert initiator ephPub
        round1Commits := m.round1Commits.insert initiator commit }
    else .error .signatureVerificationFailed

/-- The channel to one member.  The member with the lower identifier takes the secrets, and
then the keys, in one order and the other member in the opposite one. -/
def channel (transcript : Transcript) (fed : Identifier × PublicKey) :
    Outcome EncryptionError (Identifier × SymmetricKeyEntry) := do
  let (fedId, fedStatic) := fed
  -- "ephemeral key must exist"
  let fedEph ← expect (m.ephKeys.lookup fedId)
  let withEph := lib.sharedSecret fedEph m.myStaticSec
  let withStatic := lib.sharedSecret fedStatic m.myEphSec
  if m.myFrostId.toNat < fedId.toNat then
    let (key1, key2) := lib.symmetricKeys transcript withEph withStatic
    return (fedId, ⟨key1, key2, 0⟩)
  else
    let (key1, key2) := lib.symmetricKeys transcript withStatic withEph
    return (fedId, ⟨key2, key1, 0⟩)

/-- `finalize`, with what it leaves of the manager. -/
def finalize : Outcome EncryptionError (SecureChannelManager × DkgHandshakeManager) := do
  ensure (m.round1Commits.keys.length = m.fedMembers.keys.length) .insufficientSamples
  let transcript : Transcript := ⟨m.setup, (ascending m.round1Commits).map Prod.snd⟩
  let others := (ascending m.fedMembers).filter fun fed => fed.1 ≠ m.myFrostId
  let channels ← others.mapM (m.channel lib transcript)
  return ({
    transcript
    myFrostId := m.myFrostId
    myStaticSec := m.myStaticSec
    fedMembers := m.fedMembers
    symmetricKeys := FinMap.ofList channels
    round2Checks := ∅ }, { m with round1Commits := ∅, fedMembers := ∅ })

end DkgHandshakeManager

/-! ## Round two -/

namespace SecureChannelManager

variable (m : SecureChannelManager)

/-- `commit_round2`. -/
def commitRound2 (target : Identifier) (package : Round2Package) :
    Except EncryptionError (List UInt8 × BitVec 64 × SecureChannelManager) :=
  match m.symmetricKeys.lookup target with
  | none => .error .notAFedMember
  | some entry =>
    match lib.encrypt entry.sending entry.nonce package with
    | none => .error .internalAeadError
    | some ciphertext =>
      .ok (ciphertext, entry.nonce, { m with
        symmetricKeys := m.symmetricKeys.insert target { entry with nonce := entry.nonce + 1 }
        round2Checks := insert m.myFrostId m.round2Checks })

/-- `validate_round2`. -/
def validateRound2 (initiator : Identifier) (nonce : BitVec 64) (ciphertext : List UInt8) :
    Except EncryptionError (Round2Package × SecureChannelManager) :=
  match m.symmetricKeys.lookup initiator with
  | none => .error .notAFedMember
  | some entry =>
    match lib.decrypt entry.receiving nonce ciphertext with
    | none => .error .decryptionFailed
    | some plaintext =>
      match lib.deserializeRound2 plaintext with
      | none => .error .deserializationFailed
      | some package =>
        .ok (package, { m with round2Checks := insert initiator m.round2Checks })

/-- `finalize`, with what it leaves of the manager. -/
def finalize : Except EncryptionError (KeyVerificationManager × SecureChannelManager) :=
  if m.round2Checks.card ≠ m.fedMembers.keys.length then .error .insufficientSamples
  else .ok (⟨m.transcript, m.myFrostId, m.myStaticSec, m.fedMembers, none, ∅⟩,
    { m with fedMembers := ∅ })

end SecureChannelManager

/-! ## Round three -/

namespace KeyVerificationManager

variable (m : KeyVerificationManager)

/-- `commit_round3`. -/
def commitRound3 (package : PublicKeyPackage) : Signature × KeyVerificationManager :=
  let challenge : Round3Challenge := ⟨m.transcript, package⟩
  let signature : Signature := ⟨lib.publicKey m.myStaticSec, .round3 challenge⟩
  (signature, { m with
    challenge := some challenge
    round3Commits := m.round3Commits.insert m.myFrostId signature })

/-- `validate_round3`. -/
def validateRound3 (initiator : Identifier) (signature : Signature) :
    Except EncryptionError KeyVerificationManager :=
  match m.challenge with
  | none => .error .awaitingChallengeGeneration
  | some challenge =>
    match m.fedMembers.lookup initiator with
    | none => .error .notAFedMember
    | some fedStatic =>
      if verify fedStatic (.round3 challenge) signature then
        .ok { m with round3Commits := m.round3Commits.insert initiator signature }
      else .error .signatureVerificationFailed

/-- `finalize`; the commitment it returns is not used. -/
def finalize : Except EncryptionError Unit :=
  if m.round3Commits.keys.length ≠ m.fedMembers.keys.length then .error .insufficientSamples
  else .ok ()

end KeyVerificationManager

end Macbeth.Dkg
