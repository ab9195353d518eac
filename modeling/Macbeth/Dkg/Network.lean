import Macbeth.Dkg.Rounds
import Macbeth.Lib.Run

/-!
# The halves of a delivery

A member first does with a message what the message says, and then goes on to the next round if
this one is complete.  The federation of two is the one of all concrete runs.
-/

namespace Macbeth.Dkg

open Handler

/-- The federation. -/
structure Network where
  members : FinMap Identifier PublicKey
  coordinator : Identifier
  config : Config
  secrets : Identifier → SecretKey

variable (lib : Lib)

/-! ## The two halves of a delivery -/

namespace DkgStateMachine

/-- The first half of `recv`: what is done with the message. -/
def handle (payload : DkgPayload) (rand : Rand) : Call Unit :=
  match payload.msg with
  | .round1 initiator context nonce ephemeralPub signature package =>
    onDkgMsgRound1 lib initiator context nonce ephemeralPub signature package payload.sender rand
  | .ackRound1 initiator => onDkgMsgAckRound1 initiator payload.sender
  | .round2 initiator target nonce package =>
    onDkgMsgRound2 lib initiator target nonce package payload.sender
  | .ackRound2 initiator target => onDkgMsgAckRound2 initiator target
  | .round3 initiator signature => onDkgMsgRound3 lib initiator signature payload.sender
  | .ackRound3 initiator => onDkgMsgAckRound3 initiator payload.sender

/-- The second half: the next round is started if this one is complete. -/
def advance (payload : DkgPayload) : Call Unit :=
  match payload.msg with
  | .round1 .. | .ackRound1 _ => transitionStage2Checked lib
  | .round2 .. | .ackRound2 .. => transitionStage3Checked lib
  | .round3 .. | .ackRound3 _ => transitionFinalChecked lib

theorem recv_eq {n : DkgStateMachine} {payload : DkgPayload} (rand : Rand)
    (h : payload.recipient = n.myFrostId) :
    recv lib payload rand n = (handle lib payload rand >>= fun _ => advance lib payload) n := by
  unfold recv
  rw [bind_run, get_run]
  dsimp only
  rw [if_neg (not_not.mpr h)]
  unfold handle advance
  cases payload.msg <;> rfl

end DkgStateMachine

/-! ## A federation of two -/

/-- Libraries over small terms: a shared secret names both keys, a ciphertext its key. -/
def pairLib : Lib where
  publicKey x := ⟨false, x⟩
  sharedSecret key secret :=
    [UInt8.ofNat (min key.x.toNat secret.toNat), UInt8.ofNat (max key.x.toNat secret.toNat)]
  symmetricKeys _ first second := (1 :: (first ++ second), 2 :: (first ++ second))
  encrypt key _ package := some (key ++ package)
  decrypt key _ ciphertext :=
    if key.isPrefixOf ciphertext then some (ciphertext.drop key.length) else none
  deserializeRound2 := some
  ephemeralSecret rand := BitVec.ofNat 256 (100 + rand)
  part1 _ _ _ rand := some ([UInt8.ofNat rand], [UInt8.ofNat rand])
  part2 secret packages := some (secret, FinMap.ofList (packages.keys.map fun id => (id, secret)))
  part3 secret packages _ := some (secret, [secret.sum + (packages.values.map List.sum).sum])
  debugAssertions := true

/-- Member 1 coordinates, member 2 joins. -/
def pairNetwork : Network where
  members := FinMap.ofList [(1, ⟨false, 11⟩), (2, ⟨false, 12⟩)]
  coordinator := 1
  config := ⟨2, 2, 10, 10, 10, some 100⟩
  secrets id := 10 + id

end Macbeth.Dkg
