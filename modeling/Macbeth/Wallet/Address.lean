import Macbeth.Bitcoin.Types

/-!
# Tweaked keys and gateway scripts (`wallet/address.rs`, `wallet/util.rs`)

A deposit address of the federation is a taproot output whose key is the
aggregate key tweaked by an EVM address.  The same two functions are used when a
deposit is validated and when an input is signed, so a wallet record is spendable
exactly when its address tweaks the aggregate key to its script
(`Spendable`).
-/

namespace Macbeth

/-- `VerifyingKeyExtError`. -/
inductive VerifyingKeyExtError where
  | failedToConvertToSecpPk (e : SecpError)
  | frostError (e : FrostError)
  deriving DecidableEq, Repr

/-- `VerifyingKey::serialize`: the identity has no encoding. -/
def VerifyingKey.serialize : VerifyingKey → Except FrostError (List UInt8)
  | .identity => .error .invalidIdentityElement
  | .point pk => .ok pk.serialize

section
variable (btc : BitcoinLib) (frost : FrostLib)

/-- `VerifyingKeyExt::to_secp_pk`. -/
def VerifyingKey.toSecpPk (vk : VerifyingKey) : Except VerifyingKeyExtError PublicKey :=
  match vk.serialize with
  | .error e => .error (.frostError e)
  | .ok bytes =>
    match btc.publicKeyFromSlice bytes with
    | .error e => .error (.failedToConvertToSecpPk e)
    | .ok pk => .ok pk

/-- `generate_tweaked_public_key`: the address is the additional tweak. -/
def generateTweakedPublicKey (vk : VerifyingKey) (ethAddress : Address) :
    Except VerifyingKeyExtError PublicKey :=
  (frost.tweak vk {
    tapscriptMerkleRoot := none, additionalTweak := some (Address.toBytes ethAddress) }).toSecpPk btc

/-- `generate_taproot_scriptpubkey`: the key is taken as already tweaked. -/
def generateTaprootScriptpubkey (tweaked : PublicKey) : ScriptBuf := p2tr tweaked.x

/-- The gateway script of an account under an aggregate key, where the key parses
and the tweak is defined: the script `validate` compares a deposit with, and the
script a round-two signature for that tweak spends. -/
def gatewayScript (aggregatePk : PublicKey) (ethAddress : Address) : Option ScriptBuf :=
  match frost.deserialize aggregatePk.serialize with
  | .error _ => none
  | .ok vk =>
    match generateTweakedPublicKey btc frost vk ethAddress with
    | .error _ => none
    | .ok tpk => some (generateTaprootScriptpubkey tpk)

/-- Gateway scripts are p2tr scripts. -/
theorem isP2tr_of_gatewayScript {pk : PublicKey} {a : Address} {script : ScriptBuf}
    (h : gatewayScript btc frost pk a = some script) : isP2tr script = true := by
  unfold gatewayScript at h
  split at h
  · contradiction
  · split at h
    · contradiction
    · obtain rfl := Option.some.inj h
      exact isP2tr_p2tr _

/-- Collision freedom of the tweak: two accounts with a gateway script under a key
have different ones. -/
def TweakCollisionFree (aggregatePk : PublicKey) : Prop :=
  ∀ a b script, gatewayScript btc frost aggregatePk a = some script →
    gatewayScript btc frost aggregatePk b = some script → a = b

/-- A key-spend signature under the aggregate key with this address as the
additional tweak is valid for this script. -/
def Spendable (aggregatePk : PublicKey) (ethAddress : Address) (script : ScriptBuf) : Prop :=
  gatewayScript btc frost aggregatePk ethAddress = some script

instance (pk : PublicKey) (a : Address) (script : ScriptBuf) :
    Decidable (Spendable btc frost pk a script) :=
  inferInstanceAs (Decidable (_ = _))

end

end Macbeth
