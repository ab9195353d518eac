import Macbeth.BtcServer.Database
import Macbeth.Wallet.Address

/-!
# Commitments and signature shares in a PSBT (`wallet/psbt.rs`)

In round one every signer adds to each input the commitments to its nonces, in round two
its share of the signature, both under a key with its FROST identifier.  From the
commitments and the sighash of an input comes the package that is signed.

The FROST library is the record `SigningLib`.  Its encodings are canonical, which is what
its fields with proofs say: reading back gives what was written, and an identifier has one
encoding.
-/

namespace Macbeth

open Bytes Outcome List Option

/-! ## The FROST library -/

/-- `frost::Identifier`: a non-zero scalar. -/
abbrev Identifier := BitVec 256

/-- `round1::SigningNonces`. -/
structure SigningNonces where
  hidingNonce : BitVec 256
  bindingNonce : BitVec 256
  deriving DecidableEq, Repr

/-- `round1::SigningCommitments`. -/
structure SigningCommitments where
  hidingCommitment : PublicKey
  bindingCommitment : PublicKey
  deriving DecidableEq, Repr

/-- `round2::SignatureShare`. -/
abbrev SignatureShare := BitVec 256

/-- `frost::SigningPackage`: the commitments of the signers and the message. -/
structure SigningPackage where
  signingCommitments : FinMap Identifier SigningCommitments
  message : BitVec 256
  deriving DecidableEq

/-- The part of the FROST, sighash and taproot libraries a signer uses. -/
structure SigningLib where
  serializeId : Identifier → List UInt8
  deserializeId : List UInt8 → Option Identifier
  serializeCommitments : SigningCommitments → List UInt8
  deserializeCommitments : List UInt8 → Option SigningCommitments
  serializeShare : SignatureShare → List UInt8
  deserializeShare : List UInt8 → Option SignatureShare
  /-- `taproot_key_spend_signature_hash` over all previous outputs; none on an error. -/
  taprootKeySpendSignatureHash : Transaction → Nat → List TxOut → Option (BitVec 256)
  /-- `round2::sign_with_tweak`; none on an error. -/
  signWithTweak : SigningPackage → SigningNonces → KeyPackage → SigningParameters →
    Option SignatureShare
  /-- The final witnesses `coordinator::finalize_signing` aggregates, one per input; none
  when aggregation, verification or finalization fails. -/
  finalizeWitnesses : Psbt → VerifyingKey → List SigningPackage → Option (List (List (List UInt8)))
  /-- `Psbt::combine`: the fields of both; none when the transactions differ. -/
  combine : Psbt → Psbt → Option Psbt
  /-- The output key of a taproot output without scripts. -/
  tapTweak : BitVec 256 → BitVec 256
  deserializeId_serializeId : ∀ id, deserializeId (serializeId id) = some id
  serializeId_of_deserializeId : ∀ bs id, deserializeId bs = some id → serializeId id = bs
  deserializeCommitments_serializeCommitments :
    ∀ c, deserializeCommitments (serializeCommitments c) = some c

/-- `generate_taproot_change_scriptpubkey`. -/
def SigningLib.generateTaprootChangeScriptpubkey (lib : SigningLib) (pk : PublicKey) : ScriptBuf :=
  p2tr (lib.tapTweak pk.x)

/-! ## Fields by identifier -/

/-- `ProprietaryKeyExt::cast`: the key data, if the key is ours and of this subtype. -/
def ProprietaryKey.cast (key : ProprietaryKey) (subtype : UInt8) : Option (List UInt8) :=
  if key.keyPrefix = propKeyPrefix ∧ key.subtype = subtype then some key.key else none

/-- `SIGNING_COMMITMENTS_KEY_TYPE`. -/
def signingCommitmentsKeyType : UInt8 := 2

/-- `PARTIAL_SIGNATURE_KEY_TYPE`. -/
def partialSignatureKeyType : UInt8 := 3

section fields
variable (lib : SigningLib)

/-- One step of the loops below: unreadable entries are skipped. -/
def collectEntry {β : Type} (subtype : UInt8) (decode : List UInt8 → Option β)
    (ret : FinMap Identifier β) (entry : Sigma fun _ : ProprietaryKey => List UInt8) :
    FinMap Identifier β :=
  match (entry.1.cast subtype).bind lib.deserializeId, decode entry.2 with
  | some id, some value => ret.insert id value
  | _, _ => ret

/-- The readable fields of one subtype, by identifier. -/
def collectById {β : Type} (subtype : UInt8) (decode : List UInt8 → Option β)
    (proprietary : Proprietary) : FinMap Identifier β :=
  proprietary.entries.foldl (collectEntry lib subtype decode) ∅

/-- `set_signing_commitment`. -/
def PsbtInput.setSigningCommitment (input : PsbtInput) (id : Identifier)
    (commit : SigningCommitments) : PsbtInput :=
  { input with
    proprietary := input.proprietary.insert
      (propKey signingCommitmentsKeyType (lib.serializeId id)) (lib.serializeCommitments commit) }

/-- `signing_commitments`. -/
def PsbtInput.signingCommitments (input : PsbtInput) (id : Identifier) :
    Option SigningCommitments :=
  (input.proprietary.lookup (propKey signingCommitmentsKeyType (lib.serializeId id))).bind
    lib.deserializeCommitments

/-- `all_signing_commitments`. -/
def PsbtInput.allSigningCommitments (input : PsbtInput) : FinMap Identifier SigningCommitments :=
  collectById lib signingCommitmentsKeyType lib.deserializeCommitments input.proprietary

/-- `set_partial_signature`. -/
def PsbtInput.setPartialSignature (input : PsbtInput) (id : Identifier) (sig : SignatureShare) :
    PsbtInput :=
  { input with
    proprietary := input.proprietary.insert
      (propKey partialSignatureKeyType (lib.serializeId id)) (lib.serializeShare sig) }

/-- `all_partial_signatures`. -/
def PsbtInput.allPartialSignatures (input : PsbtInput) : FinMap Identifier SignatureShare :=
  collectById lib partialSignatureKeyType lib.deserializeShare input.proprietary

/-! ## Signing packages -/

/-- `CalculateSighashError`. -/
inductive CalculateSighashError where
  | taprootError
  | missingWitnessUtxo
  deriving DecidableEq, Repr

/-- `PsbtToSigningPackageConversionError`, as far as it is raised. -/
inductive PsbtToSigningPackageConversionError where
  | sighashError (e : CalculateSighashError)
  | missingSigningCommitments
  deriving DecidableEq, Repr

/-- `calculate_sighash`: over all inputs' previous outputs. -/
def calculateSighash (psbt : Psbt) (inputIndex : Nat) :
    Outcome CalculateSighashError (BitVec 256) := do
  let prevouts ← ofOption (psbt.inputs.mapM (·.witnessUtxo)) .missingWitnessUtxo
  ofOption (lib.taprootKeySpendSignatureHash psbt.unsignedTx inputIndex prevouts) .taprootError

/-- The package of one input. -/
def signingPackage (psbt : Psbt) (input : PsbtInput) (idx : Nat) :
    Outcome PsbtToSigningPackageConversionError SigningPackage := do
  let sighash ← (calculateSighash lib psbt idx).mapErr .sighashError
  let sc := input.allSigningCommitments lib
  ensure (sc.entries ≠ []) .missingSigningCommitments
  pure ⟨sc, sighash⟩

/-- `signing_packages`. -/
def Psbt.signingPackages (psbt : Psbt) :
    Outcome PsbtToSigningPackageConversionError (List SigningPackage) :=
  psbt.inputs.zipIdx.mapM fun x => signingPackage lib psbt x.1 x.2

end fields

/-! ## Reading the fields back -/

section lookup
variable {lib : SigningLib} {β : Type} {subtype : UInt8} {decode : List UInt8 → Option β}

/-- Which entry feeds an identifier. -/
theorem cast_bind_eq_some {key : ProprietaryKey} {id : Identifier} :
    (key.cast subtype).bind lib.deserializeId = some id ↔
      key = propKey subtype (lib.serializeId id) := by
  obtain ⟨keyPrefix, keySubtype, bytes⟩ := key
  simp only [ProprietaryKey.cast, propKey, ProprietaryKey.mk.injEq]
  by_cases h : keyPrefix = propKeyPrefix ∧ keySubtype = subtype
  · rw [if_pos h, bind_some]
    refine ⟨fun hid => ⟨h.1, h.2, (lib.serializeId_of_deserializeId _ _ hid).symm⟩, ?_⟩
    rintro ⟨-, -, rfl⟩
    exact lib.deserializeId_serializeId id
  · rw [if_neg h]
    simp only [bind_none, reduceCtorEq, false_iff]
    exact fun ⟨hp, hs, _⟩ => h ⟨hp, hs⟩

theorem lookup_collect (id : Identifier) :
    ∀ (entries : List (Sigma fun _ : ProprietaryKey => List UInt8)) (ret : FinMap Identifier β),
      entries.NodupKeys →
      (entries.foldl (collectEntry lib subtype decode) ret).lookup id =
        ((entries.dlookup (propKey subtype (lib.serializeId id))).bind decode).or (ret.lookup id)
  | [], ret, _ => by simp
  | ⟨key, value⟩ :: entries, ret, hnodup => by
    have hrest := lookup_collect id entries (collectEntry lib subtype decode ret ⟨key, value⟩)
      (nodupKeys_cons.mp hnodup).2
    rw [foldl_cons, hrest]
    by_cases hkey : key = propKey subtype (lib.serializeId id)
    · -- the entry of this identifier: no other has its key
      subst hkey
      have hnone := dlookup_eq_none.mpr (nodupKeys_cons.mp hnodup).1
      rw [hnone, dlookup_cons_eq, collectEntry, cast_bind_eq_some.mpr rfl]
      cases hvalue : decode value <;> simp [AList.lookup_insert, hvalue]
    · rw [dlookup_cons_ne _ _ (Ne.symm hkey)]
      congr 1
      unfold collectEntry
      split
      next id' value' hid _ =>
        exact AList.lookup_insert_ne fun heq => hkey (cast_bind_eq_some.mp (heq ▸ hid))
      next => rfl

/-- The collected map holds for an identifier what its own field reads as. -/
theorem lookup_collectById (proprietary : Proprietary) (id : Identifier) :
    (collectById lib subtype decode proprietary).lookup id =
      (proprietary.lookup (propKey subtype (lib.serializeId id))).bind decode := by
  rw [collectById, lookup_collect id _ _ proprietary.nodupKeys]
  simp [AList.lookup]

theorem PsbtInput.lookup_allSigningCommitments (input : PsbtInput) (id : Identifier) :
    (input.allSigningCommitments lib).lookup id = input.signingCommitments lib id :=
  lookup_collectById _ _

/-- A commitment that was added is read back. -/
@[simp] theorem PsbtInput.signingCommitments_setSigningCommitment (input : PsbtInput)
    (id : Identifier) (commit : SigningCommitments) :
    (input.setSigningCommitment lib id commit).signingCommitments lib id = some commit := by
  rw [signingCommitments, setSigningCommitment, AList.lookup_insert, bind_some,
    lib.deserializeCommitments_serializeCommitments]

end lookup

/-! ## Encodings of fixed length

The laws of `SigningLib` hold for encodings of fixed length: 32 bytes for a scalar, two
compressed keys for commitments.  The cryptography is left trivial; what is proved about
sessions does not depend on it. -/

/-- A compressed key, not checked to be on the curve. -/
def PublicKey.parse : List UInt8 → Option PublicKey
  | 2 :: x => some ⟨false, BitVec.ofNat 256 (ofBE x)⟩
  | 3 :: x => some ⟨true, BitVec.ofNat 256 (ofBE x)⟩
  | _ => none

theorem PublicKey.parse_serialize (pk : PublicKey) : parse pk.serialize = some pk := by
  obtain ⟨odd, x⟩ := pk
  cases odd <;> simp [serialize, parse, ofNat_ofBE_toBE (by decide : 256 = 8 * 32) x]

@[simp] theorem PublicKey.length_serialize (pk : PublicKey) : pk.serialize.length = 33 := by
  simp [serialize]

/-- A scalar of 32 bytes. -/
def parseScalar (bs : List UInt8) : Option (BitVec 256) :=
  if bs.length = 32 then some (BitVec.ofNat 256 (ofBE bs)) else none

def fixedLengthSigning : SigningLib where
  serializeId id := toBE 32 id.toNat
  deserializeId := parseScalar
  serializeCommitments c := c.hidingCommitment.serialize ++ c.bindingCommitment.serialize
  deserializeCommitments bs :=
    match PublicKey.parse (bs.take 33), PublicKey.parse (bs.drop 33) with
    | some hidingCommitment, some bindingCommitment => some ⟨hidingCommitment, bindingCommitment⟩
    | _, _ => none
  serializeShare share := toBE 32 share.toNat
  deserializeShare := parseScalar
  taprootKeySpendSignatureHash _ index prevouts := if index < prevouts.length then some 0 else none
  signWithTweak _ nonces _ _ := some nonces.hidingNonce
  finalizeWitnesses psbt _ _ := some (psbt.inputs.map fun _ => [[]])
  combine existing psbt := if existing.unsignedTx = psbt.unsignedTx then some psbt else none
  tapTweak x := x
  deserializeId_serializeId id := by
    simp [parseScalar, ofNat_ofBE_toBE (by decide : 256 = 8 * 32) id]
  serializeId_of_deserializeId bs id h := by
    unfold parseScalar at h
    by_cases hlen : bs.length = 32
    · rw [if_pos hlen] at h
      have hlt := ofBE_lt bs
      rw [hlen, pow_256] at hlt
      rw [← Option.some.inj h, BitVec.toNat_ofNat, Nat.mod_eq_of_lt hlt, toBE_ofBE hlen]
    · rw [if_neg hlen] at h
      cases h
  deserializeCommitments_serializeCommitments c := by
    rw [List.take_left' c.hidingCommitment.length_serialize,
      List.drop_left' c.hidingCommitment.length_serialize, PublicKey.parse_serialize,
      PublicKey.parse_serialize]

end Macbeth
