import Macbeth.Abci.ActivationManager
import Macbeth.Bitcoin.Encode

/-!
# Non-deterministic data (`non_deterministic_data.rs`)

The first transaction of a proposal is not an Ethereum transaction: it carries what the
proposer alone decides, so that every node builds the same block from it.  Version 0 has no
fee recipient, version 1 has one, version 2 also names the runtime version and may carry a
vote.  A version 1 value may be followed by the fields of version 2; if they do not decode
they are ignored.
-/

namespace Macbeth

open Bytes Reader List

/-- `NonDeterministicDataDeserializeError`. -/
inductive NddError where
  | decoding (e : EncodeError)
  | invalidVersion
  | inclusionIndicator
  | networkUpgradePayloadVote
  deriving DecidableEq, Repr

/-- `RUNTIME_VERSION_GENESIS`. -/
def runtimeVersionGenesis : RuntimeVersion := ⟨0, 1⟩

/-- `NonDeterministicData`. -/
structure NonDeterministicData where
  version : BitVec 16
  bitcoinBlockHash : BlockHash
  aggregatedPublicKey : PublicKey
  blockFeeRecipientAddress : Option Address
  runtimeVersion : RuntimeVersion
  networkUpgradePayload : Option NetworkUpgradePayload
  deriving DecidableEq, Repr

namespace NonDeterministicData

/-- `new_v0`. -/
def newV0 (hash : BlockHash) (key : PublicKey) : NonDeterministicData :=
  ⟨0, hash, key, none, runtimeVersionGenesis, none⟩

/-- `new_v1`. -/
def newV1 (hash : BlockHash) (key : PublicKey) (recipient : Address) : NonDeterministicData :=
  ⟨1, hash, key, some recipient, runtimeVersionGenesis, none⟩

/-- `new_v2`. -/
def newV2 (hash : BlockHash) (key : PublicKey) (recipient : Address) (version : RuntimeVersion)
    (payload : Option NetworkUpgradePayload) : NonDeterministicData :=
  ⟨2, hash, key, some recipient, version, payload⟩

/-! ## Encoding -/

def encodeRuntimeVersion (v : RuntimeVersion) : List UInt8 :=
  toLE 2 v.major.toNat ++ toLE 2 v.minor.toNat

def encodeVote : Vote → UInt8
  | .abstain => 0
  | .nay => 1
  | .aye => 2

def encodePayload : Option NetworkUpgradePayload → List UInt8
  | none => [0]
  | some payload =>
    1 :: encodeRuntimeVersion payload.version ++ [encodeVote payload.vote] ++
      [if payload.isCompliant then 1 else 0]

/-- `serialize`: a missing recipient or another version panics. -/
def serialize (ndd : NonDeterministicData) : Outcome Empty (List UInt8) :=
  let front := toLE 32 ndd.bitcoinBlockHash.toNat ++ ndd.aggregatedPublicKey.serialize ++
    toLE 2 ndd.version.toNat
  if ndd.version = 0 then .ok front
  else if ndd.version = 1 then do
    let recipient ← Outcome.expect ndd.blockFeeRecipientAddress
    return front ++ recipient.toBytes
  else if ndd.version = 2 then do
    let recipient ← Outcome.expect ndd.blockFeeRecipientAddress
    return front ++ recipient.toBytes ++ encodeRuntimeVersion ndd.runtimeVersion ++
      encodePayload ndd.networkUpgradePayload
  else .panic

/-! ## Decoding -/

def decodeU16 : Reader NddError (BitVec 16) := (decodeWord 2).mapErr .decoding

def decodeU8 : Reader NddError (BitVec 8) := (decodeWord 1).mapErr .decoding

def decodeRuntimeVersion : Reader NddError RuntimeVersion := do
  let major ← decodeU16
  let minor ← decodeU16
  return ⟨major, minor⟩

def decodeVote : Reader NddError Vote := do
  let byte ← decodeU8
  if byte = 0 then return .abstain
  else if byte = 1 then return .nay
  else if byte = 2 then return .aye
  else throw .networkUpgradePayloadVote

/-- `_deserialize_version_2`; a Boolean is any byte, zero or not. -/
def deserializeVersion2 : Reader NddError (RuntimeVersion × Option NetworkUpgradePayload) := do
  let runtimeVersion ← decodeRuntimeVersion
  let included ← decodeU8
  if included = 0 then return (runtimeVersion, none)
  else if included = 1 then do
    let version ← decodeRuntimeVersion
    let vote ← decodeVote
    let isCompliant ← decodeU8
    return (runtimeVersion, some ⟨version, vote, isCompliant ≠ 0⟩)
  else throw .inclusionIndicator

def decodeRecipient : Reader NddError Address := do
  let bytes ← slice 20 (NddError.decoding (.parseFailed "malformed block fee recipient address"))
  return Address.ofBytes bytes

variable (btc : BitcoinLib)

def decodeAggregatePublicKey : Reader NddError PublicKey := do
  let bytes ← slice 33 (NddError.decoding .io)
  match btc.publicKeyFromSlice bytes with
  | .ok key => return key
  | .error _ => throw (.decoding (.parseFailed "malformed aggregate public key"))

/-- A reader that is tried on what is left: nothing is read if it fails. -/
def optional {α : Type} (r : Reader NddError α) : Reader NddError (Option α) := fun buf =>
  match r.parse buf with
  | .ok (a, rest) => .ok (some a, rest)
  | .error _ => .ok (none, buf)

/-- The fields in wire order. -/
def decode : Reader NddError NonDeterministicData := do
  let hash ← decodeHash.mapErr .decoding
  let key ← decodeAggregatePublicKey btc
  let version ← decodeU16
  if version = 0 then return newV0 hash key
  else if version = 1 then do
    let recipient ← decodeRecipient
    match ← optional deserializeVersion2 with
    | some (runtimeVersion, payload) =>
      return ⟨version, hash, key, some recipient, runtimeVersion, payload⟩
    | none => return newV1 hash key recipient
  else if version = 2 then do
    let recipient ← decodeRecipient
    let (runtimeVersion, payload) ← deserializeVersion2
    return ⟨version, hash, key, some recipient, runtimeVersion, payload⟩
  else throw .invalidVersion

/-- `deserialize`: what follows the value is ignored. -/
def deserialize (bytes : List UInt8) : Except NddError NonDeterministicData :=
  match (decode btc).parse bytes with
  | .ok (ndd, _) => .ok ndd
  | .error e => .error e

/-! ## What is read -/

theorem exact_decodeU8 : Exact decodeU8 fun x => toLE 1 x.toNat := (exact_decodeWord 1).mapErr _

theorem exact_decodeU16 : Exact decodeU16 fun x => toLE 2 x.toNat := (exact_decodeWord 2).mapErr _

theorem exact_decodeRuntimeVersion : Exact decodeRuntimeVersion encodeRuntimeVersion := by
  intro buf v rest
  simp only [decodeRuntimeVersion, parse_bind_eq_ok, exact_decodeU16, parse_pure, Except.ok.injEq,
    Prod.mk.injEq, encodeRuntimeVersion, append_assoc]
  constructor
  · rintro ⟨major, _, rfl, minor, _, rfl, rfl, rfl⟩
    rfl
  · rintro rfl
    exact ⟨_, _, rfl, _, _, rfl, rfl, rfl⟩

theorem exact_decodeVote : Exact decodeVote fun vote => [encodeVote vote] := by
  intro buf vote rest
  simp only [decodeVote, parse_bind_eq_ok, exact_decodeU8]
  constructor
  · rintro ⟨byte, mid, rfl, h⟩
    split_ifs at h <;> simp at h
    all_goals
      obtain ⟨rfl, rfl⟩ := h
      subst byte
      rfl
  · rintro rfl
    cases vote
    · exact ⟨0, rest, rfl, rfl⟩
    · exact ⟨1, rest, rfl, rfl⟩
    · exact ⟨2, rest, rfl, rfl⟩

theorem exact_decodeRecipient : Exact decodeRecipient Address.toBytes := by
  intro buf recipient rest
  rw [decodeRecipient, parse_bind_eq_ok]
  constructor
  · rintro ⟨bytes, mid, hslice, hvalue⟩
    obtain ⟨hlength, rfl⟩ := parse_slice_eq_ok hslice
    obtain ⟨rfl, rfl⟩ : Address.ofBytes bytes = recipient ∧ mid = rest := by simpa using hvalue
    rw [Address.toBytes_ofBytes hlength]
  · rintro rfl
    exact ⟨_, _, parse_slice_append (Address.length_toBytes _) rest, by simp⟩

variable {buf rest : List UInt8}

theorem decodeAggregatePublicKey_eq_ok {key : PublicKey} :
    (decodeAggregatePublicKey btc).parse buf = .ok (key, rest) ↔
      btc.isOnCurve key.x = true ∧ buf = key.serialize ++ rest := by
  rw [decodeAggregatePublicKey, parse_bind_eq_ok]
  constructor
  · rintro ⟨bytes, mid, hslice, hvalue⟩
    obtain ⟨-, rfl⟩ := parse_slice_eq_ok hslice
    cases hpk : btc.publicKeyFromSlice bytes with
    | error e => simp [hpk] at hvalue
    | ok pk =>
      obtain ⟨rfl, rfl⟩ : pk = key ∧ mid = rest := by simpa [hpk] using hvalue
      exact (btc.serialize_of_publicKeyFromSlice hpk).imp_right fun hbytes => by rw [hbytes]
  · rintro ⟨hkey, rfl⟩
    exact ⟨_, _, parse_slice_append (by simp [PublicKey.serialize]) rest,
      by simp [btc.publicKeyFromSlice_serialize hkey]⟩

/-- A vote as it may stand: any byte for the Boolean. -/
def encodePayloadAs (c : BitVec 8) : Option NetworkUpgradePayload → List UInt8
  | none => [0]
  | some payload =>
    1 :: encodeRuntimeVersion payload.version ++ encodeVote payload.vote :: toLE 1 c.toNat

theorem deserializeVersion2_eq_ok {v : RuntimeVersion} {payload : Option NetworkUpgradePayload} :
    deserializeVersion2.parse buf = .ok ((v, payload), rest) ↔
      ∃ c : BitVec 8, (∀ p ∈ payload, p.isCompliant = decide (c ≠ 0)) ∧
        buf = encodeRuntimeVersion v ++ (encodePayloadAs c payload ++ rest) := by
  simp only [deserializeVersion2, parse_bind_eq_ok, exact_decodeRuntimeVersion, exact_decodeU8]
  constructor
  · rintro ⟨v', _, rfl, included, mid, rfl, h⟩
    split_ifs at h with h0 h1
    · obtain ⟨⟨rfl, rfl⟩, rfl⟩ : (v' = v ∧ none = payload) ∧ mid = rest := by simpa using h
      exact ⟨0, nofun, by rw [h0]; rfl⟩
    · simp only [parse_bind_eq_ok, exact_decodeRuntimeVersion, exact_decodeVote,
        exact_decodeU8] at h
      obtain ⟨version, _, rfl, vote, _, rfl, c, mid', rfl, h⟩ := h
      obtain ⟨⟨rfl, rfl⟩, rfl⟩ : (v' = v ∧ some _ = payload) ∧ mid' = rest := by simpa using h
      exact ⟨c, by simp, by rw [h1]; simp [encodePayloadAs]; rfl⟩
    · simp at h
  · rintro ⟨c, hc, rfl⟩
    cases payload with
    | none => exact ⟨v, _, rfl, 0, rest, rfl, rfl⟩
    | some payload =>
      refine ⟨v, _, rfl, 1, encodeRuntimeVersion payload.version ++
        encodeVote payload.vote :: toLE 1 c.toNat ++ rest, rfl, ?_⟩
      simp only [if_neg (by decide : ¬ (1 : BitVec 8) = 0), if_true, parse_bind_eq_ok,
        exact_decodeRuntimeVersion, exact_decodeVote, exact_decodeU8]
      refine ⟨_, _, append_assoc .., payload.vote, _, rfl, c, rest, rfl, ?_⟩
      rw [← hc payload rfl]
      rfl

/-! ## The common fields -/

/-- The fields every version has. -/
def encodeFront (hash : BlockHash) (key : PublicKey) (version : BitVec 16) : List UInt8 :=
  toLE 32 hash.toNat ++ key.serialize ++ toLE 2 version.toNat

theorem parse_front_eq_ok {btc} {α : Type} {a : α}
    {f : BlockHash → PublicKey → BitVec 16 → Reader NddError α} :
    Reader.parse (do
      let hash ← decodeHash.mapErr .decoding
      let key ← decodeAggregatePublicKey btc
      let version ← decodeU16
      f hash key version) buf = .ok (a, rest) ↔
    ∃ hash key version mid, btc.isOnCurve key.x = true ∧
      buf = encodeFront hash key version ++ mid ∧ (f hash key version).parse mid = .ok (a, rest) := by
  have hhash : Exact (decodeHash.mapErr NddError.decoding) fun x => toLE 32 x.toNat :=
    (exact_decodeWord 32).mapErr _
  simp only [parse_bind_eq_ok, hhash, decodeAggregatePublicKey_eq_ok, exact_decodeU16, encodeFront,
    append_assoc]
  constructor
  · rintro ⟨hash, _, rfl, key, _, ⟨hkey, rfl⟩, version, mid, rfl, h⟩
    exact ⟨hash, key, version, mid, hkey, rfl, h⟩
  · rintro ⟨hash, key, version, mid, hkey, rfl, h⟩
    exact ⟨hash, _, rfl, key, _, ⟨hkey, rfl⟩, version, mid, rfl, h⟩

/-! ## Round trips -/

/-- The values the constructors build. -/
inductive Built : NonDeterministicData → Prop
  | v0 (hash : BlockHash) (key : PublicKey) : Built (newV0 hash key)
  | v1 (hash : BlockHash) (key : PublicKey) (recipient : Address) : Built (newV1 hash key recipient)
  | v2 (hash : BlockHash) (key : PublicKey) (recipient : Address) (version : RuntimeVersion)
      (payload : Option NetworkUpgradePayload) : Built (newV2 hash key recipient version payload)

section
variable {btc} {ndd : NonDeterministicData} {bytes : List UInt8}

theorem deserialize_eq_ok :
    deserialize btc bytes = .ok ndd ↔ ∃ rest, (decode btc).parse bytes = .ok (ndd, rest) := by
  rw [deserialize]
  rcases (decode btc).parse bytes with e | ⟨a, rest⟩ <;> simp

/-- The bytes of a built value are read as that value. -/
theorem Built.deserialize_serialize (h : Built ndd)
    (hkey : btc.isOnCurve ndd.aggregatedPublicKey.x = true) :
    ∃ bytes, ndd.serialize = .ok bytes ∧ deserialize btc bytes = .ok ndd := by
  simp only [deserialize_eq_ok, decode, parse_front_eq_ok]
  cases h with
  | v0 hash key =>
    exact ⟨_, rfl, [], hash, key, 0, [], hkey, (append_nil _).symm, rfl⟩
  | v1 hash key recipient =>
    refine ⟨_, rfl, [], hash, key, 1, recipient.toBytes, hkey, rfl, ?_⟩
    exact parse_bind_eq_ok.mpr
      ⟨recipient, [], (exact_decodeRecipient _ _ _).mpr (append_nil _).symm, rfl⟩
  | v2 hash key recipient version payload =>
    have hpayload : encodePayload payload = encodePayloadAs
        (if payload.any (·.isCompliant) then 1 else 0) payload := by
      rcases payload with _ | ⟨v, vote, _ | _⟩ <;> simp [encodePayload, encodePayloadAs, toLE]
    refine ⟨_, rfl, [], hash, key, 2, recipient.toBytes ++ (encodeRuntimeVersion version ++
      (encodePayload payload ++ [])), hkey, by simp [newV2, encodeFront], ?_⟩
    refine parse_bind_eq_ok.mpr ⟨recipient, _, (exact_decodeRecipient _ _ _).mpr rfl,
      parse_bind_eq_ok.mpr ⟨(version, payload), [], deserializeVersion2_eq_ok.mpr
        ⟨_, ?_, by rw [hpayload]⟩, rfl⟩⟩
    rcases payload with _ | ⟨v, vote, _ | _⟩ <;> simp

/-- How many bytes a value is written with. -/
def encodedLength (ndd : NonDeterministicData) : Nat :=
  if ndd.version = 0 then 67 else if ndd.version = 1 then 87
  else if ndd.networkUpgradePayload.isSome then 98 else 92

/-- Nothing follows the value, and the Boolean of a vote is zero or one. -/
def IsCanonical (ndd : NonDeterministicData) (bytes : List UInt8) : Prop :=
  bytes.length = ndd.encodedLength ∧
    (ndd.version = 2 → ndd.networkUpgradePayload.isSome = true →
      bytes.getLast? = some 0 ∨ bytes.getLast? = some 1)

/-- Without a vote the length alone decides. -/
theorem serialize_eq_append_iff {written : List UInt8} (hwritten : ndd.serialize = .ok written)
    (hlength : written.length = ndd.encodedLength)
    (hvote : ndd.version = 2 → ndd.networkUpgradePayload = none) (rest : List UInt8) :
    ndd.serialize = .ok (written ++ rest) ↔ ndd.IsCanonical (written ++ rest) := by
  rw [hwritten, IsCanonical, length_append, hlength]
  cases rest with
  | nil => simpa using fun hversion => by simp [hvote hversion]
  | cons => simp

/-- A Boolean byte is written as it was read exactly if it is zero or one. -/
theorem append_flag_eq_iff (front rest : List UInt8) (c : BitVec 8) :
    front ++ [if c ≠ 0 then 1 else 0] = front ++ (toLE 1 c.toNat ++ rest) ↔
      (front ++ (toLE 1 c.toNat ++ rest)).length = front.length + 1 ∧
        ((front ++ (toLE 1 c.toNat ++ rest)).getLast? = some 0 ∨
          (front ++ (toLE 1 c.toNat ++ rest)).getLast? = some 1) := by
  cases rest with
  | cons x rest => simp [toLE]
  | nil =>
    have hflag : ∀ c : BitVec 8, (if c ≠ 0 then 1 else 0) = UInt8.ofNat c.toNat ↔
        UInt8.ofNat c.toNat = 0 ∨ UInt8.ofNat c.toNat = 1 := by decide
    simpa [toLE] using hflag c

@[simp] theorem length_encodeFront (hash : BlockHash) (key : PublicKey) (version : BitVec 16) :
    (encodeFront hash key version).length = 67 := by
  simp [encodeFront, PublicKey.serialize]

/-- Accepted bytes are written again as they were exactly if they are canonical. -/
theorem serialize_eq_iff (h : deserialize btc bytes = .ok ndd) :
    ndd.serialize = .ok bytes ↔ ndd.IsCanonical bytes := by
  obtain ⟨rest, hparse⟩ := deserialize_eq_ok.mp h
  rw [decode, parse_front_eq_ok] at hparse
  obtain ⟨hash, key, version, mid, -, rfl, hbody⟩ := hparse
  split_ifs at hbody with h0 h1 h2
  · obtain ⟨rfl, rfl⟩ : newV0 hash key = ndd ∧ mid = rest := by simpa using hbody
    subst h0
    exact serialize_eq_append_iff rfl (by simp [encodedLength, newV0]) (by simp [newV0]) _
  · -- whatever the optional fields are, a value of version 1 is written without them
    obtain ⟨recipient, mid', hrecipient, hfields⟩ := parse_bind_eq_ok.mp hbody
    obtain ⟨fields, mid'', -, hvalue⟩ := parse_bind_eq_ok.mp hfields
    obtain ⟨v, payload, rfl⟩ : ∃ v payload, (⟨1, hash, key, some recipient, v, payload⟩ :
        NonDeterministicData) = ndd := by
      cases fields <;> simp [h1, newV1] at hvalue <;> exact ⟨_, _, hvalue.1⟩
    rw [(exact_decodeRecipient _ _ _).mp hrecipient, ← append_assoc, h1]
    exact serialize_eq_append_iff rfl (by simp [encodedLength]) (by simp) _
  · obtain ⟨recipient, mid', hrecipient, hfields⟩ := parse_bind_eq_ok.mp hbody
    obtain ⟨⟨v, payload⟩, mid'', hversion2, hvalue⟩ := parse_bind_eq_ok.mp hfields
    obtain ⟨c, hc, rfl⟩ := deserializeVersion2_eq_ok.mp hversion2
    obtain rfl : newV2 hash key recipient v payload = ndd := by
      simp only [parse_pure, Except.ok.injEq, Prod.mk.injEq, h2] at hvalue
      exact hvalue.1
    rw [(exact_decodeRecipient _ _ _).mp hrecipient, h2]
    have hwritten : (newV2 hash key recipient v payload).serialize =
        .ok (encodeFront hash key 2 ++ recipient.toBytes ++ encodeRuntimeVersion v ++
          encodePayload payload) := rfl
    cases payload with
    | none =>
      have hiff := serialize_eq_append_iff hwritten
        (by simp [encodedLength, newV2, encodePayload, encodeRuntimeVersion]) (fun _ => rfl) mid''
      simpa [encodePayload, encodePayloadAs] using hiff
    | some payload =>
      have hiff := append_flag_eq_iff (encodeFront hash key 2 ++ recipient.toBytes ++
        encodeRuntimeVersion v ++ 1 :: encodeRuntimeVersion payload.version ++
          [encodeVote payload.vote]) mid'' c
      rw [hwritten]
      simpa [IsCanonical, newV2, encodedLength, encodePayload, encodePayloadAs, hc payload rfl,
        encodeRuntimeVersion] using hiff
  · simp at hbody

end

/-- A value that a constructor built, with a key on the curve, is read back from its bytes.
Accepted bytes are those of the value they stand for exactly if nothing follows the value, no field
of version 2 follows one of version 1, and a Boolean is written as zero or one. -/
theorem ndd_round_trips (btc : BitcoinLib) :
    (∀ ndd, Built ndd → btc.isOnCurve ndd.aggregatedPublicKey.x = true →
      ∃ bytes, ndd.serialize = .ok bytes ∧ deserialize btc bytes = .ok ndd) ∧
    ∀ bytes ndd, deserialize btc bytes = .ok ndd →
      (ndd.serialize = .ok bytes ↔ ndd.IsCanonical bytes) :=
  ⟨fun _ hbuilt hkey => hbuilt.deserialize_serialize hkey, fun _ _ h => serialize_eq_iff h⟩

/-- A library that takes every coordinate for that of a point. -/
def anyCurve : BitcoinLib := ⟨fun _ => 0, fun _ => 0, fun _ => .error .noTransactions, fun _ => true⟩

/-- A byte after the value is accepted and not written again. -/
theorem trailing_byte_is_lost :
    deserialize anyCurve (encodeFront 0 ⟨false, 1⟩ 0 ++ [7]) = .ok (newV0 0 ⟨false, 1⟩) ∧
      (newV0 0 ⟨false, 1⟩).serialize ≠ .ok (encodeFront 0 ⟨false, 1⟩ 0 ++ [7]) :=
  ⟨rfl, by decide⟩

theorem vote_round_trips :
    (∃ bytes, (newV2 0 ⟨false, 1⟩ 9 ⟨0, 2⟩ (some ⟨⟨0, 3⟩, .aye, true⟩)).serialize = .ok bytes ∧
      deserialize anyCurve bytes = .ok (newV2 0 ⟨false, 1⟩ 9 ⟨0, 2⟩ (some ⟨⟨0, 3⟩, .aye, true⟩))) ∧
    (newV0 0 ⟨false, 1⟩).serialize = .ok (encodeFront 0 ⟨false, 1⟩ 0) :=
  ⟨(ndd_round_trips anyCurve).1 _ (.v2 ..) rfl,
    ((ndd_round_trips anyCurve).2 (encodeFront 0 ⟨false, 1⟩ 0) (newV0 0 ⟨false, 1⟩) rfl).mpr
      ⟨rfl, nofun⟩⟩

end NonDeterministicData

end Macbeth
