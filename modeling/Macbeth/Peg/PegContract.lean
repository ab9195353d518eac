import Macbeth.Lib.HashChain
import Macbeth.Lib.Outcome
import Macbeth.Bitcoin.Encode
import Macbeth.Wallet.Address

/-!
# Pegin proofs (`peg_contract.rs`)

The metadata of a pegin, its wire format, and `PeginData::validate`, the check a
node runs on every mint event: each proof must show a transaction included in a
block below the bitcoin commitment, with an output to the taproot script tweaked
by the minting account.  `validate` returns the sum of the proven outputs in wei.

The loop body is `validateMeta`, cut in two where the gateway script is known and
otherwise written in the order of the source: an index out of range and a
subtraction below zero are panics, not errors, so the order of the checks decides
which inputs crash the node.
-/

namespace Macbeth

open Bytes Reader Outcome

/-! ## Constants -/

def peginMetaVersionV0 : BitVec 32 := 0

def peginMetaVersionV1 : BitVec 32 := 1

/-- `MAX_BITCOIN_BLOCK_HEADERS`. -/
def maxBitcoinBlockHeaders : BitVec 64 := 2016

/-- One satoshi in wei, `10 ^ 10`. -/
def satoshiInWei : Nat := 10000000000

/-- `AmountExt::to_wei`. -/
def toWei (sats : Amount) : U256 := BitVec.ofNat 256 (sats.toNat * satoshiInWei)

/-- The conversion is exact: the largest `u64` times `10 ^ 10` fits a word. -/
theorem toNat_toWei (sats : Amount) : (toWei sats).toNat = sats.toNat * satoshiInWei := by
  have h := sats.isLt
  rw [toWei, BitVec.toNat_ofNat, satoshiInWei]
  exact Nat.mod_eq_of_lt (by omega)

/-! ## Data -/

/-- `PeginDataError`. -/
inductive PeginDataError where
  | invalidFormat (e : EncodeError)
  | invalid (msg : String)
  | invalidPublicKey (e : SecpError)
  | invalidBitcoinBlockHeight
  | invalidTweak
  | frostError (e : FrostError)
  | invalidLength (claimed : BitVec 64) (remainingBytes : Nat)
  | invalidMerkleBlock (e : MerkleBlockError)
  | tooManyBlockHeaders (len : BitVec 64)
  deriving DecidableEq, Repr

/-- Pegin metadata, version 0. -/
structure PeginMetaV0 where
  version : BitVec 32
  merkleProof : PartialMerkleTree
  outpoint : OutPoint
  /-- The destination written into the proof; the event has an account of its own. -/
  address : Address
  aggregatePublickey : PublicKey
  /-- From the block of the transaction upwards, to the commitment or beyond. -/
  blockHeaders : List Header
  tx : Transaction
  deriving DecidableEq, Repr

/-- Pegin metadata, version 1: a reference block hash is added. -/
structure PeginMetaV1 where
  inner : PeginMetaV0
  refBlockHash : BitVec 256
  deriving DecidableEq, Repr

inductive PeginMeta where
  | v0 (pegin : PeginMetaV0)
  | v1 (pegin : PeginMetaV1)
  deriving DecidableEq, Repr

/-- The version 0 part of either kind. -/
def PeginMeta.inner : PeginMeta → PeginMetaV0
  | .v0 m => m
  | .v1 m => m.inner

def PeginMeta.version (m : PeginMeta) : BitVec 32 := m.inner.version

def PeginMeta.outpoint (m : PeginMeta) : OutPoint := m.inner.outpoint

def PeginMeta.address (m : PeginMeta) : Address := m.inner.address

def PeginMeta.tx (m : PeginMeta) : Transaction := m.inner.tx

def PeginMeta.refBlockHash : PeginMeta → Option (BitVec 256)
  | .v0 _ => none
  | .v1 m => some m.refBlockHash

/-- The data of one mint event. -/
structure PeginData where
  account : Address
  amount : U256
  bitcoinBlockHeight : BitVec 32
  metas : List PeginMeta
  deriving DecidableEq, Repr

/-! ## Wire format -/

section wire
variable (btc : BitcoinLib)

/-- The header list of a proof: at most 2016, and no more than the rest of the
buffer can hold. -/
def decodeBlockHeaders : Reader PeginDataError (List Header) := do
  let len ← decodeVarInt.mapErr .invalidFormat
  if len > maxBitcoinBlockHeaders then throw (.tooManyBlockHeaders len)
  else
    let left ← remaining
    if len.toNat > left / Header.size then throw (.invalidLength len left)
    else (decodeHeader.mapErr .invalidFormat).replicate len.toNat

/-- The 33 bytes of the aggregate key. -/
def decodePublicKey : Reader PeginDataError PublicKey := do
  let bs ← (slice 33 EncodeError.io).mapErr .invalidFormat
  match btc.publicKeyFromSlice bs with
  | .ok pk => return pk
  | .error e => throw (.invalidPublicKey e)

/-- The fields of version 0, in wire order. -/
def PeginMetaV0.decode : Reader PeginDataError PeginMetaV0 := do
  let version ← decodeU32.mapErr .invalidFormat
  let outpoint ← decodeOutPoint.mapErr .invalidFormat
  let address ← (slice 20 EncodeError.io).mapErr .invalidFormat
  let aggregatePublickey ← decodePublicKey btc
  let blockHeaders ← decodeBlockHeaders
  let merkleProof ← decodeMerkleProof.mapErr .invalidFormat
  let tx ← decodeTransaction.mapErr .invalidFormat
  return {
    version, merkleProof, outpoint, address := Address.ofBytes address, aggregatePublickey,
    blockHeaders, tx }

/-- `PeginMetaV0::deserialize`: the proof and the number of bytes it took. -/
def PeginMetaV0.deserialize (bytes : List UInt8) : Except PeginDataError (PeginMetaV0 × Nat) :=
  match (PeginMetaV0.decode btc).parse bytes with
  | .ok (m, rest) => .ok (m, bytes.length - rest.length)
  | .error e => .error e

/-- `PeginMetaV1::deserialize`: version 0, then 32 bytes. -/
def PeginMetaV1.deserialize (bytes : List UInt8) : Except PeginDataError (PeginMetaV1 × Nat) := do
  let (inner, innerSize) ← PeginMetaV0.deserialize btc bytes
  let rest := bytes.drop innerSize
  match (slice 32 (PeginDataError.invalidFormat .io)).parse rest with
  | .ok (hash, rest) =>
    .ok (⟨inner, BitVec.ofNat 256 (ofBE hash)⟩, bytes.length - rest.length)
  | .error e => .error e

/-- `PeginMeta::deserialize`: the version word selects the kind. -/
def PeginMeta.deserialize (bytes : List UInt8) : Except PeginDataError (PeginMeta × Nat) := do
  let (version, _) ← (decodeU32.mapErr PeginDataError.invalidFormat).parse bytes
  if version = peginMetaVersionV0 then
    let (m, size) ← PeginMetaV0.deserialize btc bytes
    return (.v0 m, size)
  else if version = peginMetaVersionV1 then
    let (m, size) ← PeginMetaV1.deserialize btc bytes
    return (.v1 m, size)
  else throw (.invalid "Invalid pegin meta version")

theorem takes_decodeBlockHeaders : decodeBlockHeaders.Takes 0 := by
  refine ((takes_decodeVarInt.mapErr _).bind (m := 0) fun len => ?_).mono (by omega)
  refine Takes.ite (takes_throw 0 _) (takes_remaining.bind (m := 0) fun left => ?_)
  exact Takes.ite (takes_throw 0 _) ((((takes_decodeHeader.mono (by decide)).mapErr _)).replicate _)

theorem takes_decodePublicKey : (decodePublicKey btc).Takes 0 := by
  refine ((takes_slice 33 _).mapErr _ |>.bind (m := 0) fun bs => ?_).mono (by omega)
  split
  · exact takes_pure _
  · exact takes_throw 0 _

/-- Every accepted proof takes at least its version word. -/
theorem PeginMetaV0.takes_decode : (PeginMetaV0.decode btc).Takes 4 := by
  refine ((takes_decodeWord 4).mapErr _).bind (m := 0) fun _ => ?_
  refine ((takes_decodeOutPoint.mapErr _).bind (m := 0) fun _ => ?_).mono (by omega)
  refine (((takes_slice 20 _).mapErr _).bind (m := 0) fun _ => ?_).mono (by omega)
  refine (takes_decodePublicKey btc).bind (m := 0) fun _ => ?_
  refine takes_decodeBlockHeaders.bind (m := 0) fun _ => ?_
  refine (takes_decodeMerkleProof.mapErr _).bind (m := 0) fun _ => ?_
  exact (takes_decodeTransaction.mapErr _).bind fun _ => takes_pure _

variable {bytes : List UInt8} {size : Nat}

/-- A parsed proof takes at least four bytes and no more than there are. -/
theorem PeginMetaV0.size_deserialize {m : PeginMetaV0}
    (h : PeginMetaV0.deserialize btc bytes = .ok (m, size)) : 4 ≤ size ∧ size ≤ bytes.length := by
  unfold PeginMetaV0.deserialize at h
  split at h
  case h_1 m' rest hp =>
    obtain ⟨-, rfl⟩ : m' = m ∧ bytes.length - rest.length = size := by simpa using h
    have := (PeginMetaV0.takes_decode btc).length_le hp
    omega
  case h_2 => contradiction

theorem PeginMetaV1.size_deserialize {m : PeginMetaV1}
    (h : PeginMetaV1.deserialize btc bytes = .ok (m, size)) : 4 ≤ size ∧ size ≤ bytes.length := by
  obtain ⟨⟨inner, innerSize⟩, hinner, h⟩ := except_bind_eq_ok.mp h
  obtain ⟨hfour, -⟩ := PeginMetaV0.size_deserialize btc hinner
  dsimp only at h
  split at h
  case h_1 hash rest hp =>
    obtain ⟨-, rfl⟩ : _ ∧ bytes.length - rest.length = size := by simpa using h
    have hlen := (takes_slice 32 _).length_le hp
    rw [List.length_drop] at hlen
    omega
  case h_2 => contradiction

/-- Either kind of proof makes progress, so the framing loop ends. -/
theorem PeginMeta.size_deserialize {m : PeginMeta}
    (h : PeginMeta.deserialize btc bytes = .ok (m, size)) : 4 ≤ size ∧ size ≤ bytes.length := by
  obtain ⟨⟨version, _⟩, -, h⟩ := except_bind_eq_ok.mp h
  dsimp only at h
  split_ifs at h
  · obtain ⟨⟨m0, size0⟩, h0, h⟩ := except_bind_eq_ok.mp h
    obtain ⟨-, rfl⟩ : _ ∧ size0 = size := by simpa [pure, Except.pure] using h
    exact PeginMetaV0.size_deserialize btc h0
  · obtain ⟨⟨m1, size1⟩, h1, h⟩ := except_bind_eq_ok.mp h
    obtain ⟨-, rfl⟩ : _ ∧ size1 = size := by simpa [pure, Except.pure] using h
    exact PeginMetaV1.size_deserialize btc h1

end wire

/-! ## Validation -/

section validate
variable (btc : BitcoinLib) (frost : FrostLib) (checks : Bool)

/-- Consecutive headers are linked by hash: the `peekable` loop of the source. -/
def HeadersLinked (headers : List Header) : Prop :=
  HashChain.Linked btc.blockHash Header.prevBlockhash headers

instance (headers : List Header) : Decidable (HeadersLinked btc headers) :=
  inferInstanceAs (Decidable (HashChain.Linked _ _ _))

/-- The headers up to and including the last one with the commitment's hash,
newest first: `iter().rev().skip_while(..)`. -/
def headersToCommitment (commitHash : BlockHash) (headers : List Header) : List Header :=
  headers.reverse.dropWhile fun h => btc.blockHash h ≠ commitHash

/-- The checks of one proof up to the tweaked key: the proof is about the given
transaction, and the transaction is in the block of the first header.  The
result is the gateway script of the account. -/
def PeginData.checkInclusion (self : PeginData) (commitment : Header × BitVec 32)
    (aggregatePk : PublicKey) (proof : PeginMeta) : Outcome PeginDataError ScriptBuf := do
  let commitHash := btc.blockHash commitment.1
  ensure (proof.version = peginMetaVersionV0 ∨ proof.version = peginMetaVersionV1)
    (.invalid "invalid meta version: only accepting version 0 or 1")
  let pegin := proof.inner
  ensure (∃ h ∈ pegin.blockHeaders, btc.blockHash h = commitHash)
    (.invalid "recent block hash mismatch")
  let (root, txids, _) ← ofExcept (btc.extractMatches pegin.merkleProof) .invalidMerkleBlock
  ensure (pegin.outpoint.txid ∈ txids) (.invalid "invalid merkle proof: inclusion")
  let first ← index pegin.blockHeaders 0
  ensure (first.merkleRoot = root) (.invalid "merkle proof and block header mismatch")
  ensure (btc.computeTxid pegin.tx = pegin.outpoint.txid) (.invalid "invalid tx or outpoint: txid")
  ensure (¬ pegin.tx.output.length < pegin.outpoint.vout.toNat)
    (.invalid "invalid tx or outpoint: output idx")
  let vk ← ofExcept (frost.deserialize aggregatePk.serialize) .frostError
  let tpk ← ofExcept (generateTweakedPublicKey btc frost vk self.account) fun _ => .invalidTweak
  return generateTaprootScriptpubkey tpk

/-- The checks of one proof from the output on: its script, the header sequence,
the height and the maturity.  The value is added before the headers are looked
at; `checks` says whether the build has overflow checks. -/
def PeginData.checkOutput (self : PeginData) (commitment : Header × BitVec 32)
    (gateway : ScriptBuf) (aggregateValue : U256) (pegin : PeginMetaV0) :
    Outcome PeginDataError U256 := do
  let commitHash := btc.blockHash commitment.1
  let output ← index pegin.tx.output pegin.outpoint.vout.toNat
  ensure (gateway = output.scriptPubkey) (.invalid "invalid script pubkey")
  let aggregateValue ← add aggregateValue (toWei output.value)
  ensure (HeadersLinked btc pegin.blockHeaders) (.invalid "invalid block header sequence")
  -- minus one for the commitment itself
  let diff ← subCount checks (headersToCommitment btc commitHash pegin.blockHeaders).length 1
  let height ← sub checks commitment.2 (BitVec.ofNat 32 diff)
  ensure (height = self.bitcoinBlockHeight) .invalidBitcoinBlockHeight
  ensure (¬ (pegin.tx.isCoinbase ∧ BitVec.ofNat 32 diff < coinbaseMaturity))
    (.invalid "spending non-mature coinbase")
  return aggregateValue

/-- The loop body of `PeginData::validate`. -/
def PeginData.validateMeta (self : PeginData) (commitment : Header × BitVec 32)
    (aggregatePk : PublicKey) (aggregateValue : U256) (proof : PeginMeta) :
    Outcome PeginDataError U256 := do
  let gateway ← self.checkInclusion btc frost commitment aggregatePk proof
  self.checkOutput btc checks commitment gateway aggregateValue proof.inner

/-- `PeginData::validate`: the aggregate value of all proofs, in wei. -/
def PeginData.validate (self : PeginData) (commitment : Header × BitVec 32)
    (aggregatePk : PublicKey) : Outcome PeginDataError U256 :=
  self.metas.foldlM (self.validateMeta btc frost checks commitment aggregatePk) 0

end validate

end Macbeth
