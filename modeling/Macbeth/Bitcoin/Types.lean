import Macbeth.Lib.Bytes

/-!
# Bitcoin data

The data types of `rust-bitcoin`, `secp256k1` and the FROST library that the
sources use, with the few of their functions that are plain data manipulation
(`is_coinbase`, the compressed serialization of a key, the script of a taproot
output).  Hashing, merkle tree extraction and elliptic-curve arithmetic are not part of
this repository; they are the fields of `BitcoinLib` and `FrostLib`, and every
definition that calls them takes the record as a parameter.
-/

namespace Macbeth

open Bytes

/-! ## Words -/

/-- A transaction id (a 32-byte hash). -/
abbrev Txid := BitVec 256

/-- A block hash. -/
abbrev BlockHash := BitVec 256

/-- A node of a transaction merkle tree. -/
abbrev TxMerkleNode := BitVec 256

/-- An amount in satoshis (`u64`). -/
abbrev Amount := BitVec 64

/-- A 256-bit EVM word; an amount in wei. -/
abbrev U256 := BitVec 256

/-- An EVM account address. -/
abbrev Address := BitVec 160

/-- The 20 bytes of an address. -/
def Address.toBytes (a : Address) : List UInt8 := toBE 20 a.toNat

/-- `Address::from_slice` on 20 bytes. -/
def Address.ofBytes (bs : List UInt8) : Address := BitVec.ofNat 160 (ofBE bs)

@[simp] theorem Address.length_toBytes (a : Address) : (Address.toBytes a).length = 20 := by
  simp [Address.toBytes]

@[simp] theorem Address.ofBytes_toBytes (a : Address) : Address.ofBytes (Address.toBytes a) = a :=
  ofNat_ofBE_toBE (by decide) a

theorem Address.toBytes_ofBytes {bs : List UInt8} (h : bs.length = 20) :
    Address.toBytes (Address.ofBytes bs) = bs := by
  have hlt := ofBE_lt bs
  rw [h, pow_256] at hlt
  rw [Address.toBytes, Address.ofBytes, BitVec.toNat_ofNat, Nat.mod_eq_of_lt hlt, toBE_ofBE h]

/-- A script as its bytes. -/
abbrev ScriptBuf := List UInt8

/-! ## Transactions and blocks -/

/-- An output of a transaction, by id and index. -/
structure OutPoint where
  txid : Txid
  vout : BitVec 32
  deriving DecidableEq, Repr

/-- The outpoint of a coinbase input. -/
def OutPoint.null : OutPoint := ⟨0, BitVec.allOnes 32⟩

structure TxIn where
  previousOutput : OutPoint
  scriptSig : ScriptBuf
  sequence : BitVec 32
  witness : List (List UInt8)
  deriving DecidableEq, Repr

structure TxOut where
  value : Amount
  scriptPubkey : ScriptBuf
  deriving DecidableEq, Repr

structure Transaction where
  version : BitVec 32
  lockTime : BitVec 32
  input : List TxIn
  output : List TxOut
  deriving DecidableEq, Repr

/-- The outpoints a transaction spends. -/
def Transaction.inputs (tx : Transaction) : List OutPoint := tx.input.map (·.previousOutput)

/-- A single input that spends nothing. -/
def Transaction.isCoinbase (tx : Transaction) : Bool :=
  match tx.input with
  | [i] => i.previousOutput = OutPoint.null
  | _ => false

/-- The part of a transaction its id commits to: everything but the witnesses. -/
def Transaction.stripped (tx : Transaction) : Transaction :=
  { tx with input := tx.input.map fun i => { i with witness := [] } }

@[simp] theorem Transaction.stripped_output (tx : Transaction) : tx.stripped.output = tx.output :=
  rfl

/-- `COINBASE_MATURITY`: confirmations before a coinbase output can be spent. -/
def coinbaseMaturity : BitVec 32 := 100

structure Header where
  version : BitVec 32
  prevBlockhash : BlockHash
  merkleRoot : TxMerkleNode
  time : BitVec 32
  bits : BitVec 32
  nonce : BitVec 32
  deriving DecidableEq, Repr

/-- `Header::SIZE`. -/
def Header.size : Nat := 80

structure Block where
  header : Header
  txdata : List Transaction
  deriving DecidableEq, Repr

/-- A partial merkle tree as it is sent: the leaf count, the traversal bits and
the hashes. -/
structure PartialMerkleTree where
  numTransactions : BitVec 32
  bits : List Bool
  hashes : List TxMerkleNode
  deriving DecidableEq, Repr

/-! ## Keys and taproot scripts -/

/-- A secp256k1 public key in compressed form: the parity of `y` and `x`. -/
structure PublicKey where
  odd : Bool
  x : BitVec 256
  deriving DecidableEq, Repr

/-- The 33 bytes of a compressed key. -/
def PublicKey.serialize (pk : PublicKey) : List UInt8 :=
  (if pk.odd then 3 else 2) :: toBE 32 pk.x.toNat

/-- A p2tr output script: version one and the 32 bytes of the x-only key. -/
def p2tr (x : BitVec 256) : ScriptBuf := 0x51 :: 0x20 :: toBE 32 x.toNat

/-- `is_p2tr`: 34 bytes, `OP_1` and a push of 32. -/
def isP2tr (script : ScriptBuf) : Bool :=
  match script with
  | 0x51 :: 0x20 :: rest => rest.length = 32
  | _ => false

@[simp] theorem isP2tr_p2tr (x : BitVec 256) : isP2tr (p2tr x) = true := by
  simp [isP2tr, p2tr]

/-- The script determines the key. -/
theorem p2tr_inj {x y : BitVec 256} (h : p2tr x = p2tr y) : x = y := by
  have hbytes : toBE 32 x.toNat = toBE 32 y.toNat := by simpa [p2tr] using h
  rw [← ofNat_ofBE_toBE (w := 32) (by decide) x, hbytes, ofNat_ofBE_toBE (by decide)]

/-- A FROST verifying key: a point of the curve, possibly the identity. -/
inductive VerifyingKey where
  | identity
  | point (pk : PublicKey)
  deriving DecidableEq, Repr

/-- `frost::SigningParameters`. -/
structure SigningParameters where
  tapscriptMerkleRoot : Option (List UInt8)
  additionalTweak : Option (List UInt8)
  deriving DecidableEq, Repr

/-! ## Errors of the libraries -/

/-- `bitcoin::consensus::encode::Error`. -/
inductive EncodeError where
  | io
  | nonMinimalVarInt
  | parseFailed (msg : String)
  deriving DecidableEq, Repr

/-- `bitcoin::merkle_tree::MerkleBlockError`. -/
inductive MerkleBlockError where
  | merkleRootMismatch
  | noTransactions
  | tooManyTransactions
  | tooManyHashes
  | notEnoughBits
  | notAllBitsConsumed
  | notAllHashesConsumed
  | bitsArrayOverflow
  | hashesArrayOverflow
  | identicalHashesFound
  deriving DecidableEq, Repr

/-- `secp256k1::Error`, as far as parsing a key goes. -/
inductive SecpError where
  | invalidPublicKey
  deriving DecidableEq, Repr

/-- `frost::Error`, as far as (de)serializing a key goes. -/
inductive FrostError where
  | malformedVerifyingKey
  | invalidIdentityElement
  deriving DecidableEq, Repr

/-! ## Library functions that are parameters -/

/-- The functions of `rust-bitcoin` and `secp256k1` the sources call. -/
structure BitcoinLib where
  blockHash : Header → BlockHash
  computeTxid : Transaction → Txid
  /-- The root, the matched leaves and their positions. -/
  extractMatches : PartialMerkleTree →
    Except MerkleBlockError (TxMerkleNode × List Txid × List (BitVec 32))
  /-- Whether the coordinate is that of a point of the curve. -/
  isOnCurve : BitVec 256 → Bool

/-- The functions of the FROST library on verifying keys. -/
structure FrostLib where
  deserialize : List UInt8 → Except FrostError VerifyingKey
  tweak : VerifyingKey → SigningParameters → VerifyingKey

/-- `PublicKey::from_slice` on a compressed key. -/
def BitcoinLib.publicKeyFromSlice (btc : BitcoinLib) (bs : List UInt8) :
    Except SecpError PublicKey :=
  match bs with
  | tag :: xs =>
    let x := BitVec.ofNat 256 (ofBE xs)
    if xs.length = 32 ∧ (tag = 2 ∨ tag = 3) ∧ btc.isOnCurve x then
      .ok ⟨tag = 3, x⟩
    else .error .invalidPublicKey
  | [] => .error .invalidPublicKey

/-- A key on the curve survives its serialization. -/
theorem BitcoinLib.publicKeyFromSlice_serialize (btc : BitcoinLib) {pk : PublicKey}
    (h : btc.isOnCurve pk.x = true) : btc.publicKeyFromSlice pk.serialize = .ok pk := by
  obtain ⟨odd, x⟩ := pk
  have hx : BitVec.ofNat 256 (ofBE (toBE 32 x.toNat)) = x := ofNat_ofBE_toBE (by decide) x
  cases odd
  all_goals
    simp only [publicKeyFromSlice, PublicKey.serialize, hx]
    exact if_pos ⟨by simp, by simp, h⟩

/-- A slice is accepted only if it is the serialization of a key on the curve. -/
theorem BitcoinLib.serialize_of_publicKeyFromSlice (btc : BitcoinLib) {bs : List UInt8}
    {pk : PublicKey} (h : btc.publicKeyFromSlice bs = .ok pk) :
    btc.isOnCurve pk.x = true ∧ bs = pk.serialize := by
  unfold publicKeyFromSlice at h
  split at h
  · next tag xs =>
    dsimp only at h
    split at h
    · next hcond =>
      obtain ⟨hlength, htag, hcurve⟩ := hcond
      obtain rfl := Except.ok.inj h
      have hlt := ofBE_lt xs
      rw [hlength, pow_256] at hlt
      have hx : toBE 32 (BitVec.ofNat 256 (ofBE xs)).toNat = xs := by
        rw [BitVec.toNat_ofNat, Nat.mod_eq_of_lt hlt, toBE_ofBE hlength]
      rw [PublicKey.serialize, hx]
      exact ⟨hcurve, by rcases htag with rfl | rfl <;> simp⟩
    · cases h
  · cases h

end Macbeth
