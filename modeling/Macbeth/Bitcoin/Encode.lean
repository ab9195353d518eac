import Macbeth.Lib.Reader
import Macbeth.Bitcoin.Types

/-!
# Consensus encoding

The parts of `bitcoin::consensus::encode` the sources use: little-endian integers,
compact sizes, hashes, outpoints, block headers, length-prefixed scripts, transactions
with and without witnesses, and partial merkle trees.  Each decoder is a `Reader`,
stated with the bytes it takes; a non-minimal compact size is refused, as the library
refuses it.
-/

namespace Macbeth

open Bytes Reader List BitVec

/-! ## Integers and hashes -/

/-- A little-endian word of `n` bytes. -/
def decodeWord (n : Nat) : Reader EncodeError (BitVec (8 * n)) := do
  let bs ← slice n .io
  return BitVec.ofNat (8 * n) (ofLE bs)

theorem takes_decodeWord (n : Nat) : (decodeWord n).Takes n :=
  (takes_slice n _).bind fun _ => takes_pure _

theorem reads_decodeWord {n : Nat} (x : BitVec (8 * n)) :
    Reads (decodeWord n) (toLE n x.toNat) x := by
  intro rest
  rw [decodeWord, parse_bind, parse_slice_append (length_toLE n _) rest]
  simp [ofNat_ofLE_toLE rfl x]

theorem exact_decodeWord (n : Nat) : Exact (decodeWord n) fun x => toLE n x.toNat := by
  intro buf x rest
  refine ⟨fun h => ?_, fun h => h ▸ reads_decodeWord x rest⟩
  obtain ⟨bs, mid, hslice, hx⟩ := parse_bind_eq_ok.mp h
  obtain ⟨hlength, rfl⟩ := parse_slice_eq_ok hslice
  obtain ⟨rfl, rfl⟩ : _ = x ∧ mid = rest := by simpa using hx
  have hlt := ofLE_lt bs
  rw [hlength, pow_256] at hlt
  simp only [toNat_ofNat, Nat.mod_eq_of_lt hlt]
  rw [← hlength, toLE_ofLE]

/-- `u32::consensus_decode`. -/
def decodeU32 : Reader EncodeError (BitVec 32) := decodeWord 4

/-- A 32-byte hash. -/
def decodeHash : Reader EncodeError (BitVec 256) := decodeWord 32

/-- `bitcoin::consensus::serialize` of a transaction id. -/
def serializeTxid (txid : Txid) : List UInt8 := toLE 32 txid.toNat

/-- `bitcoin::consensus::deserialize::<Txid>`: exactly 32 bytes. -/
def deserializeTxid (bs : List UInt8) : Option Txid :=
  if bs.length = 32 then some (BitVec.ofNat 256 (ofLE bs)) else none

theorem deserializeTxid_serializeTxid (txid : Txid) :
    deserializeTxid (serializeTxid txid) = some txid := by
  rw [deserializeTxid, serializeTxid, if_pos (length_toLE 32 _), ofNat_ofLE_toLE (by decide)]

/-! ## Compact sizes -/

/-- `VarInt::consensus_encode`. -/
def encodeVarInt (n : BitVec 64) : List UInt8 :=
  if n.toNat < 0xFD then [UInt8.ofNat n.toNat]
  else if n.toNat < 0x10000 then 0xFD :: toLE 2 n.toNat
  else if n.toNat < 0x100000000 then 0xFE :: toLE 4 n.toNat
  else 0xFF :: toLE 8 n.toNat

/-- A compact size that announces `n` bytes and must be at least `least`. -/
def decodeVarIntTail (n least : Nat) : Reader EncodeError (BitVec 64) := do
  let bs ← slice n .io
  if ofLE bs < least then throw .nonMinimalVarInt else return BitVec.ofNat 64 (ofLE bs)

/-- `VarInt::consensus_decode`. -/
def decodeVarInt : Reader EncodeError (BitVec 64) := do
  let tag ← decodeWord 1
  if tag = 0xFF then decodeVarIntTail 8 0x100000000
  else if tag = 0xFE then decodeVarIntTail 4 0x10000
  else if tag = 0xFD then decodeVarIntTail 2 0xFD
  else return tag.setWidth 64

theorem takes_decodeVarIntTail (n least : Nat) : (decodeVarIntTail n least).Takes 0 :=
  ((takes_slice n _).bind fun _ => Takes.ite (takes_throw 0 _) (takes_pure _)).mono (by omega)

theorem takes_decodeVarInt : decodeVarInt.Takes 1 :=
  (takes_decodeWord 1).bind fun _ =>
    (takes_decodeVarIntTail _ _).ite <| (takes_decodeVarIntTail _ _).ite <|
      (takes_decodeVarIntTail _ _).ite (takes_pure _)

/-- The tail of a compact size reads its integer back when the width fits it. -/
theorem parse_decodeVarIntTail_append {n least : Nat} {x : BitVec 64} (hx : x.toNat < 256 ^ n)
    (hleast : least ≤ x.toNat) (rest : List UInt8) :
    (decodeVarIntTail n least).parse (toLE n x.toNat ++ rest) = .ok (x, rest) := by
  rw [decodeVarIntTail, parse_bind, parse_slice_append (length_toLE n _) rest]
  simp only [ofLE_toLE hx, if_neg (Nat.not_lt.mpr hleast), ofNat_toNat, setWidth_eq,
    parse_pure]

/-- One byte is read as it stands. -/
theorem parse_decodeWord_one (b : UInt8) (rest : List UInt8) :
    (decodeWord 1).parse (b :: rest) = .ok (BitVec.ofNat (8 * 1) b.toNat, rest) := by
  have h : (slice 1 EncodeError.io).parse ([b] ++ rest) = .ok ([b], rest) :=
    parse_slice_append (by simp) rest
  rw [singleton_append] at h
  rw [decodeWord, parse_bind, h]
  simp [ofLE]

/-- Compact sizes round-trip in front of arbitrary bytes. -/
theorem parse_decodeVarInt_append (x : BitVec 64) (rest : List UInt8) :
    decodeVarInt.parse (encodeVarInt x ++ rest) = .ok (x, rest) := by
  have hlt := x.isLt
  rw [decodeVarInt, parse_bind]
  unfold encodeVarInt
  split_ifs with h1 h2 h3
  · -- the tag is the value, and none of the three markers
    have hb : (UInt8.ofNat x.toNat).toNat = x.toNat := by
      rw [UInt8.toNat_ofNat']; omega
    have hne : ∀ m : BitVec (8 * 1), 0xFD ≤ m.toNat → BitVec.ofNat (8 * 1) x.toNat ≠ m := by
      rintro m hm rfl
      rw [toNat_ofNat] at hm
      omega
    have hval : (BitVec.ofNat (8 * 1) x.toNat).setWidth 64 = x := by
      apply eq_of_toNat_eq
      simp only [toNat_setWidth, toNat_ofNat]
      omega
    rw [singleton_append, parse_decodeWord_one, hb]
    simp only [if_neg (hne 0xFF (by decide)), if_neg (hne 0xFE (by decide)),
      if_neg (hne 0xFD (by decide)), parse_pure, hval]
  · rw [List.cons_append, parse_decodeWord_one]
    exact parse_decodeVarIntTail_append (by omega) (by omega) rest
  · rw [List.cons_append, parse_decodeWord_one]
    exact parse_decodeVarIntTail_append (by omega) (by omega) rest
  · rw [List.cons_append, parse_decodeWord_one]
    exact parse_decodeVarIntTail_append (by omega) (by omega) rest

/-! ## Outpoints, headers and scripts -/

/-- `OutPoint::consensus_decode`. -/
def decodeOutPoint : Reader EncodeError OutPoint := do
  let txid ← decodeHash
  let vout ← decodeU32
  return ⟨txid, vout⟩

theorem takes_decodeOutPoint : decodeOutPoint.Takes 36 :=
  (takes_decodeWord 32).bind fun _ => (takes_decodeWord 4).bind fun _ => takes_pure _

/-- `Header::consensus_decode`: 80 bytes. -/
def decodeHeader : Reader EncodeError Header := do
  let version ← decodeU32
  let prevBlockhash ← decodeHash
  let merkleRoot ← decodeHash
  let time ← decodeU32
  let bits ← decodeU32
  let nonce ← decodeU32
  return ⟨version, prevBlockhash, merkleRoot, time, bits, nonce⟩

theorem takes_decodeHeader : decodeHeader.Takes Header.size :=
  (takes_decodeWord 4).bind fun _ => (takes_decodeWord 32).bind fun _ =>
    (takes_decodeWord 32).bind fun _ => (takes_decodeWord 4).bind fun _ =>
      (takes_decodeWord 4).bind fun _ => (takes_decodeWord 4).bind fun _ => takes_pure _

/-- `OutPoint::consensus_encode`. -/
def encodeOutPoint (o : OutPoint) : List UInt8 := toLE 32 o.txid.toNat ++ toLE 4 o.vout.toNat

/-- `Header::consensus_encode`. -/
def encodeHeader (h : Header) : List UInt8 :=
  toLE 4 h.version.toNat ++ toLE 32 h.prevBlockhash.toNat ++ toLE 32 h.merkleRoot.toNat ++
    toLE 4 h.time.toNat ++ toLE 4 h.bits.toNat ++ toLE 4 h.nonce.toNat

/-- `bitcoin::consensus::serialize` of a script: its length, then its bytes. -/
def serializeScript (script : ScriptBuf) : List UInt8 :=
  encodeVarInt (BitVec.ofNat 64 script.length) ++ script

/-- `bitcoin::consensus::deserialize::<ScriptBuf>`: nothing may be left over. -/
def deserializeScript (bs : List UInt8) : Option ScriptBuf :=
  match decodeVarInt.parse bs with
  | .ok (len, rest) => if rest.length = len.toNat then some rest else none
  | .error _ => none

theorem deserializeScript_serializeScript {script : ScriptBuf} (h : script.length < 2 ^ 64) :
    deserializeScript (serializeScript script) = some script := by
  simp only [deserializeScript, serializeScript, parse_decodeVarInt_append, toNat_ofNat,
    Nat.mod_eq_of_lt h, if_true]

/-! ## Transactions -/

/-- A length-prefixed list of values. -/
def decodeVec {α : Type} (item : Reader EncodeError α) : Reader EncodeError (List α) := do
  let len ← decodeVarInt
  item.replicate len.toNat

theorem takes_decodeVec {α : Type} {item : Reader EncodeError α} (h : item.Takes 0) :
    (decodeVec item).Takes 1 :=
  takes_decodeVarInt.bind fun _ => h.replicate _

/-- A length-prefixed byte string. -/
def decodeBytes : Reader EncodeError (List UInt8) := do
  let len ← decodeVarInt
  slice len.toNat .io

theorem takes_decodeBytes : decodeBytes.Takes 0 :=
  (takes_decodeVarInt.bind fun _ => (takes_slice _ _).mono (Nat.zero_le _)).mono (by omega)

/-- `TxIn::consensus_decode`: the witness comes later. -/
def decodeTxIn : Reader EncodeError TxIn := do
  let previousOutput ← decodeOutPoint
  let scriptSig ← decodeBytes
  let sequence ← decodeU32
  return ⟨previousOutput, scriptSig, sequence, []⟩

theorem takes_decodeTxIn : decodeTxIn.Takes 0 :=
  (takes_decodeOutPoint.bind fun _ => takes_decodeBytes.bind fun _ =>
    (takes_decodeWord 4).bind fun _ => takes_pure _).mono (Nat.zero_le _)

def decodeTxOut : Reader EncodeError TxOut := do
  let value ← decodeWord 8
  let scriptPubkey ← decodeBytes
  return ⟨value, scriptPubkey⟩

theorem takes_decodeTxOut : decodeTxOut.Takes 0 :=
  ((takes_decodeWord 8).bind fun _ => takes_decodeBytes.bind fun _ => takes_pure _).mono
    (Nat.zero_le _)

/-- `MAX_VEC_SIZE`. -/
def maxVecSize : Nat := 4000000

/-- The elements of a witness stack; `used` counts the bytes so far, sizes included. -/
def decodeWitnessElements : (count used : Nat) → Reader EncodeError (List (List UInt8))
  | 0, _ => pure []
  | count + 1, used => do
    let len ← decodeVarInt
    let used := used + len.toNat + (encodeVarInt len).length
    if used > maxVecSize then throw (.parseFailed "oversized vector allocation")
    else
      let element ← slice len.toNat .io
      let elements ← decodeWitnessElements count used
      return element :: elements

/-- `Witness::consensus_decode`. -/
def decodeWitness : Reader EncodeError (List (List UInt8)) := do
  let count ← decodeVarInt
  if count.toNat > maxVecSize then throw (.parseFailed "oversized vector allocation")
  else decodeWitnessElements count.toNat 0

theorem takes_decodeWitnessElements :
    ∀ count used : Nat, (decodeWitnessElements count used).Takes 0
  | 0, _ => takes_pure []
  | count + 1, used => by
    refine (takes_decodeVarInt.bind (m := 0) fun len => ?_).mono (Nat.zero_le _)
    refine (takes_throw 0 _).ite (((takes_slice _ _).mono (Nat.zero_le _)).bind (m := 0) fun _ => ?_)
    exact (takes_decodeWitnessElements count _).bind fun _ => takes_pure _

theorem takes_decodeWitness : decodeWitness.Takes 0 :=
  (takes_decodeVarInt.bind fun _ =>
    (takes_throw 0 _).ite (takes_decodeWitnessElements _ _)).mono (Nat.zero_le _)

/-- One witness for each input, in order. -/
def decodeWitnesses : List TxIn → Reader EncodeError (List TxIn)
  | [] => pure []
  | i :: is => do
    let witness ← decodeWitness
    let rest ← decodeWitnesses is
    return { i with witness } :: rest

theorem takes_decodeWitnesses : ∀ is : List TxIn, (decodeWitnesses is).Takes 0
  | [] => takes_pure []
  | _ :: is => takes_decodeWitness.bind fun _ =>
      (takes_decodeWitnesses is).bind fun _ => takes_pure _

/-- `Transaction::consensus_decode`: no inputs announce the segwit form. -/
def decodeTransaction : Reader EncodeError Transaction := do
  let version ← decodeU32
  let input ← decodeVec decodeTxIn
  if input.isEmpty then
    let flag ← decodeWord 1
    if flag = 1 then
      let input ← decodeVec decodeTxIn
      let output ← decodeVec decodeTxOut
      let input ← decodeWitnesses input
      if ¬ input.isEmpty ∧ input.all fun i => i.witness.isEmpty then
        throw (.parseFailed "witness flag set but no witnesses present")
      else
        let lockTime ← decodeU32
        return ⟨version, lockTime, input, output⟩
    else throw (.parseFailed "unsupported segwit version")
  else
    let output ← decodeVec decodeTxOut
    let lockTime ← decodeU32
    return ⟨version, lockTime, input, output⟩

theorem takes_decodeTransaction : decodeTransaction.Takes 0 := by
  refine ((takes_decodeWord 4).bind (m := 0) fun _ => ?_).mono (Nat.zero_le _)
  refine ((takes_decodeVec takes_decodeTxIn).bind (m := 0) fun _ => ?_).mono (Nat.zero_le _)
  refine Takes.ite ?_ ?_
  · refine ((takes_decodeWord 1).bind (m := 0) fun _ => ?_).mono (Nat.zero_le _)
    refine Takes.ite ?_ (takes_throw 0 _)
    refine ((takes_decodeVec takes_decodeTxIn).bind (m := 0) fun _ => ?_).mono (Nat.zero_le _)
    refine ((takes_decodeVec takes_decodeTxOut).bind (m := 0) fun _ => ?_).mono (Nat.zero_le _)
    refine (takes_decodeWitnesses _).bind (m := 0) fun _ => ?_
    exact (takes_throw 0 _).ite
      (((takes_decodeWord 4).bind fun _ => takes_pure _).mono (Nat.zero_le _))
  · refine ((takes_decodeVec takes_decodeTxOut).bind (m := 0) fun _ => ?_).mono (Nat.zero_le _)
    exact ((takes_decodeWord 4).bind fun _ => takes_pure _).mono (Nat.zero_le _)

/-- `Transaction::consensus_encode` without witnesses: what the id is the hash of. -/
def encodeStripped (tx : Transaction) : List UInt8 :=
  toLE 4 tx.version.toNat ++ encodeVarInt (BitVec.ofNat 64 tx.input.length) ++
    tx.input.flatMap (fun i =>
      encodeOutPoint i.previousOutput ++ serializeScript i.scriptSig ++ toLE 4 i.sequence.toNat) ++
    encodeVarInt (BitVec.ofNat 64 tx.output.length) ++
    tx.output.flatMap (fun o => toLE 8 o.value.toNat ++ serializeScript o.scriptPubkey) ++
    toLE 4 tx.lockTime.toNat

/-! ## Weight -/

/-- The size of an input's witness: the count, then each element with its length. -/
def witnessSize (witness : List (List UInt8)) : Nat :=
  (encodeVarInt (BitVec.ofNat 64 witness.length)).length +
    (witness.map fun item => (serializeScript item).length).sum

/-- `uses_segwit_serialization`: some witness, or no input at all. -/
def Transaction.usesSegwitSerialization (tx : Transaction) : Bool :=
  tx.input.any (fun i => !i.witness.isEmpty) || tx.input.isEmpty

/-- `Transaction::base_size`. -/
def Transaction.baseSize (tx : Transaction) : Nat := (encodeStripped tx).length

/-- `Transaction::total_size`. -/
def Transaction.totalSize (tx : Transaction) : Nat :=
  tx.baseSize + if tx.usesSegwitSerialization then
    2 + (tx.input.map fun i => witnessSize i.witness).sum else 0

/-- `Transaction::weight`, in weight units. -/
def Transaction.weight (tx : Transaction) : Nat := 3 * tx.baseSize + tx.totalSize

/-! ## Partial merkle trees -/

/-- The bits of a byte, lowest first. -/
def bitsOfByte (b : UInt8) : List Bool := (List.range 8).map fun i => b.toNat.testBit i

/-- `PartialMerkleTree::consensus_decode`. -/
def decodeMerkleProof : Reader EncodeError PartialMerkleTree := do
  let numTransactions ← decodeU32
  let hashes ← decodeVec decodeHash
  let bytes ← decodeBytes
  return ⟨numTransactions, bytes.flatMap bitsOfByte, hashes⟩

theorem takes_decodeMerkleProof : decodeMerkleProof.Takes 0 :=
  ((takes_decodeWord 4).bind fun _ =>
    (takes_decodeVec ((takes_decodeWord 32).mono (Nat.zero_le _))).bind fun _ =>
      takes_decodeBytes.bind fun _ => takes_pure _).mono (Nat.zero_le _)

end Macbeth
