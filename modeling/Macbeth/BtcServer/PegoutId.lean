import Macbeth.Lib.Bytes

/-!
# Pegout identifiers (`pegout_id.rs`)

A pegout is named by the transaction that burned the coins and the index of the log in
its receipt.  The 36-byte form is what databases and PSBT fields hold.
-/

namespace Macbeth

open Bytes List

/-- `PegoutId`: the hash of the burning transaction and the log's index. -/
structure PegoutId where
  txid : BitVec 256
  idx : BitVec 32
  deriving DecidableEq, Repr

/-- `PegoutId::as_bytes`: 32 bytes of hash, then the index in big endian. -/
def PegoutId.asBytes (id : PegoutId) : List UInt8 := toBE 32 id.txid.toNat ++ toBE 4 id.idx.toNat

@[simp] theorem PegoutId.length_asBytes (id : PegoutId) : id.asBytes.length = 36 := by
  simp [asBytes]

/-- `PegoutId::from_bytes`: exactly 36 bytes. -/
def PegoutId.fromBytes (bs : List UInt8) : Option PegoutId :=
  if bs.length = 36 then
    some ⟨BitVec.ofNat 256 (ofBE (bs.take 32)), BitVec.ofNat 32 (ofBE (bs.drop 32))⟩
  else none

theorem PegoutId.fromBytes_asBytes (id : PegoutId) : fromBytes id.asBytes = some id := by
  have htake : id.asBytes.take 32 = toBE 32 id.txid.toNat := by
    rw [asBytes, take_append_of_le_length (by simp), take_of_length_le (by simp)]
  have hdrop : id.asBytes.drop 32 = toBE 4 id.idx.toNat := by
    rw [asBytes, drop_append_of_le_length (by simp), drop_of_length_le (by simp),
      nil_append]
  rw [fromBytes, if_pos id.length_asBytes, htake, hdrop, ofNat_ofBE_toBE (by decide),
    ofNat_ofBE_toBE (by decide)]

end Macbeth
