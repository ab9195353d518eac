import Macbeth.Peg.MintValidation

/-!
# The framing of pegin metadata (`peg_contract.rs`)

The metadata of a mint event are proofs one after the other, with neither a count nor a length:
each decoder reports how many bytes it took, and the loop goes on behind them.  Every component is
read back whatever follows it, so every proof is, and the loop returns the list that was written.
That what `rust-bitcoin` writes of transactions and merkle trees is read back is assumed.
-/

namespace Macbeth

open Bytes Reader Outcome List

/-! ## Writing a proof -/

/-- What `rust-bitcoin` writes of a proof. -/
structure BitcoinWriter where
  tree : PartialMerkleTree → List UInt8
  tx : Transaction → List UInt8

section
variable (w : BitcoinWriter)

def encodeBlockHeaders (headers : List Header) : List UInt8 :=
  encodeVarInt (BitVec.ofNat 64 headers.length) ++ headers.flatMap encodeHeader

/-- `PeginMetaV0::serialize`. -/
def PeginMetaV0.serialize (m : PeginMetaV0) : List UInt8 :=
  toLE 4 m.version.toNat ++ encodeOutPoint m.outpoint ++ Address.toBytes m.address ++
    m.aggregatePublickey.serialize ++ encodeBlockHeaders m.blockHeaders ++
    w.tree m.merkleProof ++ w.tx m.tx

/-- `PeginMetaV1::serialize`: version 0, then the 32 bytes of the reference block hash. -/
def PeginMetaV1.serialize (m : PeginMetaV1) : List UInt8 :=
  m.inner.serialize w ++ toBE 32 m.refBlockHash.toNat

/-- `PeginMeta::serialize`. -/
def PeginMeta.serialize : PeginMeta → List UInt8
  | .v0 m => m.serialize w
  | .v1 m => m.serialize w

/-- The version word of each kind. -/
def PeginMeta.kindVersion : PeginMeta → BitVec 32
  | .v0 _ => peginMetaVersionV0
  | .v1 _ => peginMetaVersionV1

variable (btc : BitcoinLib)

/-- What the writer of a proof keeps to: the key is a point of the curve, as every key of the
library, and the headers are no more than the reader takes. -/
structure PeginMeta.Written (m : PeginMeta) : Prop where
  version : m.version = m.kindVersion
  onCurve : btc.isOnCurve m.inner.aggregatePublickey.x = true
  headers : m.inner.blockHeaders.length ≤ 2016
  tree : Reads decodeMerkleProof (w.tree m.inner.merkleProof) m.inner.merkleProof
  tx : Reads decodeTransaction (w.tx m.tx) m.tx

end

/-! ## Reading it back -/

theorem reads_decodeU32 (x : BitVec 32) : Reads decodeU32 (toLE 4 x.toNat) x :=
  reads_decodeWord (n := 4) x

theorem reads_decodeHash (x : BitVec 256) : Reads decodeHash (toLE 32 x.toNat) x :=
  reads_decodeWord (n := 32) x

theorem reads_decodeOutPoint (o : OutPoint) : Reads decodeOutPoint (encodeOutPoint o) o :=
  (reads_decodeHash o.txid).bind ((reads_decodeU32 o.vout).map (OutPoint.mk o.txid))

theorem reads_decodeHeader (h : Header) : Reads decodeHeader (encodeHeader h) h := by
  simp only [encodeHeader, append_assoc]
  exact (reads_decodeU32 h.version).bind <| (reads_decodeHash h.prevBlockhash).bind <|
    (reads_decodeHash h.merkleRoot).bind <| (reads_decodeU32 h.time).bind <|
      (reads_decodeU32 h.bits).bind <| (reads_decodeU32 h.nonce).map
        (Header.mk h.version h.prevBlockhash h.merkleRoot h.time h.bits)

theorem reads_slice {bs : List UInt8} {n : Nat} (h : bs.length = n) :
    Reads ((slice n EncodeError.io).mapErr PeginDataError.invalidFormat) bs bs :=
  Reads.mapErr (parse_slice_append h) _

variable {btc : BitcoinLib} {w : BitcoinWriter} {m : PeginMeta} {metas : List PeginMeta}

theorem reads_decodePublicKey {key : PublicKey} (h : btc.isOnCurve key.x = true) :
    Reads (decodePublicKey btc) key.serialize key := by
  intro rest
  rw [decodePublicKey, (reads_slice (by simp [PublicKey.serialize])).parse_bind,
    btc.publicKeyFromSlice_serialize h, parse_pure]

/-- The bytes of the headers are there, so their announced number fits the buffer. -/
theorem reads_decodeBlockHeaders {headers : List Header} (h : headers.length ≤ 2016) :
    Reads decodeBlockHeaders (encodeBlockHeaders headers) headers := by
  intro rest
  have hlen : (BitVec.ofNat 64 headers.length).toNat = headers.length := by
    rw [BitVec.toNat_ofNat]; omega
  have hfew : ¬ BitVec.ofNat 64 headers.length > maxBitcoinBlockHeaders := by
    rw [gt_iff_lt, BitVec.lt_def, hlen, maxBitcoinBlockHeaders]; simp; omega
  have hfit : ¬ headers.length > (headers.flatMap encodeHeader ++ rest).length / Header.size := by
    simp [length_flatMap, encodeHeader, Header.size]
    omega
  rw [decodeBlockHeaders, encodeBlockHeaders, append_assoc,
    (Reads.mapErr (parse_decodeVarInt_append _) _).parse_bind, if_neg hfew, parse_bind,
    parse_remaining]
  simp only [hlen, if_neg hfit]
  exact Reads.replicate (fun a _ => (reads_decodeHeader a).mapErr _) rest

theorem PeginMeta.Written.reads (h : m.Written w btc) :
    Reads (PeginMetaV0.decode btc) (m.inner.serialize w) m.inner := by
  have hinner : { m.inner with address := Address.ofBytes (Address.toBytes m.inner.address) } =
      m.inner := by
    rw [Address.ofBytes_toBytes]
  simp only [PeginMetaV0.serialize, append_assoc]
  refine Eq.subst (motive := fun x => Reads _ _ x) hinner ?_
  exact ((reads_decodeU32 _).mapErr _).bind <| ((reads_decodeOutPoint _).mapErr _).bind <|
    (reads_slice (by simp)).bind <| (reads_decodePublicKey h.onCurve).bind <|
      (reads_decodeBlockHeaders h.headers).bind <| (h.tree.mapErr _).bind <| (h.tx.mapErr _).map _

/-- The version word selects the decoder of the kind that was written; the reference hash stands
right behind the bytes the version 0 part took. -/
theorem PeginMeta.Written.deserialize (h : m.Written w btc) (rest : List UInt8) :
    PeginMeta.deserialize btc (m.serialize w ++ rest) = .ok (m, (m.serialize w).length) := by
  have hword : ∃ left, (decodeU32.mapErr PeginDataError.invalidFormat).parse
      (m.serialize w ++ rest) = .ok (m.kindVersion, left) := by
    rw [← h.version]
    cases m <;> simp only [serialize, PeginMetaV1.serialize, PeginMetaV0.serialize,
      append_assoc] <;> exact ⟨_, (reads_decodeU32 _).mapErr _ _⟩
  obtain ⟨left, hword⟩ := hword
  simp only [PeginMeta.deserialize, hword, bind, Except.bind]
  cases m with
  | v0 m =>
    have hread : (PeginMetaV0.decode btc).parse (m.serialize w ++ rest) = .ok (m, rest) :=
      h.reads rest
    simp [serialize, kindVersion, PeginMetaV0.deserialize, hread, pure, Except.pure]
  | v1 m =>
    have hread : (PeginMetaV0.decode btc).parse (m.inner.serialize w ++
        (toBE 32 m.refBlockHash.toNat ++ rest)) = .ok (m.inner, _) := h.reads _
    have hslice := parse_slice_append (e := PeginDataError.invalidFormat .io)
      (length_toBE 32 m.refBlockHash.toNat) rest
    simp [serialize, PeginMetaV1.serialize, kindVersion, PeginMetaV1.deserialize, bind,
      show peginMetaVersionV1 ≠ peginMetaVersionV0 by decide, PeginMetaV0.deserialize, hread,
      Except.bind, pure, Except.pure, hslice, ofNat_ofBE_toBE (w := 32) rfl]
    omega

/-! ## The loop -/

variable {destination : Address} {amount : U256}

/-- Every round takes the first proof of the list, whose outpoint is of no later one. -/
theorem parseProofs_flatMap_serialize (hwritten : ∀ m ∈ metas, m.Written w btc)
    (hnodup : (metas.map PeginMeta.outpoint).Nodup) {seen : List OutPoint}
    (hseen : ∀ m ∈ metas, m.outpoint ∉ seen) {fuel : Nat}
    (hfuel : (metas.flatMap (·.serialize w)).length ≤ fuel) :
    parseProofs btc destination amount fuel (metas.flatMap (·.serialize w)) seen = ok metas := by
  induction metas generalizing seen fuel with
  | nil => cases fuel <;> simp [parseProofs]
  | cons m metas ih =>
    have hread := (hwritten m mem_cons_self).deserialize (metas.flatMap (·.serialize w))
    have hsize := PeginMeta.size_deserialize btc hread
    simp only [flatMap_cons, length_append, map_cons, nodup_cons, mem_map, not_exists, not_and,
      mem_cons, forall_eq_or_imp] at *
    cases fuel with
    | zero => omega
    | succ fuel =>
      have hrest : parseProofs btc destination amount fuel (metas.flatMap (·.serialize w))
          (m.outpoint :: seen) = ok metas :=
        ih hwritten.2 hnodup.2 (fun x hx => by simp [hnodup.1 x hx, hseen.2 x hx]) (by omega)
      rw [parseProofs, if_neg (ne_nil_of_length_pos (by rw [length_append]; omega)), hread]
      simp [Outcome.ofExcept, ensure, hseen.1, hrest]

/-- A tree without hashes, a transaction without inputs and outputs. -/
def emptyWriter : BitcoinWriter :=
  ⟨fun _ => [0, 0, 0, 0, 0, 0], fun _ => [2, 0, 0, 0, 0, 1, 0, 0, 0, 0, 0, 0]⟩

def framedProof (version vout : BitVec 32) : PeginMetaV0 :=
  { sampleProof with
    version, outpoint := ⟨sampleTxid, vout⟩, merkleProof := ⟨0, [], []⟩, tx := ⟨2, 0, [], []⟩ }

def framedProofs : List PeginMeta := [.v0 (framedProof 0 0), .v1 ⟨framedProof 1 1, 7⟩]

end Macbeth
