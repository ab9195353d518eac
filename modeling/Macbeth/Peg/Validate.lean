import Macbeth.Peg.PegContract

/-!
# Outcomes of pegin validation

One spec lemma for each half of the loop body of `PeginData::validate`: when it
accepts, and when it panics.  `Included` collects what the first half checks,
`Accepts` what the whole body checks; later modules use these two and never look
at the code again.
-/

namespace Macbeth

open Outcome List Outcome

section
variable (btc : BitcoinLib) (frost : FrostLib) (checks : Bool)
variable (data : PeginData) (commitment : Header × BitVec 32) (aggregatePk : PublicKey)

/-! ## The first half -/

/-- The checks `validate` makes on a proof before it reads the referenced output. -/
structure PeginMeta.Included (proof : PeginMeta) : Prop where
  version : proof.version = peginMetaVersionV0 ∨ proof.version = peginMetaVersionV1
  committed : ∃ h ∈ proof.inner.blockHeaders, btc.blockHash h = btc.blockHash commitment.1
  inclusion : ∃ first root txids idxs,
    btc.extractMatches proof.inner.merkleProof = .ok (root, txids, idxs) ∧
      proof.inner.outpoint.txid ∈ txids ∧
      proof.inner.blockHeaders[0]? = some first ∧ first.merkleRoot = root
  txid : btc.computeTxid proof.inner.tx = proof.inner.outpoint.txid
  /-- The comparison of the source, which lets the index equal the length. -/
  vout_le : proof.inner.outpoint.vout.toNat ≤ proof.inner.tx.output.length

variable {btc frost checks data commitment aggregatePk}

theorem gatewayScript_eq_some {vk : VerifyingKey} {tpk : PublicKey} {a : Address}
    (hvk : frost.deserialize aggregatePk.serialize = .ok vk)
    (htpk : generateTweakedPublicKey btc frost vk a = .ok tpk) :
    gatewayScript btc frost aggregatePk a = some (generateTaprootScriptpubkey tpk) := by
  simp only [gatewayScript, hvk, htpk]

variable {script : ScriptBuf}

theorem exists_of_gatewayScript {a : Address}
    (h : gatewayScript btc frost aggregatePk a = some script) :
    ∃ vk tpk, frost.deserialize aggregatePk.serialize = .ok vk ∧
      generateTweakedPublicKey btc frost vk a = .ok tpk ∧
      generateTaprootScriptpubkey tpk = script := by
  unfold gatewayScript at h
  split at h
  case h_1 => contradiction
  case h_2 vk hvk =>
    split at h
    case h_1 => contradiction
    case h_2 tpk htpk => exact ⟨vk, tpk, hvk, htpk, Option.some.inj h⟩

variable {proof : PeginMeta}

/-- The first half succeeds exactly on the proofs it is meant to, with the gateway
script of the account. -/
theorem PeginData.checkInclusion_eq_ok :
    data.checkInclusion btc frost commitment aggregatePk proof = ok script ↔
      proof.Included btc commitment ∧
        gatewayScript btc frost aggregatePk data.account = some script := by
  constructor
  · intro h
    simp only [checkInclusion, bind_eq_ok, ensure_eq_ok, ofExcept_eq_ok, index_eq_ok, pure_eq_ok,
      exists_const, ok.injEq] at h
    obtain ⟨hversion, hcommitted, ⟨root, txids, idxs⟩, hmatches, hmem, first, hfirst, hroot, htxid,
      hvout, vk, hvk, tpk, htpk, hscript⟩ := h
    refine ⟨⟨hversion, hcommitted, ⟨first, root, txids, idxs, hmatches, hmem, hfirst, hroot⟩, htxid,
      by omega⟩, ?_⟩
    rw [gatewayScript_eq_some hvk htpk, hscript]
  · rintro ⟨⟨hversion, hcommitted, ⟨first, root, txids, idxs, hmatches, hmem, hfirst, hroot⟩, htxid,
      hvout⟩, hscript⟩
    obtain ⟨vk, tpk, hvk, htpk, rfl⟩ := exists_of_gatewayScript hscript
    simp only [checkInclusion, bind_eq_ok, ensure_eq_ok, ofExcept_eq_ok, index_eq_ok, pure_eq_ok,
      exists_const, ok.injEq]
    exact ⟨hversion, hcommitted, (root, txids, idxs), hmatches, hmem, first, hfirst, hroot, htxid,
      by omega, vk, hvk, tpk, htpk, rfl⟩

/-- The first half never panics: its only index is the first header, and a proof
without headers has been refused before. -/
theorem PeginData.checkInclusion_ne_panic :
    data.checkInclusion btc frost commitment aggregatePk proof ≠ panic := by
  refine bind_ne_panic ensure_ne_panic fun _ _ => bind_ne_panic ensure_ne_panic fun _ hc => ?_
  refine bind_ne_panic ofExcept_ne_panic fun r _ => bind_ne_panic ensure_ne_panic fun _ _ => ?_
  have hne : (index proof.inner.blockHeaders 0 : Outcome PeginDataError Header) ≠ panic := by
    obtain ⟨h, hmem, -⟩ := ensure_eq_ok.mp hc
    have := length_pos_of_mem hmem
    rw [Ne, index_eq_panic]
    omega
  refine bind_ne_panic hne fun _ _ => bind_ne_panic ensure_ne_panic fun _ _ => ?_
  refine bind_ne_panic ensure_ne_panic fun _ _ => bind_ne_panic ensure_ne_panic fun _ _ => ?_
  refine bind_ne_panic ofExcept_ne_panic fun _ _ => bind_ne_panic ofExcept_ne_panic fun _ _ => ?_
  simp

/-! ## The position of the commitment -/

/-- The source's `diff`: how far the first header lies below the last header with
the commitment's hash. -/
def peginDepth (btc : BitcoinLib) (commitHash : BlockHash) (headers : List Header) : Nat :=
  (headersToCommitment btc commitHash headers).length - 1

/-- A header list with the commitment in it splits at the last occurrence, and
the depth is the number of headers below. -/
theorem exists_split_at_commitment {commitHash : BlockHash} {headers : List Header}
    (h : ∃ x ∈ headers, btc.blockHash x = commitHash) :
    ∃ below c above, headers = below ++ c :: above ∧ btc.blockHash c = commitHash ∧
      (headersToCommitment btc commitHash headers).length = below.length + 1 ∧
      peginDepth btc commitHash headers = below.length := by
  set p : Header → Bool := fun x => btc.blockHash x ≠ commitHash with hp
  have hlen : (headersToCommitment btc commitHash headers).length =
      (headers.rdropWhile p).length := by
    simp [headersToCommitment, rdropWhile, hp]
  have hne : headers.rdropWhile p ≠ [] := by
    obtain ⟨x, hx, hhash⟩ := h
    rw [Ne, rdropWhile_eq_nil_iff]
    intro hall
    have := hall x hx
    simp [hp, hhash] at this
  have hlast := rdropWhile_last_not p headers hne
  obtain ⟨above, habove⟩ := rdropWhile_prefix p (l := headers)
  have hsplit := dropLast_append_getLast hne
  refine ⟨(headers.rdropWhile p).dropLast, (headers.rdropWhile p).getLast hne, above, ?_, ?_, ?_, ?_⟩
  · conv_lhs => rw [← habove, ← hsplit, append_assoc, singleton_append]
  · simpa [hp] using hlast
  · have := length_pos_of_ne_nil hne
    rw [hlen, length_dropLast]
    omega
  · rw [peginDepth, hlen, length_dropLast]

/-! ## The second half -/

variable (btc frost checks data commitment aggregatePk) in
/-- Everything `validate` checks of a proof with this referenced output. -/
structure PeginData.Accepts (proof : PeginMeta) (output : TxOut) : Prop
    extends proof.Included btc commitment where
  output_eq : proof.inner.tx.output[proof.inner.outpoint.vout.toNat]? = some output
  script : gatewayScript btc frost aggregatePk data.account = some output.scriptPubkey
  linked : HeadersLinked btc proof.inner.blockHeaders
  /-- With overflow checks the subtraction did not go below zero. -/
  depth_le : checks = true →
    (peginDepth btc (btc.blockHash commitment.1) proof.inner.blockHeaders) % 2 ^ 32 ≤
      commitment.2.toNat
  height : commitment.2 -
      BitVec.ofNat 32 (peginDepth btc (btc.blockHash commitment.1) proof.inner.blockHeaders) =
    data.bitcoinBlockHeight
  mature : ¬ (proof.inner.tx.isCoinbase = true ∧
    BitVec.ofNat 32 (peginDepth btc (btc.blockHash commitment.1) proof.inner.blockHeaders) <
      coinbaseMaturity)

/-- The count of the source is never zero on an included proof. -/
theorem PeginMeta.Included.subCount (h : proof.Included btc commitment) :
    (subCount checks (headersToCommitment btc (btc.blockHash commitment.1)
      proof.inner.blockHeaders).length 1 : Outcome PeginDataError Nat) =
    ok (peginDepth btc (btc.blockHash commitment.1) proof.inner.blockHeaders) := by
  obtain ⟨below, c, above, -, -, hlen, -⟩ := exists_split_at_commitment h.committed
  exact subCount_of_le (by omega)

variable {v : U256}

theorem PeginData.checkOutput_eq_ok {acc : U256} (hinc : proof.Included btc commitment)
    (hscript : gatewayScript btc frost aggregatePk data.account = some script) :
    data.checkOutput btc checks commitment script acc proof.inner = ok v ↔
      ∃ output, data.Accepts btc frost checks commitment aggregatePk proof output ∧
        (add acc (toWei output.value) : Outcome PeginDataError _) = ok v := by
  simp only [checkOutput, bind_eq_ok, index_eq_ok, ensure_eq_ok, exists_const, hinc.subCount,
    ok.injEq, pure_eq_ok]
  constructor
  · rintro ⟨output, hout, rfl, v', hadd, hlinked, diff, rfl, height, hsub, hheight, hmature, rfl⟩
    refine ⟨output, ⟨hinc, hout, hscript, hlinked, ?_, ?_, hmature⟩, hadd⟩
    · intro hchecks
      by_contra hlt
      rw [sub_eq_panic.mpr ⟨hchecks, by rw [BitVec.toNat_ofNat]; omega⟩] at hsub
      contradiction
    · rw [← hheight, sub_eq_ok hsub]
  · rintro ⟨output, hacc, hadd⟩
    refine ⟨output, hacc.output_eq, ?_, v, hadd, hacc.linked, _, rfl, _, ?_, hacc.height,
      hacc.mature, rfl⟩
    · exact Option.some.inj (hscript.symm.trans hacc.script)
    · refine if_neg fun hlt => ?_
      have := hacc.depth_le hlt.1
      rw [BitVec.toNat_ofNat] at hlt
      omega

/-- The loop body accepts exactly the proofs of `Accepts`, as long as the sum
fits a word. -/
theorem PeginData.validateMeta_eq_ok {acc : U256} :
    data.validateMeta btc frost checks commitment aggregatePk acc proof = ok v ↔
      ∃ output, data.Accepts btc frost checks commitment aggregatePk proof output ∧
        (add acc (toWei output.value) : Outcome PeginDataError _) = ok v := by
  rw [validateMeta, bind_eq_ok]
  constructor
  · rintro ⟨script, hinc, hout⟩
    obtain ⟨hinc, hscript⟩ := checkInclusion_eq_ok.mp hinc
    exact (checkOutput_eq_ok hinc hscript).mp hout
  · rintro ⟨output, hacc, hadd⟩
    refine ⟨output.scriptPubkey, checkInclusion_eq_ok.mpr ⟨hacc.toIncluded, hacc.script⟩, ?_⟩
    exact (checkOutput_eq_ok hacc.toIncluded hacc.script).mpr ⟨output, hacc, hadd⟩

/-! ## The whole loop -/

/-- The output a proof refers to. -/
def PeginMeta.output? (proof : PeginMeta) : Option TxOut :=
  proof.inner.tx.output[proof.inner.outpoint.vout.toNat]?

/-- The satoshis of the output a proof refers to. -/
def PeginMeta.sats (proof : PeginMeta) : Nat :=
  (proof.output?.map fun output => output.value.toNat).getD 0

theorem PeginData.Accepts.sats_eq {output : TxOut}
    (h : data.Accepts btc frost checks commitment aggregatePk proof output) :
    proof.sats = output.value.toNat := by
  simp [PeginMeta.sats, PeginMeta.output?, h.output_eq]

/-- The loop over any list of proofs: when it succeeds every proof is accepted, and the
result is the sum of the proven outputs, exactly. -/
theorem PeginData.accepts_of_foldlM {metas : List PeginMeta}
    (h : metas.foldlM (data.validateMeta btc frost checks commitment aggregatePk) 0 = ok v) :
    (∀ proof ∈ metas, ∃ output,
      data.Accepts btc frost checks commitment aggregatePk proof output) ∧
    v.toNat = (metas.map fun proof => proof.sats * satoshiInWei).sum := by
  -- invariant of the loop: all proofs so far are accepted and summed up
  let Inv : List PeginMeta → U256 → Prop := fun done acc =>
    (∀ proof ∈ done, ∃ output, data.Accepts btc frost checks commitment aggregatePk proof output) ∧
      acc.toNat = (done.map fun proof => proof.sats * satoshiInWei).sum
  have hstep : ∀ done proof acc acc', Inv done acc →
      data.validateMeta btc frost checks commitment aggregatePk acc proof = ok acc' →
      Inv (done ++ [proof]) acc' := by
    rintro done proof acc acc' ⟨hall, hsum⟩ hmeta
    obtain ⟨output, hacc, hadd⟩ := validateMeta_eq_ok.mp hmeta
    constructor
    · intro q hq
      rcases mem_append.mp hq with hq | hq
      · exact hall q hq
      · obtain rfl : q = proof := by simpa using hq
        exact ⟨output, hacc⟩
    · rw [add_eq_ok hadd, hsum, toNat_toWei, ← hacc.sats_eq, map_append, sum_append]
      simp
  have hInv := foldlM_ok_induction Inv hstep [] metas 0 v ⟨by simp, by simp⟩ h
  rwa [nil_append] at hInv

theorem PeginData.accepts_of_validate
    (h : data.validate btc frost checks commitment aggregatePk = ok v) :
    (∀ proof ∈ data.metas, ∃ output,
      data.Accepts btc frost checks commitment aggregatePk proof output) ∧
    v.toNat = (data.metas.map fun proof => proof.sats * satoshiInWei).sum :=
  accepts_of_foldlM h

/-- Conversely a list of accepted proofs goes through as long as the sum fits a word. -/
theorem PeginData.foldlM_of_accepts : ∀ (metas : List PeginMeta) (acc : U256),
    (∀ proof ∈ metas, ∃ output,
      data.Accepts btc frost checks commitment aggregatePk proof output) →
    acc.toNat + (metas.map fun proof => proof.sats * satoshiInWei).sum < 2 ^ 256 →
    ∃ v, metas.foldlM (data.validateMeta btc frost checks commitment aggregatePk) acc = ok v
  | [], acc, _, _ => ⟨acc, rfl⟩
  | proof :: metas, acc, hall, hsum => by
    obtain ⟨output, hacc⟩ := hall proof (by simp)
    rw [map_cons, sum_cons] at hsum
    have hwei : (toWei output.value).toNat = proof.sats * satoshiInWei := by
      rw [toNat_toWei, hacc.sats_eq]
    have hadd : (add acc (toWei output.value) : Outcome PeginDataError _) =
        ok (acc + toWei output.value) := add_of_lt (by omega)
    have hmeta := validateMeta_eq_ok.mpr ⟨output, hacc, hadd⟩
    obtain ⟨v, hv⟩ := foldlM_of_accepts metas (acc + toWei output.value)
      (fun q hq => hall q (by simp [hq])) (by rw [add_eq_ok hadd]; omega)
    exact ⟨v, by rw [foldlM_cons, hmeta]; exact hv⟩

end

/-! ## A concrete instance

Two blocks of one transaction each, on which the definitions evaluate.  The hashes are
the double SHA-256 of these headers and transactions, tabulated; a merkle tree over one
transaction is its single leaf; tweaking a key replaces it by the address. -/

/-- A transaction that pays five satoshis to the gateway script of account 9. -/
def sampleTx : Transaction := ⟨2, 0, [⟨⟨1, 0⟩, [], 0xFFFFFFFF, []⟩], [⟨5, p2tr 9⟩]⟩

def sampleTxid : Txid := 0x6876e72fcef00116e51577b73a9c2c0ac18cf620de78e842486bcbb8c557f790

def otherTx : Transaction := ⟨2, 0, [⟨⟨2, 0⟩, [], 0xFFFFFFFF, []⟩], [⟨6, p2tr 8⟩]⟩

def otherTxid : Txid := 0x5d0b806cf96b5913e9439c933ffa688539845ed2a9a7a8cf9b169de3f75c7d7

def sampleGenesisHash : BlockHash :=
  0xdcacb4a59bf842b10c75519eece53a07a5505e58503d1d84b7d67dedb51fab19

def sampleBlockHash : BlockHash :=
  0xa31f140448a7403bd9982e06794195035ffe4cd746d39bda26cd0fae7bcfee61

def sampleGenesis : Block := ⟨⟨1, 0, sampleTxid, 0, 0, 0⟩, [sampleTx]⟩

def sampleBlock : Block := ⟨⟨1, sampleGenesisHash, otherTxid, 0, 0, 0⟩, [otherTx]⟩

def sampleBitcoin : BitcoinLib where
  blockHash h :=
    if h = sampleGenesis.header then sampleGenesisHash
    else if h = sampleBlock.header then sampleBlockHash
    else 1
  computeTxid tx := if tx.stripped = sampleTx then sampleTxid else otherTxid
  extractMatches tree := match tree.hashes with
    | [leaf] => .ok (leaf, [leaf], [0])
    | _ => .error .noTransactions
  isOnCurve _ := true

def sampleFrost : FrostLib where
  deserialize _ := .ok (.point ⟨false, 1⟩)
  tweak vk params := match params.additionalTweak with
    | some address => .point ⟨false, BitVec.ofNat 256 (Bytes.ofBE address)⟩
    | none => vk

/-- A proof of the first transaction below the second block. -/
def sampleProof : PeginMetaV0 where
  version := 0
  merkleProof := ⟨1, [true], [sampleTxid]⟩
  outpoint := ⟨sampleTxid, 0⟩
  address := 9
  aggregatePublickey := ⟨false, 1⟩
  blockHeaders := [sampleGenesis.header, sampleBlock.header]
  tx := sampleTx

def samplePegin : PeginData where
  account := 9
  amount := 0
  bitcoinBlockHeight := 0
  metas := [.v0 sampleProof]

end Macbeth
