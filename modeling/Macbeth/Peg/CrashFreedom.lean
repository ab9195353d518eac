import Macbeth.Peg.Minting

/-!
# Crash freedom of mint validation

The metadata of a mint event is chosen by whoever sends the transaction, and every node
runs `try_parse_mint_event` and `PeginData::validate` on it, so a panic there stops the
chain.  Parsing never panics, nor does the sum of the proven outputs; what can panic is
reading the referenced output, because the index is only checked to be at most the
number of outputs, and (with overflow checks) subtracting the number of headers from the
commitment's height.  `mintEvent_ne_panic_iff` is the exact condition.
-/

namespace Macbeth

open Outcome

section
variable {btc : BitcoinLib} {frost : FrostLib} {checks : Bool}
variable {data : PeginData} {commitment : Header × BitVec 32} {aggregatePk : PublicKey}

/-! ## Parsing -/

/-- Parsing an event of the contract does not panic: its height is a `uint32`. -/
theorem tryParseMintEvent_ne_panic (account : Address) (amount : U256) (height : BitVec 32)
    (metadata : List UInt8) :
    tryParseMintEvent btc (mintEvent account amount height metadata) ≠ panic := by
  rw [tryParseMintEvent_mintEvent]
  exact bind_ne_panic ofOption_ne_panic fun _ _ =>
    bind_ne_panic (parseProofs_ne_panic btc le_rfl) fun _ _ => by simp

/-! ## Where validation can panic -/

/-- The second half panics on an index out of range, on a sum that does not fit, and on a
header list that is longer than the commitment is high. -/
theorem PeginData.checkOutput_eq_panic {proof : PeginMeta} {script : ScriptBuf} {acc : U256}
    (hinc : proof.Included btc commitment) :
    data.checkOutput btc checks commitment script acc proof.inner = panic ↔
      proof.inner.tx.output.length ≤ proof.inner.outpoint.vout.toNat ∨
      ∃ output, proof.output? = some output ∧ script = output.scriptPubkey ∧
        (2 ^ 256 ≤ acc.toNat + (toWei output.value).toNat ∨
          acc.toNat + (toWei output.value).toNat < 2 ^ 256 ∧
          HeadersLinked btc proof.inner.blockHeaders ∧ checks = true ∧
          commitment.2 < BitVec.ofNat 32
            (peginDepth btc (btc.blockHash commitment.1) proof.inner.blockHeaders)) := by
  simp only [checkOutput, bind_eq_panic, index_eq_panic, index_eq_ok, ensure_eq_ok,
    ensure_ne_panic, false_or, exists_const, hinc.subCount, Outcome.ok.injEq, exists_eq_left',
    add_eq_panic, sub_eq_panic, reduceCtorEq, pure_eq_ok, and_false, or_false,
    BitVec.lt_def, PeginMeta.output?]
  refine or_congr Iff.rfl (exists_congr fun output => and_congr_right fun _ =>
    and_congr_right fun _ => or_congr Iff.rfl ?_)
  constructor
  · rintro ⟨v, hadd, hrest⟩
    exact ⟨lt_of_add_eq_ok hadd, hrest⟩
  · rintro ⟨hfit, hrest⟩
    exact ⟨_, add_of_lt hfit, hrest⟩

/-! ## The sum -/

theorem PeginMeta.sats_lt (proof : PeginMeta) : proof.sats < 2 ^ 64 := by
  unfold sats
  cases proof.output? with
  | none => simp
  | some output => exact output.value.isLt

/-- Each proof adds less than `2 ^ 98` wei. -/
theorem sum_sats_le : ∀ metas : List PeginMeta,
    (metas.map fun proof => proof.sats * satoshiInWei).sum ≤ metas.length * 2 ^ 98
  | [] => by simp
  | proof :: metas => by
    have hproof := proof.sats_lt
    have ih := sum_sats_le metas
    have hone : proof.sats * satoshiInWei ≤ 2 ^ 98 := by unfold satoshiInWei; omega
    rw [List.map_cons, List.sum_cons, List.length_cons, Nat.succ_mul]
    omega

/-! ## The exact condition -/

variable (btc frost checks data commitment aggregatePk) in
/-- Validation gets as far as the output of this proof: the ones before it are accepted,
and it passes the inclusion checks. -/
structure PeginData.Reaches (done : List PeginMeta) (proof : PeginMeta) : Prop where
  accepted : ∀ p ∈ done, ∃ output, data.Accepts btc frost checks commitment aggregatePk p output
  included : proof.Included btc commitment
  key : (gatewayScript btc frost aggregatePk data.account).isSome

variable (btc frost checks data commitment aggregatePk) in
/-- The two comparisons the source does not make: the index is not the number of outputs,
and the proof of a paid output does not go further down than the commitment is high. -/
structure PeginData.ProofGuarded (proof : PeginMeta) : Prop where
  vout_ne : proof.outpoint.vout.toNat ≠ proof.tx.output.length
  depth_le : ∀ output, proof.output? = some output →
    gatewayScript btc frost aggregatePk data.account = some output.scriptPubkey →
    HeadersLinked btc proof.inner.blockHeaders → checks = true →
    BitVec.ofNat 32 (peginDepth btc (btc.blockHash commitment.1) proof.inner.blockHeaders) ≤
      commitment.2

/-- One proof that is reached panics exactly when a comparison is missing for it, as long
as the sum stays small. -/
theorem PeginData.validateMeta_eq_panic {proof : PeginMeta} {acc : U256}
    (hacc : acc.toNat < 2 ^ 255) :
    data.validateMeta btc frost checks commitment aggregatePk acc proof = panic ↔
      proof.Included btc commitment ∧ (gatewayScript btc frost aggregatePk data.account).isSome ∧
        ¬ data.ProofGuarded btc frost checks commitment aggregatePk proof := by
  have hfit : ∀ output : TxOut, acc.toNat + (toWei output.value).toNat < 2 ^ 256 := by
    intro output
    have := output.value.isLt
    rw [toNat_toWei, satoshiInWei]
    omega
  simp only [validateMeta, bind_eq_panic, checkInclusion_ne_panic, false_or, checkInclusion_eq_ok]
  constructor
  · rintro ⟨script, ⟨hinc, hscript⟩, hpanic⟩
    refine ⟨hinc, by simp [hscript], fun hguard => ?_⟩
    rcases (checkOutput_eq_panic hinc).mp hpanic with hvout | ⟨output, hout, rfl, hrest⟩
    · exact hguard.vout_ne (le_antisymm hinc.vout_le hvout)
    · rcases hrest with hsum | ⟨-, hlinked, hchecks, hlt⟩
      · exact absurd (hfit output) (Nat.not_lt.mpr hsum)
      · exact absurd (hguard.depth_le output hout hscript hlinked hchecks) (BitVec.not_le.mpr hlt)
  · rintro ⟨hinc, hkey, hguard⟩
    obtain ⟨script, hscript⟩ := Option.isSome_iff_exists.mp hkey
    refine ⟨script, ⟨hinc, hscript⟩, (checkOutput_eq_panic hinc).mpr ?_⟩
    by_contra hno
    rw [not_or, not_exists] at hno
    refine hguard ⟨fun heq => hno.1 heq.ge, fun output hout hs hlinked hchecks => ?_⟩
    by_contra hlt
    refine hno.2 output ⟨hout, ?_, .inr ⟨hfit output, hlinked, hchecks, BitVec.not_le.mp hlt⟩⟩
    exact Option.some.inj (hscript.symm.trans hs)

/-- Validation of a pegin with few proofs panics exactly at a proof that is reached and
not guarded. -/
theorem PeginData.validate_eq_panic_iff (hlen : data.metas.length < 2 ^ 30) :
    data.validate btc frost checks commitment aggregatePk = panic ↔
      ∃ done proof rest, data.metas = done ++ proof :: rest ∧
        data.Reaches btc frost checks commitment aggregatePk done proof ∧
        ¬ data.ProofGuarded btc frost checks commitment aggregatePk proof := by
  have hsmall : ∀ done proof rest, data.metas = done ++ proof :: rest →
      (done.map fun proof => proof.sats * satoshiInWei).sum < 2 ^ 255 := by
    intro done proof rest hsplit
    have hdone : done.length < 2 ^ 30 := by
      rw [hsplit, List.length_append] at hlen
      omega
    have hsum := sum_sats_le done
    omega
  rw [validate, foldlM_eq_panic_iff]
  constructor
  · rintro ⟨done, proof, rest, acc, hsplit, hdone, hpanic⟩
    obtain ⟨hall, hacc⟩ := accepts_of_foldlM hdone
    have hpanic := (validateMeta_eq_panic (hacc ▸ hsmall done proof rest hsplit)).mp hpanic
    exact ⟨done, proof, rest, hsplit, ⟨hall, hpanic.1, hpanic.2.1⟩, hpanic.2.2⟩
  · rintro ⟨done, proof, rest, hsplit, hreach, hguard⟩
    have hsum := hsmall done proof rest hsplit
    obtain ⟨acc, hdone⟩ := foldlM_of_accepts done 0 hreach.accepted (by simp; omega)
    have hacc := (accepts_of_foldlM hdone).2
    refine ⟨done, proof, rest, acc, hsplit, hdone, ?_⟩
    exact (validateMeta_eq_panic (hacc ▸ hsum)).mpr ⟨hreach.included, hreach.key, hguard⟩

/-- For every mint event of the contract: parsing it and validating what was parsed is
free of panics exactly when every proof that validation reaches has an output index below
the number of outputs and, in a build with overflow checks, no more headers below the
commitment than the commitment is high. -/
theorem mintEvent_ne_panic_iff (account : Address) (amount : U256) (height : BitVec 32)
    (metadata : List UInt8) :
    (tryParseMintEvent btc (mintEvent account amount height metadata) ≠ panic ∧
      ∀ data, tryParseMintEvent btc (mintEvent account amount height metadata) = ok (some data) →
        data.validate btc frost checks commitment aggregatePk ≠ panic) ↔
    ∀ data, tryParseMintEvent btc (mintEvent account amount height metadata) = ok (some data) →
      ∀ done proof rest, data.metas = done ++ proof :: rest →
        data.Reaches btc frost checks commitment aggregatePk done proof →
        data.ProofGuarded btc frost checks commitment aggregatePk proof := by
  rw [and_iff_right (tryParseMintEvent_ne_panic account amount height metadata)]
  refine forall_congr' fun data => forall_congr' fun hparse => ?_
  rw [Ne, PeginData.validate_eq_panic_iff (length_metas_lt btc hparse)]
  constructor
  · intro hno done proof rest hsplit hreach
    by_contra hguard
    exact hno ⟨done, proof, rest, hsplit, hreach, hguard⟩
  · rintro hall ⟨done, proof, rest, hsplit, hreach, hguard⟩
    exact hguard (hall done proof rest hsplit hreach)

end

/-! ## An event that crashes the node -/

/-- The pegin of the event with output index one. -/
def crashingPegin : PeginData :=
  { samplePegin with
    bitcoinBlockHeight := 1
    metas := [.v0 { sampleProof with
      outpoint := ⟨sampleTxid, 1⟩, merkleProof := ⟨1, bitsOfByte 1, [sampleTxid]⟩ }] }

/-- An output index equal to the number of outputs: the event parses, and validation
panics, whatever the build. -/
theorem sampleMetadata_panics :
    tryParseMintEvent sampleBitcoin (mintEvent 9 0 1 (sampleMetadata 1)) =
        ok (some crashingPegin) ∧
      crashingPegin.validate sampleBitcoin sampleFrost false (sampleBlock.header, 1) ⟨false, 1⟩ =
        panic := by
  decide +kernel

end Macbeth
