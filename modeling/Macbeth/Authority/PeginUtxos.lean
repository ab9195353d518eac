import Macbeth.BtcServer.Utxo
import Macbeth.Peg.Validate

/-!
# Wallet records of accepted pegins (`consensus/authority/src/utils.rs`)

After a block is committed the node hands its pegins to btc-server as `Utxo` records,
either directly or by way of the staged headers in its database.  Both paths take the
EVM address of a record from the proof (`PeginMeta::address`), while validation tweaks by
the account of the event; the proof's address is not looked at by any check.  A record is
spendable exactly when the two are the same.
-/

namespace Macbeth

open Bytes Outcome

/-! ## The two paths -/

/-- `utxo_from_pegin_meta`: `expect("valid vout")` is a panic. -/
def utxoFromPeginMeta (proof : PeginMeta) : Outcome Empty RpcUtxo := do
  let txOut ← index proof.tx.output proof.outpoint.vout.toNat
  return {
    outpoint := some ⟨serializeTxid proof.outpoint.txid, proof.outpoint.vout⟩
    output := some ⟨some (serializeScript txOut.scriptPubkey), txOut.value⟩
    ethAddress := toHex (Address.toBytes proof.address) }

/-- `get_utxos_from_pegin_meta`. -/
def getUtxosFromPeginMeta (proofs : List PeginMeta) : Outcome Empty (List RpcUtxo) :=
  proofs.mapM utxoFromPeginMeta

/-- `models::PeginData`: a pegin of a staged header. -/
structure StagedPegin where
  txid : List UInt8
  vout : BitVec 64
  value : BitVec 64
  scriptPubkey : List UInt8
  ethAddress : List UInt8
  deriving DecidableEq, Repr

/-- One record of `get_staged_pegins_from_pegin_meta`; `txout` panics out of range. -/
def stagedPeginFromPeginMeta (proof : PeginMeta) : Outcome Empty StagedPegin := do
  let txOut ← index proof.tx.output proof.outpoint.vout.toNat
  return {
    txid := serializeTxid proof.outpoint.txid
    vout := proof.outpoint.vout.setWidth 64
    value := txOut.value
    scriptPubkey := serializeScript txOut.scriptPubkey
    ethAddress := Address.toBytes proof.address }

def getStagedPeginsFromPeginMeta (proofs : List PeginMeta) : Outcome Empty (List StagedPegin) :=
  proofs.mapM stagedPeginFromPeginMeta

/-- One record of `get_utxos_from_staged_pegins`. -/
def utxoFromStagedPegin (pegin : StagedPegin) : RpcUtxo where
  outpoint := some ⟨pegin.txid, pegin.vout.setWidth 32⟩
  output := some ⟨some pegin.scriptPubkey, pegin.value⟩
  ethAddress := toHex pegin.ethAddress

def getUtxosFromStagedPegins (pegins : List StagedPegin) : List RpcUtxo :=
  pegins.map utxoFromStagedPegin

/-- The staged path as a whole. -/
def getUtxosThroughStaging (proofs : List PeginMeta) : Outcome Empty (List RpcUtxo) := do
  let staged ← getStagedPeginsFromPeginMeta proofs
  return getUtxosFromStagedPegins staged

/-! ## Both paths build the same records -/

/-- The record of a proof with the given output. -/
def peginRecord (proof : PeginMeta) (output : TxOut) : RpcUtxo where
  outpoint := some ⟨serializeTxid proof.outpoint.txid, proof.outpoint.vout⟩
  output := some ⟨some (serializeScript output.scriptPubkey), output.value⟩
  ethAddress := toHex (Address.toBytes proof.address)

theorem utxoFromPeginMeta_eq_ok {proof : PeginMeta} {output : TxOut}
    (h : proof.output? = some output) : utxoFromPeginMeta proof = ok (peginRecord proof output) := by
  have hindex : (index proof.tx.output proof.outpoint.vout.toNat : Outcome Empty TxOut) =
      ok output := index_eq_ok.mpr h
  rw [utxoFromPeginMeta, hindex]
  rfl

theorem stagedPeginFromPeginMeta_eq_ok {proof : PeginMeta} {output : TxOut}
    (h : proof.output? = some output) :
    ∃ staged, stagedPeginFromPeginMeta proof = ok staged ∧
      utxoFromStagedPegin staged = peginRecord proof output := by
  have hindex : (index proof.tx.output proof.outpoint.vout.toNat : Outcome Empty TxOut) =
      ok output := index_eq_ok.mpr h
  refine ⟨_, by rw [stagedPeginFromPeginMeta, hindex]; rfl, ?_⟩
  simp [utxoFromStagedPegin, peginRecord, BitVec.setWidth_setWidth_of_le]

/-- On proofs whose outputs exist the direct path returns one record each. -/
theorem getUtxosFromPeginMeta_eq_ok : ∀ {proofs : List PeginMeta},
    (∀ proof ∈ proofs, ∃ output, proof.output? = some output) →
    ∃ records, getUtxosFromPeginMeta proofs = ok records ∧
      ∀ r, r ∈ records ↔ ∃ proof ∈ proofs, ∃ output,
        proof.output? = some output ∧ r = peginRecord proof output
  | [], _ => ⟨[], rfl, by simp⟩
  | proof :: proofs, h => by
    obtain ⟨output, hout⟩ := h proof (by simp)
    obtain ⟨records, hrec, hmem⟩ := getUtxosFromPeginMeta_eq_ok fun p hp =>
      h p (List.mem_cons_of_mem proof hp)
    refine ⟨peginRecord proof output :: records, ?_, fun r => ?_⟩
    · rw [getUtxosFromPeginMeta] at hrec ⊢
      rw [List.mapM_cons, utxoFromPeginMeta_eq_ok hout, ok_bind, hrec]
      rfl
    · simp [hmem, hout]

/-- The staged path returns the same records. -/
theorem getUtxosThroughStaging_eq : ∀ {proofs : List PeginMeta},
    (∀ proof ∈ proofs, ∃ output, proof.output? = some output) →
    getUtxosThroughStaging proofs = getUtxosFromPeginMeta proofs
  | [], _ => rfl
  | proof :: proofs, h => by
    obtain ⟨output, hout⟩ := h proof (by simp)
    obtain ⟨staged, hstaged, heq⟩ := stagedPeginFromPeginMeta_eq_ok hout
    have ih := getUtxosThroughStaging_eq fun p hp => h p (List.mem_cons_of_mem proof hp)
    simp only [getUtxosThroughStaging, getStagedPeginsFromPeginMeta, getUtxosFromPeginMeta,
      List.mapM_cons, hstaged, utxoFromPeginMeta_eq_ok hout, ok_bind] at ih ⊢
    rw [← ih, bind_assoc, bind_assoc]
    simp [getUtxosFromStagedPegins, heq]

/-! ## Spendability -/

section
variable {btc : BitcoinLib} {frost : FrostLib} {checks : Bool}
variable {data : PeginData} {commitment : Header × BitVec 32} {aggregatePk : PublicKey}
variable (btc frost aggregatePk) in
/-- btc-server takes the record, with an address, and a key-spend signature with that
address as the tweak is valid for the record's script. -/
def RecordSpendable (r : RpcUtxo) : Prop :=
  ∃ utxo address, Utxo.tryFrom r = .ok utxo ∧ utxo.ethAddress = some address ∧
    Spendable btc frost aggregatePk address utxo.output.scriptPubkey

variable {proof : PeginMeta} {output : TxOut}

/-- btc-server stores a p2tr record as it is: the outpoint and the output of the proof,
and the proof's address. -/
theorem tryFrom_peginRecord (h : isP2tr output.scriptPubkey = true) :
    Utxo.tryFrom (peginRecord proof output) =
      .ok ⟨proof.outpoint, output, some proof.address, UtxoVersion.v1.toU32⟩ := by
  have hne : (toHex (Address.toBytes proof.address)).isEmpty = false := by
    rw [List.isEmpty_eq_false_iff, ← List.length_pos_iff_ne_nil]
    simp
  simp [Utxo.tryFrom, peginRecord, deserializeTxid_serializeTxid, hne, parseEthAddress_toHex,
    parseP2trScriptWithFallback_serializeScript h]

theorem recordSpendable_peginRecord (h : isP2tr output.scriptPubkey = true) :
    RecordSpendable btc frost aggregatePk (peginRecord proof output) ↔
      Spendable btc frost aggregatePk proof.address output.scriptPubkey := by
  constructor
  · rintro ⟨utxo, address, hutxo, haddress, hspend⟩
    rw [tryFrom_peginRecord h] at hutxo
    obtain rfl := Except.ok.inj hutxo
    obtain rfl : proof.address = address := Option.some.inj haddress
    exact hspend
  · intro hspend
    exact ⟨_, proof.address, tryFrom_peginRecord h, rfl, hspend⟩

/-- The record of an accepted proof is spendable exactly when the proof carries the
event's account. -/
theorem PeginData.Accepts.recordSpendable_iff
    (h : data.Accepts btc frost checks commitment aggregatePk proof output)
    (hfree : TweakCollisionFree btc frost aggregatePk) :
    RecordSpendable btc frost aggregatePk (peginRecord proof output) ↔
      proof.address = data.account := by
  rw [recordSpendable_peginRecord (isP2tr_of_gatewayScript btc frost h.script)]
  constructor
  · intro hspend
    exact hfree _ _ _ hspend h.script
  · intro haddress
    rw [Spendable, haddress]
    exact h.script

/-- For every accepted pegin, with collision-free tweaks: both paths hand btc-server
records that are all spendable exactly when every proof carries the account of the event
as its address. -/
theorem pegin_records_spendable_iff {v : U256} (hfree : TweakCollisionFree btc frost aggregatePk)
    (hok : data.validate btc frost checks commitment aggregatePk = ok v) :
    ((∃ records, getUtxosFromPeginMeta data.metas = ok records ∧
        ∀ r ∈ records, RecordSpendable btc frost aggregatePk r) ∧
      ∃ records, getUtxosThroughStaging data.metas = ok records ∧
        ∀ r ∈ records, RecordSpendable btc frost aggregatePk r) ↔
    ∀ proof ∈ data.metas, proof.address = data.account := by
  obtain ⟨hall, -⟩ := PeginData.accepts_of_validate hok
  have houts : ∀ proof ∈ data.metas, ∃ output, proof.output? = some output := by
    intro proof hproof
    obtain ⟨output, hacc⟩ := hall proof hproof
    exact ⟨output, hacc.output_eq⟩
  obtain ⟨records, hrecords, hmem⟩ := getUtxosFromPeginMeta_eq_ok houts
  rw [getUtxosThroughStaging_eq houts, and_self]
  constructor
  · rintro ⟨records', hrecords', hspend⟩ proof hproof
    obtain rfl : records = records' := by
      rw [hrecords] at hrecords'
      exact Outcome.ok.inj hrecords'
    obtain ⟨output, hacc⟩ := hall proof hproof
    refine (hacc.recordSpendable_iff hfree).mp (hspend _ ((hmem _).mpr ?_))
    exact ⟨proof, hproof, output, hacc.output_eq, rfl⟩
  · intro haddress
    refine ⟨records, hrecords, fun r hr => ?_⟩
    obtain ⟨proof, hproof, output, hout, rfl⟩ := (hmem r).mp hr
    obtain ⟨output', hacc⟩ := hall proof hproof
    obtain rfl : output = output' := Option.some.inj (hout.symm.trans hacc.output_eq)
    exact (hacc.recordSpendable_iff hfree).mpr (haddress proof hproof)

end

/-! ## A record nobody can spend -/

theorem gatewayScript_sample (pk : PublicKey) (a : Address) :
    gatewayScript sampleBitcoin sampleFrost pk a = some (p2tr (a.setWidth 256)) := by
  have hbytes : BitVec.ofNat 256 (ofBE (Address.toBytes a)) = a.setWidth 256 := by
    rw [Address.toBytes, ofBE_toBE (by rw [pow_256]; exact a.isLt), BitVec.ofNat_toNat]
  have htweak : generateTweakedPublicKey sampleBitcoin sampleFrost (.point ⟨false, 1⟩) a =
      .ok ⟨false, a.setWidth 256⟩ := by
    rw [← hbytes]
    simp only [generateTweakedPublicKey, sampleFrost, VerifyingKey.toSecpPk, VerifyingKey.serialize]
    rw [sampleBitcoin.publicKeyFromSlice_serialize rfl]
  rw [gatewayScript]
  simp only [show sampleFrost.deserialize pk.serialize = .ok (.point ⟨false, 1⟩) from rfl, htweak,
    generateTaprootScriptpubkey]

/-- The concrete tweak is collision free. -/
theorem tweakCollisionFree_sample (pk : PublicKey) :
    TweakCollisionFree sampleBitcoin sampleFrost pk := by
  intro a b script ha hb
  rw [gatewayScript_sample] at ha hb
  have heq : a.setWidth 256 = b.setWidth 256 := p2tr_inj (Option.some.inj (ha.trans hb.symm))
  apply BitVec.eq_of_toNat_eq
  have := congrArg BitVec.toNat heq
  rw [BitVec.toNat_setWidth, BitVec.toNat_setWidth] at this
  omega

/-- The concrete pegin with another address in its proof. -/
def strayProof : PeginMeta := .v0 { sampleProof with address := 8 }

def strayPegin : PeginData := { samplePegin with metas := [strayProof] }

/-- It is accepted, and its record is not spendable on either path. -/
theorem strayPegin_not_spendable :
    strayPegin.validate sampleBitcoin sampleFrost true (sampleBlock.header, 1) ⟨false, 1⟩ =
        ok 50000000000 ∧
      TweakCollisionFree sampleBitcoin sampleFrost ⟨false, 1⟩ ∧
      getUtxosFromPeginMeta strayPegin.metas = ok [peginRecord strayProof ⟨5, p2tr 9⟩] ∧
      getUtxosThroughStaging strayPegin.metas = ok [peginRecord strayProof ⟨5, p2tr 9⟩] ∧
      ¬ RecordSpendable sampleBitcoin sampleFrost ⟨false, 1⟩
        (peginRecord strayProof ⟨5, p2tr 9⟩) := by
  refine ⟨by decide, tweakCollisionFree_sample _, by decide, by decide, ?_⟩
  rw [recordSpendable_peginRecord (isP2tr_p2tr 9)]
  decide

/-- The concrete pegin itself carries the account, and its records are spendable. -/
theorem samplePegin_spendable :
    (∃ records, getUtxosFromPeginMeta samplePegin.metas = ok records ∧
        ∀ r ∈ records, RecordSpendable sampleBitcoin sampleFrost ⟨false, 1⟩ r) ∧
      ∃ records, getUtxosThroughStaging samplePegin.metas = ok records ∧
        ∀ r ∈ records, RecordSpendable sampleBitcoin sampleFrost ⟨false, 1⟩ r := by
  have hok : samplePegin.validate sampleBitcoin sampleFrost true (sampleBlock.header, 1)
      ⟨false, 1⟩ = ok 50000000000 := by decide
  exact (pegin_records_spendable_iff (tweakCollisionFree_sample _) hok).mpr (by decide)

end Macbeth
