import Macbeth.Peg.Validate

/-!
# Soundness of pegin proofs

`validate` never sees the bitcoin chain: it sees one header, its height, and a
list of headers the user supplies.  Below a commitment that is a block of the
chain, those headers are nevertheless blocks of the chain, because each names the
hash of the one before it; headers above the commitment are not constrained and
are not used.  The source finds the commitment by searching the list backwards,
so the argument starts at its last occurrence and descends
(`HashChain.head?_eq_of_last`).

The cryptographic assumptions are explicit: no two different headers in sight have
the same hash, transactions with the same id agree in everything but their
witnesses, and a partial merkle tree whose root is that of a block of the chain
matches only transactions of that block.
-/

namespace Macbeth

open Outcome List BitVec

/-- A bitcoin chain from its first block; the position in the list is the height. -/
structure BitcoinChain (btc : BitcoinLib) where
  blocks : List Block
  linked : HashChain.Linked btc.blockHash Header.prevBlockhash (blocks.map Block.header)
  /-- Nothing comes before the first block. -/
  genesis : ∀ g, (blocks.map Block.header).head? = some g →
    ∀ h, btc.blockHash h ≠ g.prevBlockhash

section
variable {btc : BitcoinLib} {frost : FrostLib} {checks : Bool}
variable {data : PeginData} {commitment : Header × BitVec 32} {aggregatePk : PublicKey}

/-- The headers that occur in the chain or in the proofs of a pegin. -/
def headersInSight (chain : BitcoinChain btc) (data : PeginData) : Set Header :=
  {h | h ∈ chain.blocks.map Block.header ∨ ∃ proof ∈ data.metas, h ∈ proof.inner.blockHeaders}

/-- The transactions that occur in the chain or in the proofs of a pegin. -/
def transactionsInSight (chain : BitcoinChain btc) (data : PeginData) : Set Transaction :=
  {tx | (∃ block ∈ chain.blocks, tx ∈ block.txdata) ∨ ∃ proof ∈ data.metas, tx = proof.tx}

/-- Transaction ids do not collide: equal ids mean equal transactions, witnesses
apart. -/
def TxidsCollisionFree (btc : BitcoinLib) (txs : Set Transaction) : Prop :=
  ∀ tx ∈ txs, ∀ tx' ∈ txs, btc.computeTxid tx = btc.computeTxid tx' → tx.stripped = tx'.stripped

/-- `extract_matches` is sound for a block: a tree with the block's merkle root
matches only ids of its transactions. -/
def ExtractMatchesSound (btc : BitcoinLib) (block : Block) : Prop :=
  ∀ tree txids idxs, btc.extractMatches tree = .ok (block.header.merkleRoot, txids, idxs) →
    ∀ txid ∈ txids, txid ∈ block.txdata.map btc.computeTxid

/-- The first header of an accepted proof is the header of the chain's block at the
height the event names, at or below the commitment. -/
theorem PeginData.Accepts.first_header {proof : PeginMeta} {output : TxOut}
    (h : data.Accepts btc frost checks commitment aggregatePk proof output)
    (chain : BitcoinChain btc)
    (hcommit : (chain.blocks.map Block.header)[commitment.2.toNat]? = some commitment.1)
    (hfree : Set.InjOn btc.blockHash (headersInSight chain data)) (hmem : proof ∈ data.metas) :
    data.bitcoinBlockHeight.toNat ≤ commitment.2.toNat ∧
      proof.inner.blockHeaders[0]? =
        (chain.blocks.map Block.header)[data.bitcoinBlockHeight.toNat]? := by
  obtain ⟨below, c, above, hsplit, hc, -, hdepth⟩ := exists_split_at_commitment h.committed
  have hlinked : HashChain.Linked btc.blockHash Header.prevBlockhash (below ++ [c]) := by
    have := h.linked
    rw [HeadersLinked, hsplit, ← List.singleton_append, ← List.append_assoc] at this
    exact this.of_append
  have hsub : ∀ x ∈ below ++ [c], x ∈ proof.inner.blockHeaders := by
    intro x hx
    rw [hsplit, mem_append, mem_cons]
    rw [mem_append, mem_singleton] at hx
    tauto
  obtain ⟨hle, hhead⟩ := HashChain.head?_eq_of_last chain.linked below hlinked
    (fun x hx y hy => hfree (.inr ⟨proof, hmem, hsub x hx⟩) (.inl hy))
    (fun x _ g hg => chain.genesis g hg x) hcommit hc
  -- the depth is at most the height, so neither the truncation nor the subtraction wraps
  have hlt := commitment.2.isLt
  have hheight : data.bitcoinBlockHeight.toNat = commitment.2.toNat - below.length := by
    rw [← h.height, hdepth, toNat_sub_of_le]
    · rw [toNat_ofNat, Nat.mod_eq_of_lt (by omega)]
    · rw [le_def, toNat_ofNat, Nat.mod_eq_of_lt (by omega)]
      exact hle
  refine ⟨by omega, ?_⟩
  rw [hheight, ← hhead, hsplit]
  cases below <;> simp

/-- Soundness of pegin proofs: under collision-free hashes, every proof of an
accepted pegin is about a transaction of the block at the event's height, below
the commitment, whose referenced output pays the gateway script of the event's
account; the result is the sum of these outputs in wei. -/
theorem PeginData.validate_sound (chain : BitcoinChain btc) {v : U256}
    (hcommit : (chain.blocks.map Block.header)[commitment.2.toNat]? = some commitment.1)
    (hblocks : Set.InjOn btc.blockHash (headersInSight chain data))
    (htxids : TxidsCollisionFree btc (transactionsInSight chain data))
    (hmerkle : ∀ block ∈ chain.blocks, ExtractMatchesSound btc block)
    (hok : data.validate btc frost checks commitment aggregatePk = ok v) :
    (∀ proof ∈ data.metas, ∃ block ∈ chain.blocks, ∃ tx ∈ block.txdata, ∃ output,
      chain.blocks[data.bitcoinBlockHeight.toNat]? = some block ∧
      data.bitcoinBlockHeight.toNat ≤ commitment.2.toNat ∧
      tx.stripped = proof.tx.stripped ∧ btc.computeTxid tx = proof.outpoint.txid ∧
      tx.output[proof.outpoint.vout.toNat]? = some output ∧
      gatewayScript btc frost aggregatePk data.account = some output.scriptPubkey ∧
      proof.sats = output.value.toNat) ∧
    v.toNat = (data.metas.map fun proof => proof.sats * satoshiInWei).sum := by
  obtain ⟨hall, hsum⟩ := accepts_of_validate hok
  refine ⟨fun proof hmem => ?_, hsum⟩
  obtain ⟨output, hacc⟩ := hall proof hmem
  obtain ⟨hle, hfirst⟩ := hacc.first_header chain hcommit hblocks hmem
  obtain ⟨first, root, txids, idxs, hmatches, htxid, hhead, hroot⟩ := hacc.inclusion
  rw [hhead, getElem?_map, eq_comm, Option.map_eq_some_iff] at hfirst
  obtain ⟨block, hblock, rfl⟩ := hfirst
  have hblockMem : block ∈ chain.blocks := mem_of_getElem? hblock
  obtain ⟨tx, htx, hid⟩ := mem_map.mp
    (hmerkle block hblockMem proof.inner.merkleProof txids idxs (hroot ▸ hmatches) _ htxid)
  have hstripped : tx.stripped = proof.tx.stripped :=
    htxids tx (.inl ⟨block, hblockMem, htx⟩) _ (.inr ⟨proof, hmem, rfl⟩) (hid.trans hacc.txid.symm)
  have houtputs : tx.output = proof.tx.output := by
    simpa using congrArg Transaction.output hstripped
  refine ⟨block, hblockMem, tx, htx, output, hblock, hle, hstripped, hid, ?_, hacc.script,
    hacc.sats_eq⟩
  rw [houtputs]
  exact hacc.output_eq

end

/-! ## The chain of the concrete instance -/

/-- The two blocks of the concrete instance. -/
def sampleChain : BitcoinChain sampleBitcoin where
  blocks := [sampleGenesis, sampleBlock]
  linked := by decide
  genesis := by
    rintro g hg h hzero
    obtain rfl : sampleGenesis.header = g := by simpa using hg
    change (if _ then _ else _) = (0 : BlockHash) at hzero
    split_ifs at hzero <;> exact absurd hzero (by decide)

theorem sampleChain_extractMatchesSound {block : Block} (h : block ∈ sampleChain.blocks) :
    ExtractMatchesSound sampleBitcoin block := by
  rintro ⟨n, bits, hashes⟩ txids idxs hmatches txid htxid
  obtain ⟨leaf, rfl⟩ : ∃ leaf, hashes = [leaf] := by
    match hashes, hmatches with
    | [leaf], _ => exact ⟨leaf, rfl⟩
  obtain ⟨rfl, rfl, -⟩ : leaf = block.header.merkleRoot ∧ [leaf] = txids ∧ _ := by
    simpa [sampleBitcoin] using hmatches
  obtain rfl : txid = block.header.merkleRoot := by simpa using htxid
  have hblock : block = sampleGenesis ∨ block = sampleBlock := by simpa [sampleChain] using h
  rcases hblock with rfl | rfl <;> decide

/-- The two headers have different hashes. -/
theorem sampleBitcoin_injOn {headers : Set Header}
    (h : ∀ x ∈ headers, x = sampleGenesis.header ∨ x = sampleBlock.header) :
    Set.InjOn sampleBitcoin.blockHash headers := by
  intro x hx y hy heq
  rcases h x hx with rfl | rfl <;> rcases h y hy with rfl | rfl
  · rfl
  · exact absurd heq (by decide)
  · exact absurd heq (by decide)
  · rfl

/-- The two transactions have different ids. -/
theorem sampleBitcoin_txids {txs : Set Transaction} (h : ∀ x ∈ txs, x = sampleTx ∨ x = otherTx) :
    TxidsCollisionFree sampleBitcoin txs := by
  intro x hx y hy heq
  rcases h x hx with rfl | rfl <;> rcases h y hy with rfl | rfl
  · rfl
  · exact absurd heq (by decide)
  · exact absurd heq (by decide)
  · rfl

/-- The transactions of the chain. -/
theorem tx_of_sampleChain {block : Block} {tx : Transaction} (hblock : block ∈ sampleChain.blocks)
    (htx : tx ∈ block.txdata) : tx = sampleTx ∨ tx = otherTx := by
  have hblock : block = sampleGenesis ∨ block = sampleBlock := by simpa [sampleChain] using hblock
  rcases hblock with rfl | rfl
  · exact .inl (by simpa [sampleGenesis] using htx)
  · exact .inr (by simpa [sampleBlock] using htx)

/-- The transaction of the accepted proof is in the first block of the chain. -/
theorem samplePegin_included : ∃ block ∈ sampleChain.blocks, ∃ tx ∈ block.txdata,
    sampleChain.blocks[0]? = some block ∧ tx.stripped = sampleTx.stripped := by
  have hheaders : ∀ h ∈ headersInSight sampleChain samplePegin,
      h = sampleGenesis.header ∨ h = sampleBlock.header := by
    rintro h (h | ⟨proof, hproof, h⟩)
    · simpa [sampleChain] using h
    · obtain rfl : proof = .v0 sampleProof := by simpa [samplePegin] using hproof
      simpa [PeginMeta.inner, sampleProof] using h
  have htxs : ∀ tx ∈ transactionsInSight sampleChain samplePegin,
      tx = sampleTx ∨ tx = otherTx := by
    rintro tx (⟨block, hblock, htx⟩ | ⟨proof, hproof, rfl⟩)
    · exact tx_of_sampleChain hblock htx
    · obtain rfl : proof = .v0 sampleProof := by simpa [samplePegin] using hproof
      exact .inl rfl
  have hok : samplePegin.validate sampleBitcoin sampleFrost true (sampleBlock.header, 1) ⟨false, 1⟩ =
      ok 50000000000 := by decide
  obtain ⟨hall, -⟩ := PeginData.validate_sound sampleChain rfl (sampleBitcoin_injOn hheaders)
    (sampleBitcoin_txids htxs)
    (fun _ => sampleChain_extractMatchesSound) hok
  obtain ⟨block, hmem, tx, htx, output, hat, -, hstripped, -⟩ := hall (.v0 sampleProof) (by decide)
  exact ⟨block, hmem, tx, htx, hat, hstripped⟩

end Macbeth
