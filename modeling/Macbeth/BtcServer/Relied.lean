import Macbeth.BtcServer.Missing
import Macbeth.BtcServer.PaidPending

/-!
# The transactions the scheduler relies on

The blocks the scheduler follows name transactions that were tracked when the blocks were
added.  Rolling such a block back and finalizing it look them up again.  In between, the mempool
check and a refused broadcast forget tracked transactions without looking at the followed
blocks, and finalizing another block drops the transactions that created the spent coins.

`never_missing` is for runs in which the node answers every synchronization from one chain,
so that it loses no transaction that chain contains, and in which a refused transaction is
tracked and not yet in a followed block.
-/

namespace Macbeth

open Handler Outcome List

/-! ## Statement -/

/-- A chain, as far as the scheduler sees it: the heights of blocks, and of the transactions in
it the heights at which they were mined. -/
structure ChainRecord where
  height : BlockHash → Nat
  minedAt : Txid → Option Nat

namespace ChainRecord

/-- The block is in the chain: one above the block it names, each of its transactions once,
and no output spent before it was made. -/
structure Has (chain : ChainRecord) (btc : BitcoinLib) (block : Block) : Prop where
  height_eq : chain.height (btc.blockHash block.header) =
    chain.height block.header.prevBlockhash + 1
  nodup : (block.txdata.map btc.computeTxid).Nodup
  mined : ∀ tx ∈ block.txdata,
    chain.minedAt (btc.computeTxid tx) = some (chain.height (btc.blockHash block.header))
  spent : ∀ tx ∈ block.txdata, ∀ op ∈ tx.inputs, ∀ h ∈ chain.minedAt op.txid,
    h ≤ chain.height (btc.blockHash block.header)

instance (chain : ChainRecord) (btc : BitcoinLib) (block : Block) :
    Decidable (chain.Has btc block) :=
  decidable_of_iff
    (chain.height (btc.blockHash block.header) = chain.height block.header.prevBlockhash + 1 ∧
      (block.txdata.map btc.computeTxid).Nodup ∧
      (∀ tx ∈ block.txdata,
        chain.minedAt (btc.computeTxid tx) = some (chain.height (btc.blockHash block.header))) ∧
      ∀ tx ∈ block.txdata, ∀ op ∈ tx.inputs, ∀ h ∈ chain.minedAt op.txid,
        h ≤ chain.height (btc.blockHash block.header))
    ⟨fun ⟨h₁, h₂, h₃, h₄⟩ => ⟨h₁, h₂, h₃, h₄⟩, fun ⟨h₁, h₂, h₃, h₄⟩ => ⟨h₁, h₂, h₃, h₄⟩⟩

/-- The same of followed blocks. -/
structure Records (chain : ChainRecord) (blocks : List BlockInfo) : Prop where
  increasing : blocks.Pairwise fun a b => chain.height a.hash < chain.height b.hash
  mined : ∀ b ∈ blocks, ∀ txid ∈ b.relevantTxs, chain.minedAt txid = some (chain.height b.hash)
  spent : ∀ b ∈ blocks, ∀ op ∈ b.relevantInputs, ∀ h ∈ chain.minedAt op.txid,
    h ≤ chain.height b.hash

-- the list is searched, not the type of its elements
instance (chain : ChainRecord) (blocks : List BlockInfo) : Decidable (chain.Records blocks) :=
  decidable_of_iff
    ((blocks.Pairwise fun a b => chain.height a.hash < chain.height b.hash) ∧
      (∀ b ∈ blocks, (b.relevantTxs.all fun txid =>
        chain.minedAt txid = some (chain.height b.hash)) = true) ∧
      ∀ b ∈ blocks, ∀ op ∈ b.relevantInputs, ∀ h ∈ chain.minedAt op.txid, h ≤ chain.height b.hash)
    ⟨fun ⟨h₁, h₂, h₃⟩ => ⟨h₁, by simpa using h₂, h₃⟩,
      fun ⟨h₁, h₂, h₃⟩ => ⟨h₁, by simpa using h₂, h₃⟩⟩

end ChainRecord

/-- The node answers a synchronization from one chain: the blocks it serves are in it, what it
has lost is not, and the followed blocks up to one it has in its chain are in it. -/
structure AnswersFromChain (config : Config) (s : Scheduler) (bitcoind : Bitcoind)
    (chain : ChainRecord) : Prop where
  served : ∀ n info block, Reached bitcoind info → (bitcoind n).block info.hash = .ok block →
    chain.Has config.btc block
  lost : ∀ txid, Lost bitcoind txid → chain.minedAt txid = none
  rows : ∀ txid row, s.txs.lookup txid = some row → ∀ h ∈ chain.minedAt txid,
    ∀ op ∈ row.inputs, ∀ h' ∈ chain.minedAt op.txid, h' ≤ h
  followed : ∀ blocks b, blocks <+: s.lastBlocks → blocks.getLast? = some b →
    (∃ n info, (bitcoind n).blockHeaderInfo b.hash = .ok info ∧ 0 < info.confirmations) →
    chain.Records blocks

/-- What a request must not meet. -/
def KeepsRelied (config : Config) (server : Server) (input : Input) : Prop :=
  match input.request with
  | .newConsensusCheckpoint .. | .getPsbt .. =>
    ∃ chain, AnswersFromChain config server.scheduler input.bitcoind chain
  | .finalizeSigning sessionId =>
    ∀ psbt tx, finalizePsbt config.lib server.db sessionId = .ok psbt → psbt.extractTx = .ok tx →
      ¬ Accepts input.bitcoind tx → config.btc.computeTxid tx ∈ server.scheduler.txs ∧
        ∀ b ∈ server.scheduler.lastBlocks, config.btc.computeTxid tx ∉ b.relevantTxs
  | _ => True

/-! ## One move -/

namespace Scheduler.Relied

variable {s s' : Scheduler}

/-- The same transactions, and no new block. -/
theorem frame (h : s.Relied) (htxs : s'.txs = s.txs)
    (hblocks : List.Sublist s'.lastBlocks s.lastBlocks) : s'.Relied where
  tracked b hb := by
    rw [htxs]
    exact h.tracked b (hblocks.subset hb)
  nodup := h.nodup.sublist (hblocks.flatMap _)

/-- A transaction that no followed block names. -/
theorem erase {txid : Txid} (h : s.Relied)
    (hnot : ∀ b ∈ s.lastBlocks, txid ∉ b.relevantTxs) (htxs : s'.txs = s.txs.erase txid)
    (hblocks : s'.lastBlocks = s.lastBlocks) : s'.Relied where
  tracked b hb t ht := by
    rw [hblocks] at hb
    have hne : t ≠ txid := fun heq => hnot b hb (heq ▸ ht)
    rw [htxs, AList.mem_erase]
    exact ⟨hne, h.tracked b hb t ht⟩
  nodup := by
    rw [hblocks]
    exact h.nodup

/-- A new block with transactions of its own. -/
theorem concat {b : BlockInfo} (h : s.Relied) (htracked : ∀ t ∈ b.relevantTxs, t ∈ s.txs)
    (hnodup : b.relevantTxs.Nodup)
    (hnew : ∀ b' ∈ s.lastBlocks, ∀ t ∈ b'.relevantTxs, t ∉ b.relevantTxs) :
    ({ s with lastBlocks := s.lastBlocks ++ [b] } : Scheduler).Relied where
  tracked b' hb' := by
    obtain hb' | hb' := mem_append.mp hb'
    · exact h.tracked b' hb'
    · rw [mem_singleton.mp hb']
      exact htracked
  nodup := by
    rw [flatMap_append, flatMap_singleton]
    refine h.nodup.append hnodup fun t ht htb => ?_
    obtain ⟨b', hb', ht⟩ := mem_flatMap.mp ht
    exact hnew b' hb' t ht htb

end Scheduler.Relied

namespace ChainRecord

variable {chain : ChainRecord} {blocks : List BlockInfo} {b : BlockInfo} {btc : BitcoinLib}
  {block : Block}

theorem Records.tail (h : chain.Records (b :: blocks)) : chain.Records blocks where
  increasing := (pairwise_cons.mp h.increasing).2
  mined b' hb' := h.mined b' (mem_cons_of_mem _ hb')
  spent b' hb' := h.spent b' (mem_cons_of_mem _ hb')

/-- What was mined no higher than a block is not in one above it. -/
theorem Records.notMem_above (h : chain.Records (b :: blocks)) {txid : Txid}
    (htxid : ∀ n ∈ chain.minedAt txid, n ≤ chain.height b.hash) :
    ∀ b' ∈ blocks, txid ∉ b'.relevantTxs := by
  intro b' hb' hmem
  have hlt := (pairwise_cons.mp h.increasing).1 b' hb'
  have hle := htxid _ (h.mined b' (mem_cons_of_mem _ hb') txid hmem)
  omega

theorem Records.height_le_last (h : chain.Records blocks) {last : BlockInfo}
    (hlast : blocks.getLast? = some last) :
    ∀ b ∈ blocks, chain.height b.hash ≤ chain.height last.hash := by
  intro b hb
  obtain ⟨front, rfl⟩ := getLast?_eq_some_iff.mp hlast
  obtain hb | hb := mem_append.mp hb
  · exact Nat.le_of_lt ((pairwise_append.mp h.increasing).2.2 b hb last mem_cons_self)
  · rw [mem_singleton.mp hb]

/-- The block above the last one, with what of it concerns a scheduler. -/
theorem Has.records_concat (hblock : chain.Has btc block) (h : chain.Records blocks)
    {last : BlockInfo} (hlast : blocks.getLast? = some last)
    (hprev : block.header.prevBlockhash = last.hash) (s : Scheduler) :
    chain.Records (blocks ++
      [⟨btc.blockHash block.header, relevantTxs btc s block, relevantInputs btc s block⟩]) := by
  have habove : ∀ b ∈ blocks, chain.height b.hash < chain.height (btc.blockHash block.header) := by
    intro b hb
    have hle := h.height_le_last hlast b hb
    have hsucc := hblock.height_eq
    rw [hprev] at hsucc
    omega
  refine ⟨pairwise_append.mpr ⟨h.increasing, pairwise_singleton .., ?_⟩, ?_, ?_⟩
  · intro b hb b' hb'
    rw [mem_singleton.mp hb']
    exact habove b hb
  · intro b hb txid htxid
    obtain hb | hb := mem_append.mp hb
    · exact h.mined b hb txid htxid
    · rw [mem_singleton.mp hb] at htxid ⊢
      obtain ⟨tx, htx, rfl⟩ := mem_map.mp (mem_filter.mp htxid).1
      exact hblock.mined tx htx
  · intro b hb op hop
    obtain hb | hb := mem_append.mp hb
    · exact h.spent b hb op hop
    · rw [mem_singleton.mp hb] at hop ⊢
      obtain ⟨tx, htx, hop⟩ := mem_flatMap.mp hop
      exact hblock.spent tx (mem_filter.mp htx).1 op (mem_filter.mp hop).1

end ChainRecord

/-- Where a synchronization stands with the followed blocks of the beginning, and with the
chain. -/
def Stage.OnChain (chain : ChainRecord) (start : Scheduler) (c : Stage) : Prop :=
  match c.phase with
  | .searching => c.scheduler.lastBlocks <+: start.lastBlocks
  | .rollingBack b => c.scheduler.lastBlocks <+: start.lastBlocks ∧
      ∀ b' ∈ c.scheduler.lastBlocks, ∀ txid ∈ b'.relevantTxs, txid ∉ b.relevantTxs
  | .following => chain.Records c.scheduler.lastBlocks
  | .finalizing b inputs => chain.Records (b :: c.scheduler.lastBlocks) ∧
      ∀ op ∈ inputs, ∀ h ∈ chain.minedAt op.txid, h ≤ chain.height b.hash

/-- Nothing is missing, and the rest of the synchronization will keep it so. -/
structure Stage.Guarded (chain : ChainRecord) (start : Scheduler) (c : Stage) : Prop where
  relied : c.scheduler.Relied
  rows : ∀ txid row, c.scheduler.txs.lookup txid = some row → start.txs.lookup txid = some row
  onChain : c.OnChain chain start

section moves
variable {config : Config} {input : Input} {chain : ChainRecord} {start : Scheduler} {c c' : Stage}

theorem relied_addBlock {block : Block} {last : BlockInfo} (h : c.Guarded chain start)
    (hphase : c.phase = .following) (hlast : c.scheduler.lastBlocks.getLast? = some last)
    (hprev : block.header.prevBlockhash = last.hash) (hblock : chain.Has config.btc block) :
    ({ c.scheduler with
      lastBlocks := c.scheduler.lastBlocks ++ [⟨config.btc.blockHash block.header,
        relevantTxs config.btc c.scheduler block, relevantInputs config.btc c.scheduler block⟩] } :
      Scheduler).Relied := by
  have hon := h.onChain
  rw [Stage.OnChain, hphase] at hon
  have hrecords := hblock.records_concat hon hlast hprev c.scheduler
  refine h.relied.concat (fun t ht => by simpa using (mem_filter.mp ht).2)
    (hblock.nodup.filter _) fun b' hb' t ht hnew => ?_
  -- the two blocks would have the same height
  have hold := hon.mined b' hb' t ht
  have hmined := hrecords.mined _ (mem_append_right _ mem_cons_self) t hnew
  have hlt := (pairwise_append.mp hrecords.increasing).2.2 b' hb' _ mem_cons_self
  rw [hold] at hmined
  exact absurd (Option.some.inj hmined) (Nat.ne_of_lt hlt)

/-- A forgotten transaction that no followed block names. -/
theorem Stage.Guarded.erase {txid : Txid} (h : c.Guarded chain start)
    (hnot : ∀ b ∈ c.scheduler.lastBlocks, txid ∉ b.relevantTxs)
    (htxs : c'.scheduler.txs = c.scheduler.txs.erase txid)
    (hblocks : c'.scheduler.lastBlocks = c.scheduler.lastBlocks) (hphase : c'.phase = c.phase) :
    c'.Guarded chain start where
  relied := h.relied.erase hnot htxs hblocks
  rows t row hrow := by
    rw [htxs] at hrow
    exact h.rows t row (FinMap.lookup_of_lookup_erase hrow)
  onChain := by
    rw [Stage.OnChain, hphase, hblocks]
    exact h.onChain

/-- Another phase, with no new block. -/
theorem Stage.Guarded.move (h : c.Guarded chain start) (htxs : c'.scheduler.txs = c.scheduler.txs)
    (hblocks : List.Sublist c'.scheduler.lastBlocks c.scheduler.lastBlocks)
    (hon : c'.OnChain chain start) : c'.Guarded chain start where
  relied := h.relied.frame htxs hblocks
  rows t row hrow := h.rows t row (htxs ▸ hrow)
  onChain := hon

theorem stable_guarded (hsync : input.request.syncs)
    (hanswers : AnswersFromChain config start input.bitcoind chain) :
    Stable config input (Stage.Guarded chain start) := by
  intro c c' hmove h
  have hon := h.onChain
  cases hmove with
  | rollBack n _ hphase hlast =>
    rw [Stage.OnChain, hphase] at hon
    refine h.move rfl (dropLast_sublist _) ⟨(List.dropLast_prefix _).trans hon, ?_⟩
    intro b' hb' t ht htb
    have hnodup := h.relied.nodup
    rw [← dropLast_append_getLast? _ hlast, flatMap_append, flatMap_singleton] at hnodup
    exact (nodup_append.mp hnodup).2.2 t (mem_flatMap.mpr ⟨b', hb', ht⟩) t htb rfl
  | untrack hphase htxid =>
    rw [Stage.OnChain, hphase] at hon
    exact h.erase (fun b' hb' hmem => hon.2 b' hb' _ hmem htxid) rfl rfl rfl
  | rolledBack hphase =>
    rw [Stage.OnChain, hphase] at hon
    exact h.move rfl (List.Sublist.refl _) hon.1
  | follow n _ hphase hlast hinfo hconf =>
    rw [Stage.OnChain, hphase] at hon
    exact h.move rfl (List.Sublist.refl _)
      (hanswers.followed _ _ hon hlast ⟨n, _, hinfo, hconf⟩)
  | addBlock n _ hphase hlast hprev hreached hblock =>
    have hhas := hanswers.served n _ _ hreached hblock
    refine ⟨relied_addBlock h hphase hlast hprev hhas, h.rows, ?_⟩
    rw [Stage.OnChain, hphase] at hon ⊢
    exact hhas.records_concat hon hlast hprev c.scheduler
  | popBlock hphase hblocks =>
    rw [Stage.OnChain, hphase, hblocks] at hon
    refine h.move rfl (hblocks ▸ sublist_cons_self ..) ⟨hon, ?_⟩
    exact fun _ hop => absurd hop not_mem_nil
  | collectInputs hphase =>
    rw [Stage.OnChain, hphase] at hon
    refine h.move rfl (List.Sublist.refl _) ⟨hon.1, fun op hop => ?_⟩
    obtain hop | hop := mem_append.mp (mem_dedup.mp hop)
    · exact hon.1.spent _ mem_cons_self op hop
    · -- an input of a transaction of the block
      obtain ⟨txid, htxid, hop⟩ := mem_flatMap.mp hop
      cases hrow : c.scheduler.txs.lookup txid with
      | none => simp [hrow] at hop
      | some row =>
        rw [hrow] at hop
        exact hanswers.rows txid row (h.rows txid row hrow) _
          (hon.1.mined _ mem_cons_self txid htxid) op hop
  | dropParent hphase hop =>
    rw [Stage.OnChain, hphase] at hon
    exact h.erase (hon.1.notMem_above (hon.2 _ hop)) rfl rfl rfl
  | finalizeTx n hphase htxid =>
    rw [Stage.OnChain, hphase] at hon
    refine h.erase (hon.1.notMem_above fun m hm => ?_) rfl rfl rfl
    have hmined := hon.1.mined _ mem_cons_self _ htxid
    exact Nat.le_of_eq (Option.some.inj (hm.symm.trans hmined))
  | finalized hphase =>
    rw [Stage.OnChain, hphase] at hon
    exact h.move rfl (List.Sublist.refl _) hon.1.tail
  | dropUnconfirmed m n _ hphase _ hraw hentry =>
    rw [Stage.OnChain, hphase] at hon
    refine h.erase (fun b hb hmem => ?_) rfl rfl rfl
    have hnone := hanswers.lost _ ⟨⟨m, _, hraw⟩, n, hentry⟩
    rw [hon.mined b hb _ hmem] at hnone
    cases hnone
  | untrackRefused hreq => rw [hreq] at hsync; exact hsync.elim
  | track hreq => exact absurd hreq (hsync.ne_round2 _)
  | _ => exact h.move rfl (List.Sublist.refl _) hon

/-- The transaction of the session, if it is refused, is in no followed block. -/
def Stage.Unrefused (config : Config) (input : Input) (c : Stage) : Prop :=
  ∀ sessionId psbt tx, input.request = .finalizeSigning sessionId →
    finalizePsbt config.lib c.db sessionId = .ok psbt → psbt.extractTx = .ok tx →
    ¬ Accepts input.bitcoind tx →
    ∀ b ∈ c.scheduler.lastBlocks, config.btc.computeTxid tx ∉ b.relevantTxs

/-- Outside of a synchronization. -/
structure Stage.Unsynced (config : Config) (input : Input) (c : Stage) : Prop where
  searching : c.phase = .searching
  relied : c.scheduler.Relied
  unrefused : c.Unrefused config input

theorem Move.lastBlocks_eq (hmove : Move config input c c') (hsync : ¬ input.request.syncs)
    (hphase : c.phase = .searching) : c'.scheduler.lastBlocks = c.scheduler.lastBlocks := by
  cases hmove with
  | rollBack _ hsync' => exact absurd hsync' hsync
  | addBlock _ hsync' => exact absurd hsync' hsync
  | popBlock hfollow => rw [hphase] at hfollow; cases hfollow
  | _ => rfl

theorem stable_unsynced (hsync : ¬ input.request.syncs) :
    Stable config input (Stage.Unsynced config input) := by
  intro c c' hmove h
  have hblocks := hmove.lastBlocks_eq hsync h.searching
  have hphase := h.searching
  refine ⟨stable_searching config hsync c c' hmove hphase, ?_, ?_⟩
  · cases hmove with
    | rollBack _ hsync' => exact absurd hsync' hsync
    | addBlock _ hsync' => exact absurd hsync' hsync
    | dropUnconfirmed _ _ hsync' => exact absurd hsync' hsync
    | untrack hother => rw [hphase] at hother; cases hother
    | popBlock hother => rw [hphase] at hother; cases hother
    | dropParent hother => rw [hphase] at hother; cases hother
    | finalizeTx _ hother => rw [hphase] at hother; cases hother
    | untrackRefused hreq hpsbt htx hrefused =>
      exact h.relied.erase (h.unrefused _ _ _ hreq hpsbt htx hrefused) rfl rfl
    | track =>
      refine ⟨fun b hb t ht => ?_, h.relied.nodup⟩
      exact (AList.mem_insert _).mpr (.inr (h.relied.tracked b hb t ht))
    | _ => exact h.relied.frame rfl (List.Sublist.refl _)
  · intro sessionId psbt tx hreq hpsbt htx hrefused
    rw [hmove.finalizePsbt_eq hreq] at hpsbt
    rw [hblocks]
    exact h.unrefused sessionId psbt tx hreq hpsbt htx hrefused

end moves

/-! ## Runs -/

section runs
variable {config : Config} {input : Input} {server : Server}

theorem relied_start (config : Config) (db : Db) : (config.start db).scheduler.Relied := by
  obtain ⟨hash, hblocks⟩ := Stage.lastBlocks_start config db
  refine ⟨fun b hb txid htxid => ?_, ?_⟩
  · rw [hblocks, mem_singleton] at hb
    subst hb
    cases htxid
  · rw [hblocks]
    exact nodup_nil

/-- A property that every move keeps, and that leaves nothing missing. -/
theorem relied_of_stable {P : Stage → Prop} (hP : Stable config input P)
    (hrelied : ∀ c, P c → c.scheduler.Relied) (hstart : P (server.stage .searching)) :
    (config.step server input).2.scheduler.Relied := by
  obtain ⟨server', phase, h, ⟨-, hstep⟩ | ⟨-, hstep⟩⟩ := hP.step hstart
  · rw [hstep]
    exact hrelied _ h
  · rw [hstep]
    exact relied_start config server'.db

theorem relied_step (hkeeps : KeepsRelied config server input) (h : server.scheduler.Relied) :
    (config.step server input).2.scheduler.Relied ∧
      ∀ missing : WayOut, input.request.serveOr missing config input.bitcoind input.fuel ⟨server, 0⟩ =
        input.request.serve config input.bitcoind input.fuel ⟨server, 0⟩ := by
  by_cases hsync : input.request.syncs
  · obtain ⟨chain, hanswers⟩ :
        ∃ chain, AnswersFromChain config server.scheduler input.bitcoind chain := by
      unfold KeepsRelied at hkeeps
      revert hkeeps hsync
      cases input.request <;> intro hkeeps hsync <;> first | exact hkeeps | exact hsync.elim
    have hP := stable_guarded hsync hanswers
    have hstart : (server.stage .searching).Guarded chain server.scheduler :=
      ⟨h, fun _ _ => id, prefix_rfl⟩
    exact ⟨relied_of_stable hP (fun _ h => h.relied) hstart,
      fun missing => serveOr_eq_of_syncs hP (fun _ h => .inr h.relied) hsync hstart⟩
  · have hrefused : ∀ sessionId, input.request = .finalizeSigning sessionId → ∀ psbt tx,
        finalizePsbt config.lib server.db sessionId = .ok psbt → psbt.extractTx = .ok tx →
        ¬ Accepts input.bitcoind tx → config.btc.computeTxid tx ∈ server.scheduler.txs ∧
          ∀ b ∈ server.scheduler.lastBlocks, config.btc.computeTxid tx ∉ b.relevantTxs := by
      intro sessionId hreq
      rw [KeepsRelied, hreq] at hkeeps
      exact hkeeps
    have hstart : (server.stage .searching).Unsynced config input :=
      ⟨rfl, h, fun sessionId psbt tx hreq hpsbt htx hno =>
        (hrefused sessionId hreq psbt tx hpsbt htx hno).2⟩
    refine ⟨relied_of_stable (stable_unsynced hsync) (fun _ h => h.relied) hstart, fun missing => ?_⟩
    cases hreq : input.request with
    | finalizeSigning sessionId =>
      rw [← hreq]
      exact serveOr_eq_of_finalizes hreq fun psbt tx hpsbt htx hno =>
        .inr (hrefused sessionId hreq psbt tx hpsbt htx hno).1
    | newConsensusCheckpoint => rw [hreq] at hsync; exact absurd trivial hsync
    | getPsbt => rw [hreq] at hsync; exact absurd trivial hsync
    | _ => rfl

/-- In every run in which the node answers each synchronization from one chain, and a refused
transaction of a session is tracked and in no followed block: the transactions the followed
blocks name are tracked after every request, and no request ever looks a transaction up in
vain where it ought to be tracked. -/
theorem never_missing (config : Config) (db : Db) {h : ServerHistory} {server : Server}
    (hrun : Run config.step (config.start db) h server)
    (hmeets : Meets (fun _ => KeepsRelied config) h) :
    (∀ b ∈ server.scheduler.lastBlocks, ∀ txid ∈ b.relevantTxs, txid ∈ server.scheduler.txs) ∧
    ∀ t ∈ h, ∀ missing : WayOut,
      t.input.request.serveOr missing config t.input.bitcoind t.input.fuel ⟨t.pre, 0⟩ =
        t.input.request.serve config t.input.bitcoind t.input.fuel ⟨t.pre, 0⟩ := by
  have hinv := hrun.invariant (C := fun _ => KeepsRelied config)
    (I := fun h server => server.scheduler.Relied ∧ ∀ t ∈ h, ∀ missing : WayOut,
      t.input.request.serveOr missing config t.input.bitcoind t.input.fuel ⟨t.pre, 0⟩ =
        t.input.request.serve config t.input.bitcoind t.input.fuel ⟨t.pre, 0⟩)
    ⟨relied_start config db, fun _ ht => absurd ht not_mem_nil⟩
    (fun h server input _ hi hkeeps => ?_) hmeets
  · exact ⟨hinv.1.tracked, hinv.2⟩
  · obtain ⟨hrelied, hserve⟩ := relied_step hkeeps hi.1
    exact ⟨hrelied, forall_mem_cons.mpr ⟨hserve, hi.2⟩⟩

end runs

/-! ## Nodes that hold still -/

/-- The chain of a node, with its first listed block at height one. -/
def Node.record (btc : BitcoinLib) (node : Node) : ChainRecord where
  height hash := ((node.find btc hash).map fun x => x.2 + 1).getD 0
  minedAt txid := (node.blockOf btc txid).map fun b =>
    ((node.find btc (btc.blockHash b.header)).map fun x => x.2 + 1).getD 0

theorem Node.answersFromChain {config : Config} {s : Scheduler} {node : Node}
    (hstale : node.stale = [])
    (hhas : ∀ block ∈ node.chain, (node.record config.btc).Has config.btc block)
    (hrows : ∀ e ∈ s.txs.entries, ∀ h ∈ (node.record config.btc).minedAt e.1,
      ∀ op ∈ e.2.inputs, ∀ h' ∈ (node.record config.btc).minedAt op.txid, h' ≤ h)
    (hrecords : (node.record config.btc).Records s.lastBlocks) :
    AnswersFromChain config s (node.steady config.btc) (node.record config.btc) where
  served n info block _ hblock := by
    refine hhas block ?_
    simp only [Node.steady, Node.view, Node.block, Node.findStale, hstale] at hblock
    cases hfind : node.find config.btc info.hash with
    | none => simp [hfind] at hblock
    | some x =>
      simp only [hfind, Except.ok.injEq] at hblock
      rw [← hblock]
      exact fst_mem_of_mem_zipIdx (mem_of_find?_eq_some hfind)
  lost txid hlost := by
    obtain ⟨⟨n, e, hraw⟩, -⟩ := hlost
    simp only [Node.steady, Node.view] at hraw
    cases hblock : node.blockOf config.btc txid with
    | none => simp [Node.record, hblock]
    | some b => simp [hblock] at hraw
  rows txid row hrow := hrows ⟨txid, row⟩ (AList.mem_lookup_iff.mp hrow)
  followed blocks b hstart _ _ :=
    ⟨hrecords.increasing.sublist hstart.sublist, fun b hb => hrecords.mined b (hstart.subset hb),
      fun b hb => hrecords.spent b (hstart.subset hb)⟩

/-! ## A payment that is mined -/

/-- The node after the block of the payment. -/
def nodeMined : Node := ⟨0, [genesis, payBlock], [], [firstCoin], [], 1700000610 * nanosPerSec⟩

/-- A signer that follows the block of the payment: the checkpoint is not deep enough yet. -/
def followRun : ServerHistory × Server :=
  play (windowOne false).step ((windowOne false).start freshDb)
    (⟨.newConsensusCheckpoint payBlockHash [] [], nodeMined.steady payBitcoin, 5⟩ ::
      signSession (paymentPsbt firstCoin) 10 ++ [depositCheckpoint])

/-- The payment is in the block that is followed, and tracked; nothing was looked up in vain. -/
theorem mined_payment_tracked :
    followRun.2.scheduler.lastBlocks.map (·.relevantTxs) =
      [[payBitcoin.computeTxid (payment firstCoin)]] ∧
    (∀ b ∈ followRun.2.scheduler.lastBlocks, ∀ txid ∈ b.relevantTxs,
      txid ∈ followRun.2.scheduler.txs) ∧
    ∀ t ∈ followRun.1, ∀ missing : WayOut,
      t.input.request.serveOr missing (windowOne false) t.input.bitcoind t.input.fuel ⟨t.pre, 0⟩ =
        t.input.request.serve (windowOne false) t.input.bitcoind t.input.fuel ⟨t.pre, 0⟩ := by
  have hmeets : Meets (fun _ => KeepsRelied (windowOne false)) followRun.1 :=
    ⟨⟨nodeMined.record payBitcoin, Node.answersFromChain rfl (by decide +kernel) (by decide +kernel)
        (by decide +kernel)⟩,
      trivial, trivial,
      ⟨nodeBefore.record payBitcoin, Node.answersFromChain rfl (by decide +kernel)
        (by decide +kernel) (by decide +kernel)⟩, trivial⟩
  exact ⟨by decide +kernel, never_missing (windowOne false) freshDb (Run.play _) hmeets⟩

/-- A node that refuses transactions with a text of its own. -/
def refusing (node : Node) : Bitcoind := fun _ =>
  { node.view payBitcoin with sendRawTransaction := fun _ => .error .other }

/-- The requests by which a coordinator collects the session of the payment, and the signing
of its own part, the newest first. -/
def collectSession : List Input :=
  [⟨.newRound1SigningPackage [1] 1 (committedPsbt firstCoin 10), nodeBefore.steady payBitcoin, 0⟩] ++
    signSession (paymentPsbt firstCoin) 10 ++ [depositCheckpoint]

def coordinatorRun (inputs : List Input) : ServerHistory × Server :=
  play (windowOne true).step ((windowOne true).start freshDb) (inputs ++ collectSession)

def sendRefused (node : Node) : Input := ⟨.finalizeSigning [1], refusing node, 0⟩

/-- Sent and refused. -/
def refusedOnce : ServerHistory × Server := coordinatorRun [sendRefused nodeBefore]

/-- Sent, mined and followed, then sent again and refused. -/
def refusedMined : ServerHistory × Server :=
  coordinatorRun [sendRefused nodeMined,
    ⟨.newConsensusCheckpoint payBlockHash [] [], nodeMined.steady payBitcoin, 5⟩,
    ⟨.finalizeSigning [1], nodeBefore.steady payBitcoin, 0⟩]

/-- Another way out: an error. -/
def reported : WayOut := fun _ _ => fail .deepReorg

/-- A payment that is sent and refused twice is looked up in vain the second time.  One that is
sent again after it was mined is forgotten while a followed block names it, and is missing when
the block is finalized. -/
theorem looked_up_in_vain :
    (∃ h server, Run (windowOne true).step ((windowOne true).start freshDb) h server ∧
      ((windowOne true).step server (sendRefused nodeBefore)).1 = .panic ∧
      (sendRefused nodeBefore).request.serveOr reported (windowOne true) (refusing nodeBefore) 0
          ⟨server, 0⟩ ≠
        (sendRefused nodeBefore).request.serve (windowOne true) (refusing nodeBefore) 0
          ⟨server, 0⟩) ∧
    ∃ h server, Run (windowOne true).step ((windowOne true).start freshDb) h server ∧
      (∃ b ∈ server.scheduler.lastBlocks, ∃ txid ∈ b.relevantTxs, txid ∉ server.scheduler.txs) ∧
      ((windowOne true).step server payCheckpoint).1 =
        .err (.sync .trackedTxNotFoundInPegoutScheduler) := by
  have hpanics : ((windowOne true).step refusedOnce.2 (sendRefused nodeBefore)).1 = .panic :=
    eq_panic_of_isPanic (by decide +kernel)
  have hblocks : refusedMined.2.scheduler.lastBlocks.map (·.relevantTxs) =
      [[payBitcoin.computeTxid (payment firstCoin)]] := by decide +kernel
  refine ⟨⟨refusedOnce.1, refusedOnce.2, Run.play _, hpanics, fun heq => ?_⟩,
    refusedMined.1, refusedMined.2, Run.play _, ?_, eq_err_of_getErr? (by decide +kernel)⟩
  · have herr : ((sendRefused nodeBefore).request.serveOr reported (windowOne true)
        (refusing nodeBefore) 0 ⟨refusedOnce.2, 0⟩).1.getErr? = some (.sync .deepReorg) := by
      decide +kernel
    rw [heq] at herr
    exact absurd herr (by decide +kernel)
  · obtain ⟨b, hb, hrelevant⟩ := mem_map.mp (hblocks ▸ mem_cons_self)
    refine ⟨b, hb, _, hrelevant ▸ mem_cons_self, ?_⟩
    decide +kernel

end Macbeth
