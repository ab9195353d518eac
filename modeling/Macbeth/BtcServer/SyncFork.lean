import Macbeth.BtcServer.Sync
import Macbeth.Peg.Soundness

/-!
# The fork a synchronization goes back to (`sync_until`)

Against a node that holds still on a chain, the first half of `sync_until` is determined by the
followed blocks that are in that chain.  The last of them is the fork.  The blocks above it are
rolled back, which takes that the node still knows them and that their transactions are tracked
(`rollbackToChain_cases`).  What is to be synchronized is the chain above the fork
(`blocksToSync_cases`), and the followed blocks up to the fork are the chain's own, as far down as
they reach (`Fork.segment`).
-/

namespace Macbeth

open Handler Outcome List Option AList Outcome

/-! ## A node that holds still -/

section chain
variable {btc : BitcoinLib}

namespace BitcoinChain

/-- The hashes of the blocks, by height. -/
def hashes (chain : BitcoinChain btc) : List BlockHash :=
  chain.blocks.map fun b => btc.blockHash b.header

/-- The hash is that of a block above a height. -/
def Above (chain : BitcoinChain btc) (height : Nat) (hash : BlockHash) : Prop :=
  ∃ i, height < i ∧ chain.hashes[i]? = some hash

end BitcoinChain

/-- What the node says of a block of its chain. -/
structure InfoAt (chain : BitcoinChain btc) (i : Nat) (info : BlockHeaderInfo) : Prop where
  hash : chain.hashes[i]? = some info.hash
  height : info.height = i
  confirmed : 0 < info.confirmations
  prev : ∀ j, i = j + 1 → ∃ hash, chain.hashes[j]? = some hash ∧ info.previousBlockHash = some hash

/-- A node that holds still on a chain. -/
structure SteadyOn (chain : BitcoinChain btc) (bitcoind : Bitcoind) : Prop where
  nonempty : chain.blocks ≠ []
  steady : ∀ n, (bitcoind n).blockHeaderInfo = (bitcoind 0).blockHeaderInfo
  best : ∀ n, ∃ hash, chain.hashes.getLast? = some hash ∧ (bitcoind n).bestBlockHash = .ok hash
  header : ∀ i hash, chain.hashes[i]? = some hash →
    ∃ info, (bitcoind 0).blockHeaderInfo hash = .ok info ∧ InfoAt chain i info
  block : ∀ n b, b ∈ chain.blocks → (bitcoind n).block (btc.blockHash b.header) = .ok b
  other : ∀ hash info, hash ∉ chain.hashes → (bitcoind 0).blockHeaderInfo hash = .ok info →
    info.confirmations ≤ 0

/-- The headers of the followed blocks, which `add_block` has seen to be linked. -/
structure Scheduler.Follows (btc : BitcoinLib) (s : Scheduler) (headers : List Header) : Prop where
  hashes : headers.map btc.blockHash = s.lastBlocks.map (·.hash)
  linked : HashChain.Linked btc.blockHash Header.prevBlockhash headers

/-- No header among the given ones or the chain's is taken for another of the chain. -/
def BitcoinChain.CollisionFree (chain : BitcoinChain btc) (headers : List Header) : Prop :=
  ∀ x ∈ chain.blocks.map Block.header ++ headers, ∀ y ∈ chain.blocks.map Block.header,
    btc.blockHash x = btc.blockHash y → x = y

/-- The followed blocks up to the last one in the chain, at the given height, and those above
it. -/
structure Fork (chain : BitcoinChain btc) (s : Scheduler) (kept dropped : List BlockInfo)
    (height : Nat) : Prop where
  split : s.lastBlocks = kept ++ dropped
  last : ∃ b, kept.getLast? = some b ∧ chain.hashes[height]? = some b.hash
  notMem : ∀ b ∈ dropped, b.hash ∉ chain.hashes

/-- The blocks can be rolled back: the node knows them, and their transactions are tracked. -/
structure Removable (bitcoind : Bitcoind) (s : Scheduler) (dropped : List BlockInfo) : Prop where
  known : ∀ b ∈ dropped, ∃ info, (bitcoind 0).blockHeaderInfo b.hash = .ok info
  nodup : (dropped.flatMap (·.relevantTxs)).Nodup
  tracked : ∀ b ∈ dropped, ∀ txid ∈ b.relevantTxs, txid ∈ s.txs

end chain

/-! ## The search for the fork -/

section search
variable {btc : BitcoinLib} {chain : BitcoinChain btc} {bitcoind : Bitcoind}
variable {hash : BlockHash}

theorem SteadyOn.callNode_header (hnode : SteadyOn chain bitcoind) {i : Nat}
    (hi : chain.hashes[i]? = some hash) : ∃ info, InfoAt chain i info ∧
      ∀ s, callNode bitcoind (·.blockHeaderInfo hash) s =
        (.ok info, { s with calls := s.calls + 1 }) := by
  obtain ⟨info, hinfo, hat⟩ := hnode.header i hash hi
  refine ⟨info, hat, fun s => ?_⟩
  simp only [callNode, hnode.steady, hinfo, Outcome.ofExcept]

theorem SteadyOn.getTip (hnode : SteadyOn chain bitcoind) : ∃ tip,
    InfoAt chain (chain.blocks.length - 1) tip ∧
      ∀ s, getTip bitcoind s = (.ok tip, { s with calls := s.calls + 2 }) := by
  obtain ⟨hash, hlast, -⟩ := hnode.best 0
  have hi : chain.hashes[chain.blocks.length - 1]? = some hash := by
    simpa [BitcoinChain.hashes, getLast?_eq_getElem?] using hlast
  obtain ⟨tip, hat, hcall⟩ := hnode.callNode_header hi
  refine ⟨tip, hat, fun s => ?_⟩
  obtain ⟨best, hbest, hanswer⟩ := hnode.best s.calls
  obtain rfl : hash = best := some.inj (hlast.symm.trans hbest)
  simp only [Macbeth.getTip, bind_run]
  rw [show callNode bitcoind (·.bestBlockHash) s = (.ok hash, { s with calls := s.calls + 1 }) by
    simp only [callNode, hanswer, Outcome.ofExcept]]
  exact hcall _

/-- Two states that differ in the number of calls at most. -/
structure SyncState.SameTables (s s' : SyncState) : Prop where
  db : s.db = s'.db
  scheduler : s.scheduler = s'.scheduler

/-- What the search for the fork leaves as it was. -/
structure SameTarget (s s' : Scheduler) : Prop where
  lastFinalized : s'.lastFinalized = s.lastFinalized
  confWindow : s'.confWindow = s.confWindow

theorem rollbackTx_run {txid : Txid} {tx : Tx} {s : SyncState}
    (htx : s.scheduler.txs.lookup txid = some tx) : rollbackTx txid s =
      (.ok (), { s with
        scheduler := { s.scheduler.forget txid tx with
          confirmedTxs := s.scheduler.confirmedTxs.filter (· ≠ txid) }
        db := (s.db.removeTrackedTx txid).storePendingPegouts tx.pegoutRequests }) := by
  simp [rollbackTx, unTrackTx, addTxBackToPending, updateScheduler, updateDb, bind_run, htx,
    Handler.expect, Scheduler.forget]

/-- The transactions of a block are rolled back when each of them is tracked, once. -/
theorem forM_rollbackTx_cases : ∀ (txids : List Txid) (s : SyncState),
    (∃ s', txids.forM rollbackTx s = (.ok (), s') ∧
      (txids.Nodup ∧ ∀ txid ∈ txids, txid ∈ s.scheduler.txs) ∧
      (∀ txid, txid ∈ s'.scheduler.txs ↔ txid ∈ s.scheduler.txs ∧ txid ∉ txids) ∧
      s'.scheduler.lastBlocks = s.scheduler.lastBlocks ∧ SameTarget s.scheduler s'.scheduler) ∨
    ((∀ s', txids.forM rollbackTx s ≠ (.ok (), s')) ∧
      ¬ (txids.Nodup ∧ ∀ txid ∈ txids, txid ∈ s.scheduler.txs)) := by
  intro txids
  induction txids with
  | nil => exact fun s => .inl ⟨s, rfl, by simp, by simp, rfl, rfl, rfl⟩
  | cons txid txids ih =>
    intro s
    rw [List.forM_eq_forM, List.forM_cons, bind_run]
    cases htx : s.scheduler.txs.lookup txid with
    | none =>
      have hmissing : txid ∉ s.scheduler.txs := lookup_eq_none.mp htx
      refine .inr ⟨?_, fun h => hmissing (h.2 txid mem_cons_self)⟩
      simp [rollbackTx, bind_run, htx, Handler.expect]
    | some tx =>
      have hmem : txid ∈ s.scheduler.txs := lookup_isSome.mp (by rw [htx]; rfl)
      rw [rollbackTx_run htx]
      -- the rest is tracked afterwards if it was, and is not this one again
      obtain ⟨s', hrun, hpre, htxs, hblocks, hsame⟩ | ⟨hrun, hpre⟩ := ih { s with
        scheduler := { s.scheduler.forget txid tx with
          confirmedTxs := s.scheduler.confirmedTxs.filter (· ≠ txid) }
        db := (s.db.removeTrackedTx txid).storePendingPegouts tx.pegoutRequests }
      · refine .inl ⟨s', hrun, ?_, ?_, hblocks, hsame.1, hsame.2⟩
        · simp only [Scheduler.forget, mem_erase] at hpre
          grind
        · simp only [Scheduler.forget, mem_erase] at htxs
          grind
      · refine .inr ⟨hrun, ?_⟩
        simp only [Scheduler.forget, mem_erase] at hpre
        grind

variable {s : Scheduler} {kept dropped : List BlockInfo} {height : Nat}

theorem Fork.kept_ne_nil (h : Fork chain s kept dropped height) : kept ≠ [] := by
  obtain ⟨b, hb, -⟩ := h.last
  rintro rfl
  cases hb

theorem Fork.lastBlocks_ne_nil (h : Fork chain s kept dropped height) : s.lastBlocks ≠ [] := by
  rw [h.split]
  exact append_ne_nil_of_left_ne_nil h.kept_ne_nil _

variable {last : BlockInfo}

/-- A last block outside the chain is above the fork. -/
theorem fork_concat_iff {s' : Scheduler} {front : List BlockInfo}
    (hs : s.lastBlocks = front ++ [last]) (hs' : s'.lastBlocks = front)
    (hlast : last.hash ∉ chain.hashes) :
    Fork chain s kept dropped height ↔
      ∃ rest, dropped = rest ++ [last] ∧ Fork chain s' kept rest height := by
  constructor
  · intro h
    obtain ⟨b, hb, hheight⟩ := h.last
    obtain rfl | ⟨rest, x, rfl⟩ := eq_nil_or_concat dropped
    · -- the last block would be the one at the height of the fork
      have hlastb : some last = some b := by rw [← hb, ← append_nil kept, ← h.split, hs]; simp
      obtain rfl := some.inj hlastb
      exact absurd (mem_of_getElem? hheight) hlast
    · have hsplit : front ++ [last] = (kept ++ rest) ++ [x] := by
        rw [← hs, h.split, append_assoc, concat_eq_append]
      obtain ⟨rfl, hx⟩ := append_inj' hsplit rfl
      obtain rfl : last = x := by simpa using hx
      exact ⟨rest, concat_eq_append, hs', ⟨b, hb, hheight⟩, fun y hy =>
        h.notMem y (by simp [hy])⟩
  · rintro ⟨rest, rfl, h⟩
    refine ⟨by rw [hs, ← hs', h.split, append_assoc], h.last, fun y hy => ?_⟩
    obtain hy | hy := mem_append.mp hy
    · exact h.notMem y hy
    · exact mem_singleton.mp hy ▸ hlast

variable {info : BlockHeaderInfo}

/-- The blocks below the last one can be rolled back after it. -/
theorem removable_concat_iff {s' : Scheduler} {rest : List BlockInfo}
    (hinfo : (bitcoind 0).blockHeaderInfo last.hash = .ok info)
    (hpre : last.relevantTxs.Nodup ∧ ∀ txid ∈ last.relevantTxs, txid ∈ s.txs)
    (htxs : ∀ txid, txid ∈ s'.txs ↔ txid ∈ s.txs ∧ txid ∉ last.relevantTxs) :
    Removable bitcoind s (rest ++ [last]) ↔ Removable bitcoind s' rest := by
  have hnodup : ((rest ++ [last]).flatMap (·.relevantTxs)).Nodup ↔
      (rest.flatMap (·.relevantTxs)).Nodup ∧
        ∀ b ∈ rest, ∀ txid ∈ b.relevantTxs, txid ∉ last.relevantTxs := by
    rw [flatMap_append, nodup_append]
    simp only [flatMap_cons, flatMap_nil, append_nil, mem_flatMap]
    grind
  constructor
  · intro h
    have hnodup := hnodup.mp h.nodup
    exact ⟨fun b hb => h.known b (mem_append_left _ hb), hnodup.1, fun b hb txid htxid =>
      (htxs txid).mpr ⟨h.tracked b (mem_append_left _ hb) txid htxid,
        hnodup.2 b hb txid htxid⟩⟩
  · intro h
    have htracked b (hb : b ∈ rest) txid (htxid : txid ∈ b.relevantTxs) :=
      (htxs txid).mp (h.tracked b hb txid htxid)
    refine ⟨fun b hb => ?_, hnodup.mpr ⟨h.nodup, fun b hb txid htxid =>
      (htracked b hb txid htxid).2⟩, fun b hb => ?_⟩
    · obtain hb | hb := mem_append.mp hb
      · exact h.known b hb
      · exact ⟨info, mem_singleton.mp hb ▸ hinfo⟩
    · obtain hb | hb := mem_append.mp hb
      · exact fun txid htxid => (htracked b hb txid htxid).1
      · exact mem_singleton.mp hb ▸ hpre.2

theorem SteadyOn.infoAt (hnode : SteadyOn chain bitcoind) {i : Nat}
    (hi : chain.hashes[i]? = some hash) (hinfo : (bitcoind 0).blockHeaderInfo hash = .ok info) :
    InfoAt chain i info := by
  obtain ⟨info', hinfo', hat⟩ := hnode.header i hash hi
  obtain rfl : info = info' := Except.ok.inj (hinfo.symm.trans hinfo')
  exact hat

/-- The confirmations tell the blocks of the chain. -/
theorem SteadyOn.confirmations_pos_iff (hnode : SteadyOn chain bitcoind)
    (hinfo : (bitcoind 0).blockHeaderInfo hash = .ok info) :
    0 < info.confirmations ↔ hash ∈ chain.hashes := by
  constructor
  · intro hconf
    by_contra hmem
    exact absurd (hnode.other _ _ hmem hinfo) (not_le.mpr hconf)
  · intro hmem
    obtain ⟨i, hi⟩ := mem_iff_getElem?.mp hmem
    exact (hnode.infoAt hi hinfo).confirmed

/-- Where there is a fork to go back to, the node knows the last followed block. -/
theorem Fork.known {front : List BlockInfo} (hnode : SteadyOn chain bitcoind)
    (hs : s.lastBlocks = front ++ [last]) (h : Fork chain s kept dropped height)
    (hremove : Removable bitcoind s dropped) :
    ∃ info, (bitcoind 0).blockHeaderInfo last.hash = .ok info := by
  by_cases hlast : last.hash ∈ chain.hashes
  · obtain ⟨i, hi⟩ := mem_iff_getElem?.mp hlast
    obtain ⟨info, hinfo, -⟩ := hnode.header i _ hi
    exact ⟨info, hinfo⟩
  · have hfront : ({ s with lastBlocks := front } : Scheduler).lastBlocks = front := rfl
    obtain ⟨rest, rfl, -⟩ := (fork_concat_iff hs hfront hlast).mp h
    exact hremove.known last (by simp)

/-- The inner loop ends at the fork, if what is above it can be rolled back. -/
theorem rollbackToChain_cases (hnode : SteadyOn chain bitcoind) : ∀ (fuel : Nat) (s : SyncState),
    s.scheduler.lastBlocks.length < fuel →
    (∃ kept dropped height info s', rollbackToChain bitcoind fuel s = (.ok info, s') ∧
      Fork chain s.scheduler kept dropped height ∧ Removable bitcoind s.scheduler dropped ∧
      InfoAt chain height info ∧ s'.scheduler.lastBlocks = kept ∧
      SameTarget s.scheduler s'.scheduler ∧ (dropped = [] → s'.SameTables s)) ∨
    ((∀ info s', rollbackToChain bitcoind fuel s ≠ (.ok info, s')) ∧
      ∀ kept dropped height, Fork chain s.scheduler kept dropped height →
        ¬ Removable bitcoind s.scheduler dropped) := by
  intro fuel
  induction fuel with
  | zero => exact fun s h => absurd h (Nat.not_lt_zero _)
  | succ fuel ih =>
    intro s hfuel
    rw [rollbackToChain]
    obtain hs | ⟨front, last, hs⟩ := eq_nil_or_concat s.scheduler.lastBlocks
    · -- nothing is followed
      exact .inr ⟨by simp [bind_run, hs, Handler.expect], fun _ _ _ h =>
        absurd hs h.lastBlocks_ne_nil⟩
    rw [concat_eq_append] at hs
    cases hinfo : (bitcoind 0).blockHeaderInfo last.hash with
    | error e =>
      refine .inr ⟨?_, fun kept dropped height h hremove => ?_⟩
      · simp [bind_run, hs, Handler.expect, callNode, hnode.steady, hinfo, Outcome.ofExcept]
      · obtain ⟨info, hknown⟩ := h.known hnode hs hremove
        rw [hinfo] at hknown
        cases hknown
    | ok info =>
      simp only [bind_run, get_run, hs, getLast?_concat, Handler.expect, lift_run, callNode,
        hnode.steady, hinfo, Outcome.ofExcept]
      have hconf := hnode.confirmations_pos_iff hinfo
      by_cases hlast : last.hash ∈ chain.hashes
      · -- the last block is in the chain
        obtain ⟨i, hi⟩ := mem_iff_getElem?.mp hlast
        rw [if_pos (hconf.mpr hlast)]
        exact .inl ⟨front ++ [last], [], i, info, _, rfl,
          ⟨by simp [hs], ⟨last, by simp, hi⟩, by simp⟩, ⟨by simp, by simp, by simp⟩,
          hnode.infoAt hi hinfo, hs, ⟨rfl, rfl⟩, fun _ => ⟨rfl, rfl⟩⟩
      · rw [if_neg (mt hconf.mp hlast)]
        simp only [bind_run, get_run, hs, length_append, length_singleton]
        have hs₁ : ({ s.scheduler with lastBlocks := front } : Scheduler).lastBlocks = front := rfl
        by_cases hfront : front = []
        · -- the only followed block is gone
          refine .inr ⟨by simp [hfront], fun kept dropped height h _ => ?_⟩
          obtain ⟨rest, -, h⟩ := (fork_concat_iff hs hs₁ hlast).mp h
          exact h.lastBlocks_ne_nil hfront
        rw [if_neg (by simpa using hfront)]
        -- one block less is followed, and its transactions are no longer tracked
        have htip : rollbackTip { s with calls := s.calls + 1 } = last.relevantTxs.forM rollbackTx
            { s with calls := s.calls + 1, scheduler := { s.scheduler with lastBlocks := front } } := by
          simp [rollbackTip, bind_run, hs, Handler.expect, updateScheduler]
        rw [bind_run, htip]
        obtain ⟨s', hrun, hpre, htxs, hblocks, hsame⟩ | ⟨hrun, hpre⟩ :=
          forM_rollbackTx_cases last.relevantTxs { s with
            calls := s.calls + 1, scheduler := { s.scheduler with lastBlocks := front } }
        · have hfork := fun kept dropped height =>
            @fork_concat_iff _ chain _ kept dropped height last _ front hs hblocks hlast
          have hremove := fun rest => @removable_concat_iff bitcoind s.scheduler last info s'.scheduler
            rest hinfo hpre htxs
          have hfuel' : s'.scheduler.lastBlocks.length < fuel := by
            rw [hs, length_append, length_singleton] at hfuel
            rw [hblocks]
            exact Nat.lt_of_succ_lt_succ hfuel
          rw [hrun]
          obtain ⟨kept, rest, height, info', s'', hback, h, hr, hat, hkept, hsame', -⟩ |
            ⟨hback, hnone⟩ := ih s' hfuel'
          · exact .inl ⟨kept, rest ++ [last], height, info', s'', hback,
              (hfork kept _ height).mpr ⟨rest, rfl, h⟩, (hremove rest).mpr hr, hat, hkept,
              ⟨hsame'.lastFinalized.trans hsame.lastFinalized,
                hsame'.confWindow.trans hsame.confWindow⟩, by simp⟩
          · refine .inr ⟨hback, fun kept dropped height h hr => ?_⟩
            obtain ⟨rest, rfl, hrest⟩ := (hfork kept dropped height).mp h
            exact hnone kept rest height hrest ((hremove rest).mp hr)
        · refine .inr ⟨?_, fun kept dropped height h hr => hpre ?_⟩
          · rcases hx : last.relevantTxs.forM rollbackTx _ with ⟨_ | _ | _, s'⟩
            · exact absurd hx (hrun s')
            · simp
            · simp
          · obtain ⟨rest, rfl, -⟩ := (fork_concat_iff hs hs₁ hlast).mp h
            have hnodup := hr.nodup
            rw [flatMap_append, nodup_append] at hnodup
            exact ⟨by simpa using hnodup.2.1, hr.tracked last (by simp)⟩

/-- The walk down from a block of the chain collects the blocks above the fork. -/
theorem collectHashes_run (hnode : SteadyOn chain bitcoind) {last : BlockHeaderInfo}
    (hlast : InfoAt chain height last) :
    ∀ {fuel i : Nat} {cursor : BlockHeaderInfo} (s : SyncState), InfoAt chain i cursor →
    height < i → i ≤ height + fuel →
    ∃ n, collectHashes bitcoind last fuel cursor (chain.hashes.drop i) s =
      (.ok (chain.hashes.drop (height + 1)), { s with calls := n }) := by
  intro fuel
  induction fuel with
  | zero => intro i cursor s _ hlt hle; omega
  | succ fuel ih =>
    intro i cursor s hat hlt hle
    obtain ⟨j, rfl⟩ : ∃ j, i = j + 1 := ⟨i - 1, by omega⟩
    obtain ⟨hash, hj, hprev⟩ := hat.prev j rfl
    obtain ⟨info, hinfo, hcall⟩ := hnode.callNode_header hj
    simp only [collectHashes, bind_run, Handler.expect, hprev, lift_run, hcall, hinfo.height,
      hlast.height]
    by_cases heq : j = height
    · have hhash : info.hash = last.hash :=
        some.inj (hinfo.hash.symm.trans (heq ▸ hlast.hash))
      simp [heq, hhash, bind_run, Handler.assert]
    · rw [if_neg heq]
      obtain ⟨hlen, hget⟩ := List.getElem?_eq_some_iff.mp hinfo.hash
      rw [← hget, ← drop_eq_getElem_cons hlen]
      exact ih _ hinfo (by omega) (by omega)

/-- The blocks to synchronize are those above the fork. -/
theorem blocksToSync_cases (hnode : SteadyOn chain bitcoind) {fuel : Nat}
    (hfuel : chain.blocks.length ≤ fuel) (s : SyncState) :
    (∃ kept dropped height s',
      blocksToSync bitcoind fuel s = (.ok (chain.hashes.drop (height + 1)), s') ∧
      Fork chain s.scheduler kept dropped height ∧ Removable bitcoind s.scheduler dropped ∧
      s'.scheduler.lastBlocks = kept ∧ SameTarget s.scheduler s'.scheduler ∧
      (dropped = [] → s'.SameTables s)) ∨
    ((∀ hashes s', blocksToSync bitcoind fuel s ≠ (.ok hashes, s')) ∧
      ∀ kept dropped height, Fork chain s.scheduler kept dropped height →
        ¬ Removable bitcoind s.scheduler dropped) := by
  have hpos : 0 < chain.blocks.length := length_pos_iff.mpr hnode.nonempty
  obtain ⟨fuel, rfl⟩ : ∃ n, fuel = n + 1 := ⟨fuel - 1, by omega⟩
  obtain ⟨tip, htip, hget⟩ := hnode.getTip
  obtain ⟨kept, dropped, height, last, s', hback, h, hr, hat, hkept, hsame, htables⟩ |
    ⟨hback, hnone⟩ := rollbackToChain_cases hnode (s.scheduler.lastBlocks.length + 1)
      { s with calls := s.calls + 2 } (Nat.lt_succ_self _)
  · suffices hrun : ∃ n, blocksToSync bitcoind (fuel + 1) s =
        (.ok (chain.hashes.drop (height + 1)), { s' with calls := n }) by
      obtain ⟨n, hrun⟩ := hrun
      exact .inl ⟨kept, dropped, height, _, hrun, h, hr, hkept, ⟨hsame.lastFinalized,
        hsame.confWindow⟩, fun hnil => ⟨(htables hnil).db, (htables hnil).scheduler⟩⟩
    simp only [blocksToSync, findFork, bind_run, hget, get_run, hback, if_true, pure_run, hat.height,
      htip.height]
    obtain ⟨hlen, hgetTip⟩ := List.getElem?_eq_some_iff.mp htip.hash
    obtain ⟨hheight, -⟩ := List.getElem?_eq_some_iff.mp hat.hash
    have hlength : chain.hashes.length = chain.blocks.length := length_map _
    by_cases heq : height = chain.blocks.length - 1
    · -- the last followed block is the tip
      have hhash : tip.hash = last.hash :=
        some.inj (htip.hash.symm.trans (heq ▸ hat.hash))
      have hnil : chain.hashes.drop (chain.blocks.length - 1 + 1) = [] :=
        drop_eq_nil_of_le (by omega)
      simp [heq, hhash, hnil, bind_run, Handler.assert]
    · have hdrop : [tip.hash] = chain.hashes.drop (chain.blocks.length - 1) := by
        rw [drop_eq_getElem_cons hlen, hgetTip, drop_eq_nil_of_le (by omega)]
      rw [if_neg heq, hdrop]
      exact collectHashes_run hnode hat _ htip (by omega) (by omega)
  · refine .inr ⟨?_, hnone⟩
    simp only [blocksToSync, findFork, bind_run, hget, get_run]
    rcases hx : rollbackToChain bitcoind _ _ with ⟨_ | _ | _, s'⟩
    · exact absurd hx (hback _ s')
    · simp
    · simp

end search

/-! ## The followed blocks in the chain -/

section segment
variable {btc : BitcoinLib} {chain : BitcoinChain btc} {bitcoind : Bitcoind} {headers : List Header}
  {s : Scheduler} {kept dropped : List BlockInfo} {height : Nat}

theorem BitcoinChain.hashes_eq (chain : BitcoinChain btc) :
    chain.hashes = (chain.blocks.map Block.header).map btc.blockHash := by
  rw [List.map_map]
  rfl

/-- A hash stands at one height only. -/
theorem BitcoinChain.CollisionFree.height_unique (hfree : chain.CollisionFree headers) {i j : Nat}
    {hash : BlockHash} (hi : chain.hashes[i]? = some hash) (hj : chain.hashes[j]? = some hash) :
    i = j := by
  rw [chain.hashes_eq, getElem?_map, map_eq_some_iff] at hi hj
  obtain ⟨a, ha, rfl⟩ := hi
  obtain ⟨b, hb, hab⟩ := hj
  exact chain.linked.index_unique (fun x hx => hfree x (mem_append_left _ hx))
    (fun g hg x _ => chain.genesis g hg x) ha hb hab.symm

/-- A followed block at or below the fork is the one of the chain as far below it. -/
theorem Fork.hashes_getElem? (h : Fork chain s kept dropped height)
    (hfollow : s.Follows btc headers) (hfree : chain.CollisionFree headers) {j : Nat} {b : BlockInfo}
    (hb : kept[j]? = some b) :
    kept.length - j ≤ height + 1 ∧
      chain.hashes[height + 1 - (kept.length - j)]? = some b.hash := by
  obtain ⟨hj, -⟩ := List.getElem?_eq_some_iff.mp hb
  obtain ⟨last, hlast, hheight⟩ := h.last
  -- the headers from this block up to the fork are a linked run that ends in the chain
  obtain ⟨hk, hd, rfl, hhk, -⟩ : ∃ hk hd, headers = hk ++ hd ∧
      hk.map btc.blockHash = kept.map (·.hash) ∧ hd.map btc.blockHash = dropped.map (·.hash) := by
    have hsplit := hfollow.hashes
    rw [h.split, map_append, map_eq_append_iff] at hsplit
    exact hsplit
  have hlen : hk.length = kept.length := by simpa using congrArg List.length hhk
  obtain hnil | ⟨below, c, hrun⟩ := eq_nil_or_concat (hk.drop j)
  · have := drop_eq_nil_iff.mp hnil
    omega
  rw [concat_eq_append] at hrun
  have hbelow : below.length + 1 = kept.length - j := by
    have := congrArg List.length hrun
    simpa [hlen, eq_comm] using this
  have hlinked : HashChain.Linked btc.blockHash Header.prevBlockhash (below ++ [c]) := by
    rw [← hrun]
    exact (HashChain.Linked.of_append hfollow.linked).drop j
  have hc : btc.blockHash c = last.hash := by
    have hhk_last : hk.getLast? = some c := by
      rw [← take_append_drop j hk, hrun, ← append_assoc, getLast?_concat]
    have := congrArg getLast? hhk
    simpa [getLast?_map, hhk_last, hlast] using this
  have hfree' : ∀ x ∈ below ++ [c], ∀ y ∈ chain.blocks.map Block.header,
      btc.blockHash x = btc.blockHash y → x = y := by
    intro x hx
    rw [← hrun] at hx
    exact hfree x (mem_append_right _ (mem_append_left _ (mem_of_mem_drop hx)))
  rw [chain.hashes_eq, getElem?_map, map_eq_some_iff] at hheight
  obtain ⟨d, hd, hdlast⟩ := hheight
  obtain ⟨hle, hhead⟩ := HashChain.head?_eq_of_last chain.linked below hlinked hfree'
    (fun x _ g hg => chain.genesis g hg x) hd (hc.trans hdlast.symm)
  refine ⟨by omega, ?_⟩
  have hj : hk[j]?.map btc.blockHash = some b.hash := by
    rw [← getElem?_map, hhk, getElem?_map, hb]
    rfl
  rw [chain.hashes_eq, getElem?_map, show height + 1 - (kept.length - j) =
    height - below.length by omega, ← hhead, ← hrun, head?_drop, hj]

/-- The blocks are those of the chain from a height on. -/
def Segment (chain : BitcoinChain btc) (start : Nat) (blocks : List BlockInfo) : Prop :=
  ∀ j b, blocks[j]? = some b → chain.hashes[start + j]? = some b.hash

theorem Fork.segment (h : Fork chain s kept dropped height) (hfollow : s.Follows btc headers)
    (hfree : chain.CollisionFree headers) :
    kept.length ≤ height + 1 ∧ Segment chain (height + 1 - kept.length) kept := by
  have hpos : 0 < kept.length := length_pos_iff.mpr h.kept_ne_nil
  have hle : kept.length ≤ height + 1 :=
    (h.hashes_getElem? hfollow hfree (getElem?_eq_getElem hpos)).1
  refine ⟨hle, fun j b hb => ?_⟩
  obtain ⟨hj, -⟩ := List.getElem?_eq_some_iff.mp hb
  rw [show height + 1 - kept.length + j = height + 1 - (kept.length - j) by omega]
  exact (h.hashes_getElem? hfollow hfree hb).2

theorem Fork.unique {kept' dropped' : List BlockInfo} {height' : Nat}
    (hfree : chain.CollisionFree headers) (h : Fork chain s kept dropped height)
    (h' : Fork chain s kept' dropped' height') :
    kept = kept' ∧ dropped = dropped' ∧ height = height' := by
  -- a longer kept part would end in a dropped block
  have hnil : ∀ {k d k' d' : List BlockInfo} {i i' : Nat} (more : List BlockInfo),
      Fork chain s k d i → Fork chain s k' d' i' → k' = k ++ more → d = more ++ d' → more = [] := by
    intro k d k' d' i i' more hk hk' hkk hdd
    obtain rfl | ⟨front, x, rfl⟩ := eq_nil_or_concat more
    · rfl
    · obtain ⟨b, hb, hi⟩ := hk'.last
      rw [hkk, concat_eq_append, ← append_assoc, getLast?_concat] at hb
      obtain rfl := some.inj hb
      exact absurd (mem_of_getElem? hi) (hk.notMem x (by simp [hdd]))
  have hsplit : kept = kept' ∧ dropped = dropped' := by
    obtain ⟨more, hk, hd⟩ | ⟨more, hk, hd⟩ :=
      append_eq_append_iff.mp (h.split.symm.trans h'.split)
    · obtain rfl := hnil more h h' hk hd
      simp_all
    · obtain rfl := hnil more h' h hk hd
      simp_all
  obtain ⟨b, hb, hi⟩ := h.last
  obtain ⟨b', hb', hi'⟩ := h'.last
  rw [hsplit.1, hb'] at hb
  obtain rfl := some.inj hb
  exact ⟨hsplit.1, hsplit.2, hfree.height_unique hi hi'⟩

end segment

end Macbeth
