import Macbeth.BtcServer.Consistency
import Macbeth.BtcServer.Node
import Macbeth.BtcServer.TrackedIndex

/-!
# A paid pegout does not wait again

A pegout is paid for good once its id is in the table of finalized pegouts.  A checkpoint
request does not make such a pegout pending, and validation takes it off the pending ones.
The scheduler does not look at the table: when the mempool or the chain loses a tracked
transaction, the pegouts of its row wait again, whatever has become of them.

So the two tables stay apart as long as no tracked transaction delivers a finalized pegout.
Finalizing a block takes away its own transactions only, and their retries deliver the same
pegouts.  `paid_not_pending` is for runs in which a confirmed transaction has no retry.
-/

namespace Macbeth

open Handler Stage List FinMap AList

/-! ## Statement -/

/-- The transaction is in a block that is followed, or that the node serves. -/
def Confirmed (config : Config) (s : Scheduler) (bitcoind : Bitcoind) (txid : Txid) : Prop :=
  (∃ b ∈ s.lastBlocks, txid ∈ b.relevantTxs) ∨
    ∃ n hash block, (bitcoind n).block hash = .ok block ∧
      txid ∈ block.txdata.map config.btc.computeTxid

/-- None of the pegouts of a confirmed transaction is pending or delivered by another tracked
one. -/
def Stage.DeliversAlone (conf : Txid → Prop) (c : Stage) : Prop :=
  ∀ txid row, c.scheduler.txs.lookup txid = some row → conf txid → ∀ x ∈ row.pegoutIds,
    x ∉ c.db.pendingPegouts ∧
      ∀ txid' row', txid' ≠ txid → c.db.trackedTxs.lookup txid' = some row' → x ∉ row'.pegoutIds

/-- What a request must not meet. -/
def PaysAlone (config : Config) (server : Server) (input : Input) : Prop :=
  match input.request with
  | .newConsensusCheckpoint .. | .getPsbt .. =>
    (server.stage .searching).DeliversAlone (Confirmed config server.scheduler input.bitcoind)
  | .resetWalletState _ => False
  | _ => True

/-! ## The table of finalized pegouts -/

namespace Db

theorem keyedBy_foldl_pruneRecord {now : BitVec 64} :
    ∀ {ps : List FinalizedPegout} {m : FinMap PegoutId FinalizedPegout},
      m.KeyedBy (·.id) → (ps.foldl (pruneRecord now) m).KeyedBy (·.id)
  | [], _, h => h
  | p :: ps, m, h => by
    refine keyedBy_foldl_pruneRecord (m := pruneRecord now m p) ?_
    unfold pruneRecord
    split
    · split
      · exact h.erase _
      · exact h
    · exact h.insert { p with timestamp := some now }

theorem mem_of_mem_foldl_pruneRecord {now : BitVec 64} {id : PegoutId} :
    ∀ {ps : List FinalizedPegout} {m : FinMap PegoutId FinalizedPegout},
      id ∈ ps.foldl (pruneRecord now) m → id ∈ ps.map (·.id) ∨ id ∈ m
  | [], _, h => .inr h
  | p :: ps, m, h => by
    rw [map_cons, mem_cons]
    rw [foldl_cons] at h
    obtain h | h := mem_of_mem_foldl_pruneRecord h
    · exact .inl (.inr h)
    · unfold pruneRecord at h
      split at h
      · split at h
        · exact .inr ((mem_erase).mp h).2
        · exact .inr h
      · obtain h | h := (mem_insert _).mp h
        · exact .inl (.inl h)
        · exact .inr h

/-- Finalizing pegouts adds their ids and no others. -/
theorem mem_of_mem_finalizePegouts {db : Db} {requests : List PegoutRequest} {now : Nat}
    {id : PegoutId} (hkeyed : db.finalizedPegoutIds.KeyedBy (·.id))
    (h : id ∈ (db.finalizePegouts requests now).finalizedPegoutIds) :
    id ∈ requests.map (·.id) ∨ id ∈ db.finalizedPegoutIds := by
  unfold finalizePegouts at h
  split at h
  · exact .inr h
  · have hstored : id ∈ (db.storeFinalizedPegoutIds (requests.map .ofRequest)).finalizedPegoutIds := by
      obtain h | h := mem_of_mem_foldl_pruneRecord h
      · obtain ⟨p, hp, rfl⟩ := mem_map.mp h
        obtain ⟨k, hk⟩ := mem_values.mp hp
        have hid : p.id = k := (hkeyed.insertNewAll : FinMap.KeyedBy FinalizedPegout.id _) k p hk
        exact mem_iff_lookup.mpr ⟨p, by rw [hid]; exact hk⟩
      · exact h
    rw [mem_finalized_store, map_map] at hstored
    exact hstored

theorem keyedBy_finalizePegouts {db : Db} {requests : List PegoutRequest} {now : Nat}
    (h : db.finalizedPegoutIds.KeyedBy (·.id)) :
    (db.finalizePegouts requests now).finalizedPegoutIds.KeyedBy (·.id) := by
  unfold finalizePegouts
  split
  · exact h
  · exact keyedBy_foldl_pruneRecord h.insertNewAll

end Db

/-! ## One move -/

/-- No finalized pegout is pending or delivered by a tracked transaction. -/
structure Db.PaidApart (db : Db) : Prop where
  keyed : db.finalizedPegoutIds.KeyedBy (·.id)
  pending : ∀ x ∈ db.finalizedPegoutIds, x ∉ db.pendingPegouts
  rows : ∀ txid row, db.trackedTxs.lookup txid = some row →
    ∀ x ∈ row.pegoutIds, x ∉ db.finalizedPegoutIds

namespace Db.PaidApart

variable {db db' : Db}

/-- Fewer pending pegouts and rows, and the same finalized ones. -/
theorem shrink (h : db.PaidApart) (hfinal : db'.finalizedPegoutIds = db.finalizedPegoutIds)
    (hpending : ∀ x, x ∈ db'.pendingPegouts → x ∈ db.pendingPegouts)
    (hrows : ∀ txid row, db'.trackedTxs.lookup txid = some row →
      db.trackedTxs.lookup txid = some row) : db'.PaidApart where
  keyed := hfinal ▸ h.keyed
  pending x hx := fun hmem => h.pending x (hfinal ▸ hx) (hpending x hmem)
  rows txid row hrow x hx := hfinal ▸ h.rows txid row (hrows txid row hrow) x hx

theorem removeTrackedTx (h : db.PaidApart) (txid : Txid) : (db.removeTrackedTx txid).PaidApart :=
  h.shrink rfl (fun _ => id) fun _ _ => lookup_of_lookup_erase

/-- Pegouts that are not finalized may wait. -/
theorem storePendingPegouts (h : db.PaidApart) {reqs : List PegoutRequest}
    (hreqs : ∀ x ∈ reqs.map (·.id), x ∉ db.finalizedPegoutIds) :
    (db.storePendingPegouts reqs).PaidApart where
  keyed := by simpa using h.keyed
  pending x hx := by
    rw [storePendingPegouts_finalizedPegoutIds] at hx
    rw [mem_pending_store, not_or]
    exact ⟨fun hmem => hreqs x hmem hx, h.pending x hx⟩
  rows := by simpa using h.rows

/-- A lost transaction: its pegouts wait again. -/
theorem untrack (h : db.PaidApart) {txid : Txid} {tx : Tx}
    (hrow : db.trackedTxs.lookup txid = some tx) :
    ((db.removeTrackedTx txid).storePendingPegouts tx.pegoutRequests).PaidApart :=
  (h.removeTrackedTx txid).storePendingPegouts (h.rows txid tx hrow)

/-- A confirmed transaction whose pegouts nothing else waits for or delivers. -/
theorem finalize (h : db.PaidApart) {txid : Txid} {tx : Tx} {now : Nat}
    (halone : ∀ x ∈ tx.pegoutIds, x ∉ db.pendingPegouts ∧
      ∀ txid' row', txid' ≠ txid → db.trackedTxs.lookup txid' = some row' → x ∉ row'.pegoutIds) :
    ((db.finalizePegouts tx.pegoutRequests now).removeTrackedTx txid).PaidApart where
  keyed := keyedBy_finalizePegouts h.keyed
  pending x hx := by
    simp only [Db.removeTrackedTx, finalizePegouts_pendingPegouts]
    obtain hx | hx := mem_of_mem_finalizePegouts h.keyed hx
    · exact (halone x hx).1
    · exact h.pending x hx
  rows t row hrow x hx hmem := by
    simp only [Db.removeTrackedTx, finalizePegouts_trackedTxs, lookup_erase_eq] at hrow
    split at hrow
    · cases hrow
    · next hne =>
      obtain hmem | hmem := mem_of_mem_finalizePegouts h.keyed hmem
      · exact (halone x hmem).2 t row hne hrow hx
      · exact h.rows t row hrow x hx hmem

/-- A new row delivers pegouts that wait. -/
theorem storeTrackedTx (h : db.PaidApart) {tx : Tx}
    (hids : ∀ x ∈ tx.pegoutIds, x ∈ db.pendingPegouts) : (db.storeTrackedTx tx).PaidApart where
  keyed := h.keyed
  pending := h.pending
  rows t row hrow x hx hmem := by
    rw [Db.storeTrackedTx, lookup_insert_eq] at hrow
    split at hrow
    · obtain rfl := Option.some.inj hrow
      exact h.pending x hmem (hids x hx)
    · exact h.rows t row hrow x hx hmem

end Db.PaidApart

section moves
variable {config : Config} {input : Input} {c c' : Stage} {conf : Txid → Prop}

/-- What may be finalized next is delivered by one transaction. -/
def Stage.FinalizesAlone (c : Stage) : Prop :=
  ∀ b inputs txid row, c.phase = .finalizing b inputs → txid ∈ b.relevantTxs →
    c.scheduler.txs.lookup txid = some row → ∀ x ∈ row.pegoutIds, x ∉ c.db.pendingPegouts ∧
      ∀ txid' row', txid' ≠ txid → c.db.trackedTxs.lookup txid' = some row' → x ∉ row'.pegoutIds

theorem Move.paidApart (hmove : Move config input c c') (hcons : c.Consistent)
    (halone : c.FinalizesAlone) (hreset : ∀ pegouts, input.request ≠ .resetWalletState pegouts)
    (h : c.db.PaidApart) : c'.db.PaidApart := by
  cases hmove with
  | untrack hphase htxid hrow => exact h.untrack (hcons.memory _ _ hrow)
  | dropUnconfirmed m n hsync hphase hrow => exact h.untrack (hcons.memory _ _ hrow)
  | dropParent => exact h.removeTrackedTx _
  | finalizeMissing => exact h.removeTrackedTx _
  | untrackRefused => exact h.removeTrackedTx _
  | finalizeTx n hphase htxid hrow => exact h.finalize (halone _ _ _ _ hphase htxid hrow)
  | track hreq htx hids htxid htx' hrequests =>
    refine h.storeTrackedTx fun x hx => ?_
    obtain ⟨p, hp, rfl⟩ := mem_map.mp hx
    rw [hrequests] at hp
    obtain ⟨k, hk⟩ := mem_values.mp (mem_filter.mp hp).1
    have hid : p.id = k := hcons.keyed.pending k p hk
    exact mem_iff_lookup.mpr ⟨p, by rw [hid]; exact hk⟩
  | storePegouts =>
    refine h.storePendingPegouts fun x hx hfinal => ?_
    obtain ⟨p, hp, rfl⟩ := mem_map.mp hx
    have hfilter := (mem_filter.mp hp).2
    have hids : p.id ∈ c.db.finalizedIds := hfinal
    simp [hids] at hfilter
  | dropFinalized => exact h.shrink rfl (fun x hx => (Db.mem_pending_remove.mp hx).2) fun _ _ => id
  | removePending => exact h.shrink rfl (fun x hx => (Db.mem_pending_remove.mp hx).2) fun _ _ => id
  | clearPending => exact h.shrink rfl (fun x hx => absurd hx (notMem_empty _)) fun _ _ => id
  | resetFinalized _ hreq => exact absurd hreq (hreset _)
  | _ => exact h.shrink rfl (fun _ => id) fun _ _ => id

/-! ## The condition along a synchronization -/

/-- The followed blocks hold confirmed transactions, and these deliver alone. -/
structure Stage.Settles (conf : Txid → Prop) (c : Stage) : Prop where
  held : ∀ b, c.Holds b → ∀ txid ∈ b.relevantTxs, conf txid
  alone : c.DeliversAlone conf

theorem Stage.Settles.finalizesAlone (h : c.Settles conf) : c.FinalizesAlone :=
  fun b inputs txid row hphase htxid hrow =>
    h.alone txid row hrow (h.held b (.inr ⟨inputs, hphase⟩) txid htxid)

/-- Fewer rows, and no pending pegout that a confirmed transaction delivers. -/
theorem Stage.DeliversAlone.shrink (h : c.DeliversAlone conf)
    (hmemory : ∀ txid row, c'.scheduler.txs.lookup txid = some row →
      c.scheduler.txs.lookup txid = some row)
    (htable : ∀ txid row, c'.db.trackedTxs.lookup txid = some row →
      c.db.trackedTxs.lookup txid = some row)
    (hpending : ∀ txid row, c'.scheduler.txs.lookup txid = some row → conf txid →
      ∀ x ∈ row.pegoutIds, x ∈ c'.db.pendingPegouts → x ∈ c.db.pendingPegouts) :
    c'.DeliversAlone conf := by
  intro txid row hrow hconf x hx
  obtain ⟨hnot, hothers⟩ := h txid row (hmemory txid row hrow) hconf x hx
  refine ⟨fun hmem => hnot (hpending txid row hrow hconf x hx hmem), ?_⟩
  exact fun txid' row' hne hrow' => hothers txid' row' hne (htable txid' row' hrow')

/-- A lost transaction puts back only what no confirmed one delivers. -/
theorem Stage.DeliversAlone.untrack (h : c.DeliversAlone conf) (hcons : c.Consistent) {txid : Txid}
    {tx : Tx} (htx : c.scheduler.txs.lookup txid = some tx) :
    (c.untrack txid tx).DeliversAlone conf := by
  refine h.shrink (fun _ _ => lookup_of_lookup_erase) (fun t row hrow => ?_)
    fun t row hrow hconf x hx hmem => ?_
  · simp only [Stage.untrack, Db.storePendingPegouts_trackedTxs, Db.removeTrackedTx] at hrow
    exact lookup_of_lookup_erase hrow
  · have hne : txid ≠ t := by
      rintro rfl
      simp [Stage.untrack, Scheduler.forget] at hrow
    obtain hmem | hmem := Db.mem_pending_store.mp hmem
    · have hrow := lookup_of_lookup_erase hrow
      exact absurd hmem ((h t row hrow hconf x hx).2 txid tx hne (hcons.memory txid tx htx))
    · exact hmem

theorem stable_settles (hsync : input.request.syncs)
    (hserved : ∀ n hash block, (input.bitcoind n).block hash = .ok block →
      ∀ txid ∈ block.txdata.map config.btc.computeTxid, conf txid) :
    Stable config input fun c => c.Consistent ∧ c.Settles conf := by
  rintro c c' hmove ⟨hcons, h⟩
  refine ⟨stable_consistent c c' hmove hcons, ?_, ?_⟩
  · -- blocks
    cases hmove with
    | rollBack =>
      exact fun b hb => h.held b (.inl (mem_of_mem_dropLast (hb.mem fun _ _ h => by cases h)))
    | rolledBack => exact fun b hb => h.held b (.inl (hb.mem fun _ _ h => by cases h))
    | follow => exact fun b hb => h.held b (.inl (hb.mem fun _ _ h => by cases h))
    | finalized => exact fun b hb => h.held b (.inl (hb.mem fun _ _ h => by cases h))
    | addBlock n _ hphase _ _ _ hblock =>
      intro b hb txid htxid
      have hmem := hb.mem fun _ _ hfinal => by
        rw [hphase] at hfinal
        cases hfinal
      rcases mem_append.mp hmem with hmem | hmem
      · exact h.held b (.inl hmem) txid htxid
      · rw [mem_singleton.mp hmem] at htxid
        exact hserved n _ _ hblock txid (mem_filter.mp htxid).1
    | popBlock _ hblocks =>
      rintro b (hb | ⟨_, hb⟩)
      · exact h.held b (.inl (hblocks ▸ mem_cons_of_mem _ hb))
      · cases hb
        exact h.held _ (.inl (hblocks ▸ mem_cons_self))
    | collectInputs hphase =>
      rintro b (hb | ⟨_, hb⟩)
      · exact h.held b (.inl hb)
      · cases hb
        exact h.held _ (.inr ⟨_, hphase⟩)
    | track hreq => exact absurd hreq (hsync.ne_round2 _)
    | _ => exact h.held
  · -- pegouts
    cases hmove with
    | untrack hphase htxid hrow => exact DeliversAlone.untrack h.alone hcons hrow
    | dropUnconfirmed m n _ hphase hrow => exact DeliversAlone.untrack h.alone hcons hrow
    | dropParent =>
      exact DeliversAlone.shrink h.alone (fun _ _ => lookup_of_lookup_erase)
        (fun _ _ => lookup_of_lookup_erase) fun _ _ _ _ _ _ => id
    | finalizeMissing =>
      exact DeliversAlone.shrink h.alone (fun _ _ => id)
        (fun _ _ => lookup_of_lookup_erase) fun _ _ _ _ _ _ => id
    | untrackRefused hreq => rw [hreq] at hsync; exact hsync.elim
    | track hreq => exact absurd hreq (hsync.ne_round2 _)
    | finalizeTx =>
      refine DeliversAlone.shrink h.alone (fun _ _ => lookup_of_lookup_erase)
        (fun t row hrow => ?_) fun _ _ _ _ x _ hmem => ?_
      · simp only [Stage.dropTx, Db.removeTrackedTx, Db.finalizePegouts_trackedTxs] at hrow
        exact lookup_of_lookup_erase hrow
      · simpa [Stage.dropTx, Db.removeTrackedTx] using hmem
    | storePegouts =>
      refine DeliversAlone.shrink h.alone (fun _ _ => id) (fun t row hrow => by simpa using hrow) ?_
      intro t row hrow hconf x hx hmem
      obtain hmem | hmem := Db.mem_pending_store.mp hmem
      · -- what a tracked transaction delivers is filtered out
        obtain ⟨p, hp, rfl⟩ := mem_map.mp hmem
        have htracked : p.id ∈ c.scheduler.trackedPegoutRequestIds :=
          mem_flatMap.mpr ⟨row, mem_values.mpr ⟨t, hrow⟩, hx⟩
        have hfilter := (mem_filter.mp hp).2
        simp [htracked] at hfilter
      · exact hmem
    | dropFinalized =>
      exact DeliversAlone.shrink h.alone (fun _ _ => id) (fun _ _ => id)
        fun _ _ _ _ _ _ hmem => (Db.mem_pending_remove.mp hmem).2
    | removePending hreq => rw [hreq] at hsync; exact hsync.elim
    | clearPending hreq => exact absurd hreq (hsync.ne_round2 _)
    | _ => exact DeliversAlone.shrink h.alone (fun _ _ => id) (fun _ _ => id) fun _ _ _ _ _ _ => id

end moves

/-! ## Runs -/

section runs
variable {config : Config} {input : Input} {server : Server}

theorem paidApart_step (hpays : PaysAlone config server input)
    (hcons : (server.stage .searching).Consistent) (h : server.db.PaidApart) :
    ((config.step server input).2.stage .searching).Consistent ∧
      (config.step server input).2.db.PaidApart := by
  have hreset : ∀ pegouts, input.request ≠ .resetWalletState pegouts := by
    intro pegouts hreq
    rw [PaysAlone, hreq] at hpays
    exact hpays
  by_cases hsync : input.request.syncs
  · have halone : (server.stage .searching).DeliversAlone
        (Confirmed config server.scheduler input.bitcoind) := by
      unfold PaysAlone at hpays
      revert hpays hsync
      cases input.request <;> intro hpays hsync <;> first | exact hpays | exact hsync.elim
    have hsettles : (server.stage .searching).Settles
        (Confirmed config server.scheduler input.bitcoind) :=
      ⟨fun b hb txid htxid => .inl ⟨b, hb.mem (fun _ _ h => by cases h), htxid⟩, halone⟩
    have hstable : Stable config input fun c => c.Consistent ∧
        c.Settles (Confirmed config server.scheduler input.bitcoind) ∧ c.db.PaidApart := by
      rintro c c' hmove ⟨hcons, hsettles, h⟩
      obtain ⟨hcons', hsettles'⟩ := stable_settles hsync
        (fun n hash block hblock txid htxid => .inr ⟨n, hash, block, hblock, htxid⟩) c c' hmove
        ⟨hcons, hsettles⟩
      exact ⟨hcons', hsettles', hmove.paidApart hcons hsettles.finalizesAlone hreset h⟩
    exact hcons.step hstable hsettles h
  · have hstable : Stable config input fun c => c.Consistent ∧ c.phase = .searching ∧
        c.db.PaidApart := by
      rintro c c' hmove ⟨hcons, hphase, h⟩
      refine ⟨stable_consistent c c' hmove hcons, stable_searching config hsync c c' hmove hphase,
        hmove.paidApart hcons (fun b inputs txid row hfinal => ?_) hreset h⟩
      rw [hphase] at hfinal
      cases hfinal
    exact hcons.step hstable rfl h

/-- In every run without a reset of the wallet state in which, at every synchronization, the
pegouts of a confirmed tracked transaction are neither pending nor delivered by another, no
pegout is both final and pending after any request. -/
theorem paid_not_pending (config : Config) {db : Db} (hkeyed : db.Keyed) (hapart : db.PaidApart)
    {h : ServerHistory} {server : Server} (hrun : Run config.step (config.start db) h server)
    (hmeets : Meets (fun _ => PaysAlone config) h) :
    ∀ x ∈ server.db.finalizedPegoutIds, x ∉ server.db.pendingPegouts := by
  have hinv : (server.stage .searching).Consistent ∧ server.db.PaidApart :=
    hrun.invariant (I := fun _ server => (server.stage .searching).Consistent ∧ server.db.PaidApart)
      ⟨consistent_start config hkeyed, hapart⟩
      (fun _ _ _ _ hi hpays => paidApart_step hpays hi.1 hi.2) hmeets
  exact hinv.2.pending

end runs

/-! ## A payment and its retry, one of them final -/

/-- The first block after genesis, with the payment. -/
def payBlock : Block :=
  ⟨⟨1, genesisHash, 0xd9835c192d4c3ae1aea7cf35180461382dd886a12159b905b67b99ed5e0fac24, 1700000600,
    0x207fffff, 0⟩, [coinbase 1, payment firstCoin]⟩

def payBlockHash : BlockHash := 0x264e68e62ada86af1dee713c947dcd4add849d46c4654a9246d9e36d06408eeb

/-- The block after it. -/
def nextBlock : Block :=
  ⟨⟨1, payBlockHash, 0x658bf685a12daecf97437eabfb3965f88fe86f99a9fc022b8087be7b83f33c98, 1700001200,
    0x207fffff, 0⟩, [coinbase 2]⟩

/-- The hashes of this chain and of the transactions in it. -/
def payBitcoin : BitcoinLib :=
  { retryBitcoin with
    blockHash header :=
      if header = genesis.header then genesisHash
      else if header = payBlock.header then payBlockHash
      else if header = nextBlock.header then
        0x12fdf2982ffce838241bd105011bdd299dc7551f5c0b9479c66c490f79b40530
      else 0
    computeTxid tx :=
      if tx.stripped = coinbase 0 then
        0x2969ea724c3414261d74a08bab6e4c3747e22aa198033238339187fcad1992b8
      else if tx.stripped = coinbase 1 then
        0x3309f7fc68de07117de8648d1accd22e735d4bd03f0e31080a463af06380f5cc
      else if tx.stripped = coinbase 2 then
        0x658bf685a12daecf97437eabfb3965f88fe86f99a9fc022b8087be7b83f33c98
      else retryBitcoin.computeTxid tx }

/-- The node before and after the two blocks. -/
def nodeBefore : Node := { youngNode with coins := [firstCoin] }

def nodeAfter : Node :=
  ⟨0, [genesis, payBlock, nextBlock], [], [firstCoin], [], 1700001210 * nanosPerSec⟩

/-- A member of the federation whose window is one block. -/
def windowOne (isCoordinator : Bool) : Config :=
  { firstSigner with
    btc := payBitcoin
    isCoordinator := isCoordinator
    confWindow := 1
    fallbackCheckpoint := genesisHash }

/-- The PSBT of the retry. -/
def retryPsbt (commitments : List (Identifier × SigningCommitments)) : Psbt :=
  { paymentPsbt firstCoin commitments with unsignedTx := retry }

/-- The requests of a signing session, the second round first. -/
def signSession (psbt : List (Identifier × SigningCommitments) → Psbt) (k : BitVec 256) : List Input :=
  [⟨.getRound2SigningPackage (psbt [(1, (noncePair k).2), (2, (noncePair 100).2)]),
      nodeBefore.steady payBitcoin, 0⟩,
    ⟨.getRound1SigningPackage (psbt []) fun _ => noncePair k, nodeBefore.steady payBitcoin, 0⟩]

/-- The checkpoint that brings the coin and the pegout. -/
def depositCheckpoint : Input :=
  ⟨.newConsensusCheckpoint genesisHash
    [⟨some ⟨Bytes.toLE 32 0xa, 0⟩, some ⟨some (p2tr 7), 100000⟩, []⟩]
    [⟨samplePegoutId.asBytes, p2tr 9, 90000, 1, 1700000000⟩], nodeBefore.steady payBitcoin, 5⟩

/-- The checkpoint at the block of the payment. -/
def payCheckpoint : Input :=
  ⟨.newConsensusCheckpoint payBlockHash [] [], nodeAfter.steady payBitcoin, 5⟩

/-- The server after the given sessions between the two checkpoints. -/
def retriedServer (isCoordinator : Bool) (sessions : List Input) : Server :=
  (play (windowOne isCoordinator).step ((windowOne isCoordinator).start freshDb)
    (payCheckpoint :: sessions ++ [depositCheckpoint])).2

theorem freshDb_paidApart : freshDb.PaidApart where
  keyed := keyedBy_empty
  pending x hx := absurd hx (notMem_empty x)
  rows _ _ hrow := by simp [freshDb] at hrow

/-- The condition read off the two copies of the tracked transactions. -/
theorem deliversAlone_of_entries {conf : Txid → Prop} {c : Stage}
    (h : ∀ e ∈ c.scheduler.txs.entries, ∀ x ∈ e.2.pegoutIds, x ∉ c.db.pendingPegouts ∧
      ∀ e' ∈ c.db.trackedTxs.entries, e'.1 ≠ e.1 → x ∉ e'.2.pegoutIds) : c.DeliversAlone conf := by
  intro txid row hrow _ x hx
  obtain ⟨hpending, hothers⟩ := h ⟨txid, row⟩ (mem_lookup_iff.mp hrow) x hx
  exact ⟨hpending, fun txid' row' hne hrow' =>
    hothers ⟨txid', row'⟩ (mem_lookup_iff.mp hrow') hne⟩

/-- A signer that has signed the payment only: the pegout is final and does not wait. -/
theorem single_payment_not_pending :
    samplePegoutId ∈ (retriedServer false (signSession (paymentPsbt firstCoin) 10)).db.finalizedPegoutIds ∧
      ∀ x ∈ (retriedServer false (signSession (paymentPsbt firstCoin) 10)).db.finalizedPegoutIds,
        x ∉ (retriedServer false (signSession (paymentPsbt firstCoin) 10)).db.pendingPegouts := by
  refine ⟨by decide +kernel, paid_not_pending (windowOne false)
    ⟨keyedBy_empty, keyedBy_empty⟩ freshDb_paidApart
    (Run.play (payCheckpoint :: signSession (paymentPsbt firstCoin) 10 ++ [depositCheckpoint]))
    ⟨?_, trivial, trivial, ?_, trivial⟩⟩
  · refine deliversAlone_of_entries ?_
    decide +kernel
  · refine deliversAlone_of_entries ?_
    decide +kernel

/-- The requests of a run with truthful nodes and without a reset. -/
def Honest (btc : BitcoinLib) (input : Input) : Prop :=
  (∃ node : Node, input.bitcoind = node.steady btc) ∧
    ∀ pegouts, input.request ≠ .resetWalletState pegouts

/-- A coordinator that has signed the payment and its retry: when the payment is final the
retry is lost by the mempool, and the pegout is final and pending. -/
theorem paid_pegout_pending :
    ∃ h server, Run (windowOne true).step ((windowOne true).start freshDb) h server ∧
      (∀ t ∈ h, Honest payBitcoin t.input) ∧
      samplePegoutId ∈ server.db.finalizedPegoutIds ∧ samplePegoutId ∈ server.db.pendingPegouts := by
  have hrun : Run (windowOne true).step ((windowOne true).start freshDb) _
      (retriedServer true (signSession retryPsbt 20 ++ signSession (paymentPsbt firstCoin) 10)) :=
    Run.play _
  refine ⟨_, _, hrun, fun t ht => ?_, by decide +kernel, by decide +kernel⟩
  have hinput := mem_of_mem_play _ _ ht
  simp only [signSession, cons_append, nil_append, mem_cons, not_mem_nil,
    or_false] at hinput
  obtain h | h | h | h | h | h := hinput
  all_goals
    rw [h]
    exact ⟨⟨_, rfl⟩, nofun⟩

end Macbeth
