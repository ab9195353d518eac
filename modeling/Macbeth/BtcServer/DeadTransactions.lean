import Macbeth.BtcServer.TrackedIndex

/-!
# What a finalized block leaves tracked (`finalize_block`)

When a block is final, a transaction that spends an outpoint the block has spent can never
confirm.  `finalize_block` drops the tracked transactions of the block, and for every input
that the block spends the transaction with the input's own id: that is the one that created
the input, not one that spends it.  `finalizeBlock_tracked` says exactly what is left, and
`no_spender_tracked_iff` when no spender is among it.
-/

namespace Macbeth

open Outcome Handler FinMap

/-- The input is spent by a transaction of the block, as far as the scheduler recorded it. -/
def BlockInfo.Spends (b : BlockInfo) (s : Scheduler) (op : OutPoint) : Prop :=
  op ∈ b.relevantInputs ∨
    ∃ txid ∈ b.relevantTxs, ∃ row, s.txs.lookup txid = some row ∧ op ∈ row.inputs

/-- The transaction created an input that the block spends. -/
def BlockInfo.SpendsFrom (b : BlockInfo) (s : Scheduler) (txid : Txid) : Prop :=
  ∃ op, b.Spends s op ∧ op.txid = txid

theorem mem_finalizedInputs {s : Scheduler} {b : BlockInfo} {op : OutPoint} :
    op ∈ finalizedInputs s b ↔ b.Spends s op := by
  simp only [finalizedInputs, List.mem_dedup, List.mem_append, List.mem_flatMap, BlockInfo.Spends]
  refine or_congr_right (exists_congr fun txid => and_congr_right fun _ => ?_)
  cases s.txs.lookup txid <;> simp

/-! ## The three loops -/

/-- What is tracked after a step: all but `M` in memory, all but `T` in the table. -/
structure SyncState.Leaves (s s' : SyncState) (M T : Txid → Prop) : Prop where
  memory : ∀ txid row, s'.scheduler.txs.lookup txid = some row ↔
    s.scheduler.txs.lookup txid = some row ∧ ¬ M txid
  table : ∀ txid row, s'.db.trackedTxs.lookup txid = some row ↔
    s.db.trackedTxs.lookup txid = some row ∧ ¬ T txid

namespace SyncState.Leaves

variable {s s₁ s₂ : SyncState} {M M' T T' : Txid → Prop}

/-- Neither copy changes. -/
theorem same (hmemory : s₁.scheduler.txs = s.scheduler.txs)
    (htable : s₁.db.trackedTxs = s.db.trackedTxs) : s.Leaves s₁ (fun _ => False) fun _ => False :=
  ⟨fun _ _ => by simp [hmemory], fun _ _ => by simp [htable]⟩

theorem trans (h : s.Leaves s₁ M T) (h' : s₁.Leaves s₂ M' T') :
    s.Leaves s₂ (fun txid => M txid ∨ M' txid) fun txid => T txid ∨ T' txid := by
  refine ⟨fun txid row => ?_, fun txid row => ?_⟩
  · rw [h'.memory, h.memory, not_or, and_assoc]
  · rw [h'.table, h.table, not_or, and_assoc]

theorem congr (h : s.Leaves s₁ M T) (hM : ∀ txid, M txid ↔ M' txid) (hT : ∀ txid, T txid ↔ T' txid) :
    s.Leaves s₁ M' T' := by
  refine ⟨fun txid row => ?_, fun txid row => ?_⟩
  · rw [h.memory, hM]
  · rw [h.table, hT]

theorem mem_memory (h : s.Leaves s₁ M T) (txid : Txid) :
    txid ∈ s₁.scheduler.txs ↔ txid ∈ s.scheduler.txs ∧ ¬ M txid := by
  simp only [mem_iff_lookup, h.memory, exists_and_right]

end SyncState.Leaves

section loops
variable {bitcoind : Bitcoind}

theorem lookup_eq_some_and_ne {κ ν : Type} [DecidableEq κ] {m : FinMap κ ν} {k k' : κ} {v : ν}
    (h : k ∉ m) : m.lookup k' = some v ↔ m.lookup k' = some v ∧ ¬ k' = k := by
  refine ⟨fun hv => ⟨hv, ?_⟩, And.left⟩
  rintro rfl
  exact h (mem_iff_lookup.mpr ⟨v, hv⟩)

/-- The change of a transaction is stored, or it is not tracked and the call fails. -/
theorem storeChange_leaves {spk : Option ScriptBuf} {txid : Txid} {s s' : SyncState}
    (h : storeChange spk txid s = (.ok (), s')) :
    s'.scheduler = s.scheduler ∧ s'.db.trackedTxs = s.db.trackedTxs := by
  simp only [storeChange, bind_run, get_run, lift_run] at h
  cases htx : s.scheduler.txs.lookup txid with
  | none =>
    rw [htx] at h
    cases h
  | some tx =>
    rw [htx] at h
    cases spk with
    | none =>
      cases h
      exact ⟨rfl, rfl⟩
    | some spk =>
      cases h
      exact ⟨rfl, rfl⟩

theorem forM_storeChange_leaves {spk : Option ScriptBuf} : ∀ {txids : List Txid} {s s' : SyncState},
    txids.forM (storeChange spk) s = (.ok (), s') →
    s'.scheduler = s.scheduler ∧ s'.db.trackedTxs = s.db.trackedTxs
  | [], s, s', h => by
    obtain ⟨-, rfl⟩ := Prod.mk.inj h
    exact ⟨rfl, rfl⟩
  | txid :: txids, s, s', h => by
    obtain ⟨_, s₁, hhead, htail⟩ := Handler.bind_eq_ok.mp h
    obtain ⟨hmemory, htable⟩ := storeChange_leaves hhead
    obtain ⟨hmemory', htable'⟩ := forM_storeChange_leaves htail
    exact ⟨hmemory'.trans hmemory, htable'.trans htable⟩

/-- A spent input takes the transaction that created it with it. -/
theorem spendInput_leaves (op : OutPoint) (s : SyncState) :
    ∃ s', spendInput op s = (.ok (), s') ∧
      s.Leaves s' (· = op.txid) fun txid => txid = op.txid ∧ txid ∈ s.scheduler.txs := by
  by_cases htracked : op.txid ∈ s.scheduler.txs
  · simp only [spendInput, updateScheduler, updateDb, bind_run, get_run, update_run, htracked,
      if_true]
    refine ⟨_, rfl, fun txid row => lookup_erase_eq_some, fun txid row => ?_⟩
    refine lookup_erase_eq_some.trans (and_congr_right fun _ => not_congr ?_)
    exact ⟨fun h => ⟨h, h ▸ htracked⟩, And.left⟩
  · simp only [spendInput, updateDb, bind_run, get_run, update_run, htracked, if_false]
    refine ⟨_, rfl, fun txid row => lookup_eq_some_and_ne htracked, fun txid row => ?_⟩
    refine ⟨fun h => ⟨h, ?_⟩, And.left⟩
    rintro ⟨rfl, hmem⟩
    exact htracked hmem

theorem forM_spendInput_leaves : ∀ (ops : List OutPoint) (s : SyncState),
    ∃ s', ops.forM spendInput s = (.ok (), s') ∧
      s.Leaves s' (fun txid => ∃ op ∈ ops, op.txid = txid)
        fun txid => (∃ op ∈ ops, op.txid = txid) ∧ txid ∈ s.scheduler.txs
  | [], s => ⟨s, rfl, (SyncState.Leaves.same rfl rfl).congr (by simp) (by simp)⟩
  | op :: ops, s => by
    obtain ⟨s₁, hhead, hleaves⟩ := spendInput_leaves op s
    obtain ⟨s', htail, hleaves'⟩ := forM_spendInput_leaves ops s₁
    refine ⟨s', Handler.bind_eq_ok.mpr ⟨_, s₁, hhead, htail⟩, (hleaves.trans hleaves').congr ?_ ?_⟩
    · intro txid
      simp [eq_comm]
    · intro txid
      rw [hleaves.mem_memory]
      have hcons : (∃ op' ∈ op :: ops, op'.txid = txid) ↔
          txid = op.txid ∨ ∃ op' ∈ ops, op'.txid = txid := by
        simp [eq_comm]
      rw [hcons]
      tauto

/-- A confirmed transaction is dropped, in memory and in the table. -/
theorem finalizeTx_leaves (txid : Txid) (s : SyncState) :
    ∃ s', finalizeTx bitcoind txid s = (.ok (), s') ∧ s.Leaves s' (· = txid) (· = txid) := by
  cases htx : s.scheduler.txs.lookup txid with
  | none =>
    simp only [finalizeTx, updateDb, bind_run, get_run, update_run, htx]
    exact ⟨_, rfl, fun t row => lookup_eq_some_and_ne (AList.lookup_eq_none.mp htx),
      fun t row => lookup_erase_eq_some⟩
  | some tx =>
    by_cases hnil : tx.pegoutRequests.map FinalizedPegout.ofRequest = []
    · simp only [finalizeTx, updateScheduler, updateDb, bind_run, get_run, update_run, htx, hnil,
        ne_eq, not_true_eq_false, if_false]
      exact ⟨_, rfl, fun t row => lookup_erase_eq_some, fun t row => lookup_erase_eq_some⟩
    · simp only [finalizeTx, updateScheduler, updateDb, tryNode, bind_run, get_run, update_run, htx,
        hnil, ne_eq, not_false_eq_true, if_true]
      exact ⟨_, rfl, fun t row => lookup_erase_eq_some, fun t row => lookup_erase_eq_some⟩

theorem forM_finalizeTx_leaves : ∀ (txids : List Txid) (s : SyncState),
    ∃ s', txids.forM (finalizeTx bitcoind) s = (.ok (), s') ∧
      s.Leaves s' (· ∈ txids) (· ∈ txids)
  | [], s => ⟨s, rfl, (SyncState.Leaves.same rfl rfl).congr (by simp) (by simp)⟩
  | txid :: txids, s => by
    obtain ⟨s₁, hhead, hleaves⟩ := @finalizeTx_leaves bitcoind txid s
    obtain ⟨s', htail, hleaves'⟩ := forM_finalizeTx_leaves txids s₁
    exact ⟨s', Handler.bind_eq_ok.mpr ⟨_, s₁, hhead, htail⟩,
      (hleaves.trans hleaves').congr (by simp) (by simp)⟩

end loops

/-! ## The whole block -/

section whole
variable {btc : BitcoinLib} {lib : SigningLib} {bitcoind : Bitcoind} {b : BlockInfo}
  {s s' : SyncState}

/-- What is tracked after a block is finalized: not its own transactions, and not those that
created an input it spends; a row that only the table has stays in the second case. -/
theorem finalizeBlock_tracked (h : finalizeBlock btc lib bitcoind b s = (.ok (), s')) :
    s.Leaves s' (fun txid => txid ∈ b.relevantTxs ∨ b.SpendsFrom s.scheduler txid)
      fun txid => txid ∈ b.relevantTxs ∨
        (b.SpendsFrom s.scheduler txid ∧ txid ∈ s.scheduler.txs) := by
  have h₁ := get_bind_eq_ok.mp h
  obtain ⟨pk, s₀, hpk, h₂⟩ := Handler.bind_eq_ok.mp h₁
  rw [(lift_eq_ok.mp hpk).2] at h₂
  obtain ⟨_, s₁, hstore, h₃⟩ := Handler.bind_eq_ok.mp h₂
  obtain ⟨hmemory, htable⟩ := forM_storeChange_leaves hstore
  have h₄ := get_bind_eq_ok.mp h₃
  obtain ⟨s₂, hspend, hleaves⟩ := forM_spendInput_leaves (finalizedInputs s₁.scheduler b) s₁
  obtain ⟨s₃, hfinalize, hleaves'⟩ := @forM_finalizeTx_leaves bitcoind b.relevantTxs s₂
  obtain ⟨_, _, hspend', h₅⟩ := Handler.bind_eq_ok.mp h₄
  obtain ⟨-, rfl⟩ := Prod.mk.inj (hspend.symm.trans hspend')
  obtain ⟨_, s₃', hfinalize', h₆⟩ := Handler.bind_eq_ok.mp h₅
  rw [← (Prod.mk.inj (hfinalize.symm.trans hfinalize')).2] at h₆
  obtain ⟨_, s₄, hfit, h₇⟩ := Handler.bind_eq_ok.mp (get_bind_eq_ok.mp h₆)
  rw [(lift_eq_ok.mp hfit).2] at h₇
  obtain ⟨-, rfl⟩ := Prod.mk.inj h₇
  have hall := ((SyncState.Leaves.same (congrArg Scheduler.txs hmemory) htable).trans hleaves).trans
    hleaves'
  rw [hmemory] at hall
  have hdone : s.Leaves s₃ (fun txid => txid ∈ b.relevantTxs ∨ b.SpendsFrom s.scheduler txid)
      fun txid => txid ∈ b.relevantTxs ∨
        (b.SpendsFrom s.scheduler txid ∧ txid ∈ s.scheduler.txs) := by
    refine hall.congr (fun txid => ?_) fun txid => ?_
    · simp only [mem_finalizedInputs, BlockInfo.SpendsFrom, false_or, or_comm]
    · simp only [mem_finalizedInputs, BlockInfo.SpendsFrom, false_or, or_comm]
  exact ⟨hdone.memory, hdone.table⟩

/-- After a block is finalized no tracked transaction spends an outpoint, exactly when every
tracked one that does is in the block or created an input that the block spends. -/
theorem no_spender_tracked_iff (h : finalizeBlock btc lib bitcoind b s = (.ok (), s'))
    (op : OutPoint) :
    (∀ txid row, s'.scheduler.txs.lookup txid = some row ∨ s'.db.trackedTxs.lookup txid = some row →
      op ∉ row.inputs) ↔
    ∀ txid row, op ∈ row.inputs →
      (s.scheduler.txs.lookup txid = some row →
        txid ∈ b.relevantTxs ∨ b.SpendsFrom s.scheduler txid) ∧
      (s.db.trackedTxs.lookup txid = some row →
        txid ∈ b.relevantTxs ∨ (b.SpendsFrom s.scheduler txid ∧ txid ∈ s.scheduler.txs)) := by
  have hleaves := finalizeBlock_tracked h
  simp only [hleaves.memory, hleaves.table]
  refine forall_congr' fun txid => forall_congr' fun row => ?_
  tauto

end whole

/-! ## A payment and its retry -/

/-- The first block after the scheduler's start, with the payment. -/
def paidBlock : Block :=
  ⟨⟨1, 0, 0xf4f51b465477e4f506d7febbaaea8ca3581cf372f38193cc69d40e39df29c615, 1700000000,
    0x207fffff, 0⟩, [payment firstCoin]⟩

/-- The library with the hash of this block. -/
def paidBitcoin : BitcoinLib :=
  { retryBitcoin with
    blockHash header :=
      if header = paidBlock.header then
        0xbdc147742408c7150a3cb5ec6ef01a75a315427977a2b1633630e0bee0417d66
      else 0 }

/-- A payment and another one are tracked, and the first is confirmed; the newest first. -/
def confirmFirst (second : Transaction) : List SchedulerCall :=
  [offline (.addBlock paidBlock), offline (.addTx second [samplePegout] 20),
    offline (.addTx (payment firstCoin) [samplePegout] 10)]

/-- The scheduler after these calls. -/
def afterConfirm (second : Transaction) : SyncState :=
  (play (schedulerStep paidBitcoin fixedLengthSigning) (newScheduler 6 freshDb 0)
    (confirmFirst second)).2

/-- What the scheduler recorded of the block. -/
def paidInfo : BlockInfo :=
  ⟨0xbdc147742408c7150a3cb5ec6ef01a75a315427977a2b1633630e0bee0417d66,
    [0xf4f51b465477e4f506d7febbaaea8ca3581cf372f38193cc69d40e39df29c615], []⟩

/-- The finalization of the block. -/
def finalizePaid (second : Transaction) : Outcome SyncError Unit × SyncState :=
  finalizeBlock paidBitcoin fixedLengthSigning unreachable paidInfo (afterConfirm second)

theorem finalizePaid_eq_ok {second : Transaction} (h : (finalizePaid second).1.isOk = true) :
    finalizeBlock paidBitcoin fixedLengthSigning unreachable paidInfo (afterConfirm second) =
      (.ok (), (finalizePaid second).2) :=
  Prod.ext (eq_ok_getD h ()) rfl

/-- With a payment of another coin beside it, no spender of the paid coin stays. -/
theorem paid_coin_has_no_spender :
    finalizeBlock paidBitcoin fixedLengthSigning unreachable paidInfo
        (afterConfirm (payment secondCoin)) = (.ok (), (finalizePaid (payment secondCoin)).2) ∧
      ∀ txid row, (finalizePaid (payment secondCoin)).2.scheduler.txs.lookup txid = some row ∨
        (finalizePaid (payment secondCoin)).2.db.trackedTxs.lookup txid = some row →
        firstCoin ∉ row.inputs := by
  have hok := @finalizePaid_eq_ok (payment secondCoin) (by decide +kernel)
  have hmemory : ∀ e ∈ (afterConfirm (payment secondCoin)).scheduler.txs.entries,
      firstCoin ∈ e.2.inputs → e.1 ∈ paidInfo.relevantTxs := by decide +kernel
  have htable : ∀ e ∈ (afterConfirm (payment secondCoin)).db.trackedTxs.entries,
      firstCoin ∈ e.2.inputs → e.1 ∈ paidInfo.relevantTxs := by decide +kernel
  refine ⟨hok, (no_spender_tracked_iff hok firstCoin).mpr fun txid row hop => ⟨?_, ?_⟩⟩
  · exact fun hrow => .inl (hmemory ⟨txid, row⟩ (AList.mem_lookup_iff.mp hrow) hop)
  · exact fun hrow => .inl (htable ⟨txid, row⟩ (AList.mem_lookup_iff.mp hrow) hop)

/-- The retry of the paid transaction stays tracked, in memory and in the table. -/
theorem retry_outlives_payment :
    ∃ h s s', Run (schedulerStep paidBitcoin fixedLengthSigning) (newScheduler 6 freshDb 0) h s ∧
      s.scheduler.lastBlocks.getLast? = some paidInfo ∧
      finalizeBlock paidBitcoin fixedLengthSigning unreachable paidInfo s = (.ok (), s') ∧
      payment firstCoin ∈ paidBlock.txdata ∧ firstCoin ∈ (payment firstCoin).inputs ∧
      (∃ row, s'.scheduler.txs.lookup (paidBitcoin.computeTxid retry) = some row ∧
        firstCoin ∈ row.inputs) ∧
      ∃ row, s'.db.trackedTxs.lookup (paidBitcoin.computeTxid retry) = some row ∧
        firstCoin ∈ row.inputs := by
  have hrun : Run (schedulerStep paidBitcoin fixedLengthSigning) (newScheduler 6 freshDb 0) _
      (afterConfirm retry) := Run.play (confirmFirst retry)
  have hmemory : ((finalizePaid retry).2.scheduler.txs.lookup (paidBitcoin.computeTxid retry)).any
      (fun row => firstCoin ∈ row.inputs) = true := by decide +kernel
  have htable : ((finalizePaid retry).2.db.trackedTxs.lookup (paidBitcoin.computeTxid retry)).any
      (fun row => firstCoin ∈ row.inputs) = true := by decide +kernel
  refine ⟨_, _, _, hrun, by decide +kernel, finalizePaid_eq_ok (by decide +kernel), by decide,
    by decide, ?_, ?_⟩
  · obtain ⟨row, hrow, hmem⟩ := (Option.any_eq_true _ _).mp hmemory
    exact ⟨row, hrow, of_decide_eq_true hmem⟩
  · obtain ⟨row, hrow, hmem⟩ := (Option.any_eq_true _ _).mp htable
    exact ⟨row, hrow, of_decide_eq_true hmem⟩

end Macbeth
