import Macbeth.BtcServer.App
import Macbeth.Lib.InvertedIndex
import Macbeth.Lib.Run

/-!
# The index of tracked inputs

Beside the tracked transactions the scheduler keeps, for every outpoint, the ids of those
that spend it: `txs_by_input`.  With it `add_block` recognizes a confirmed transaction that
is not tracked but spends a coin of one that is.

Tracked transactions share inputs on purpose, since a retry must conflict with what it
replaces.  Two methods do not allow for it.  `un_track_tx` removes whole entries of the
index, with the ids of every other spender, and `finalize_block` removes transactions
without touching the index.  `input_index_exact` is what remains: the index is right along
every sequence of calls in which no transaction is forgotten that shares an input, and no
block is finalized that drops one.
-/

namespace Macbeth

open Outcome Handler FinMap List AList

/-! ## The scheduler as a machine -/

/-- One call of a method of the scheduler. -/
inductive SchedulerOp where
  | addTx (tx : Transaction) (pegouts : List PegoutRequest) (timestamp : Nat)
  | unTrackTx (txid : Txid)
  | rollbackTip
  | addBlock (block : Block)
  | finalizeBlock (block : BlockInfo)
  | trackMempool (checkpoint : BlockHeaderInfo)

section machine
variable (btc : BitcoinLib) (lib : SigningLib)

/-- The method of a call; `add_tx` with the row its only caller stores. -/
def SchedulerOp.call (bitcoind : Bitcoind) : SchedulerOp → Handler SyncState SyncError Unit
  | .addTx tx pegouts timestamp => do
    let s ← Handler.get
    let (tracked, scheduler) ← Handler.lift (s.scheduler.addTx btc
      (s.db.publicKeyPackage.bind (changeScript btc lib)) tx pegouts timestamp)
    updateScheduler fun _ => scheduler
    updateDb (·.storeTrackedTx tracked)
  | .unTrackTx txid => Macbeth.unTrackTx txid
  | .rollbackTip => Macbeth.rollbackTip
  | .addBlock block => Macbeth.addBlock btc block
  | .finalizeBlock block => Macbeth.finalizeBlock btc lib bitcoind block
  | .trackMempool checkpoint => Macbeth.trackMempool bitcoind checkpoint

/-- A call with the node it meets. -/
structure SchedulerCall where
  op : SchedulerOp
  bitcoind : Bitcoind

/-- One call: the outcome and the next state. -/
def schedulerStep (s : SyncState) (call : SchedulerCall) : Outcome SyncError Unit × SyncState :=
  call.op.call btc lib call.bitcoind s

/-- `PegoutScheduler::new` on a database. -/
def newScheduler (confWindow : Nat) (db : Db) (lastFinalized : BlockHash) : SyncState :=
  ⟨db, .new confWindow db.getTrackedTxs lastFinalized, 0⟩

end machine

/-! ## Statement -/

/-- The index lists under every outpoint the tracked transactions that spend it. -/
def Scheduler.Indexed (s : Scheduler) : Prop := Indexes Tx.inputs s.txsByInput s.txs

/-- No other tracked transaction spends an input of this one. -/
def Scheduler.Alone (s : Scheduler) (txid : Txid) : Prop := Unshared Tx.inputs s.txs txid

/-- The node has lost the transaction. -/
def Lost (bitcoind : Bitcoind) (txid : Txid) : Prop :=
  (∃ n e, (bitcoind n).rawTransactionInfo txid = .error e) ∧
    ∃ n, (bitcoind n).mempoolEntry txid = .error .transactionNotInMempool

/-- What a call must not meet: a transaction to forget that shares an input, a block whose
finalization drops a transaction, or two transactions with one id. -/
def KeepsIndex (btc : BitcoinLib) (s : SyncState) (call : SchedulerCall) : Prop :=
  match call.op with
  | .addTx tx .. => ∀ row, s.scheduler.txs.lookup (btc.computeTxid tx) = some row →
      row.inputs = tx.inputs
  | .unTrackTx txid => s.scheduler.Alone txid
  | .rollbackTip => ∀ b, s.scheduler.lastBlocks.getLast? = some b →
      ∀ txid ∈ b.relevantTxs, s.scheduler.Alone txid
  | .addBlock _ => True
  | .finalizeBlock b =>
      (∀ txid ∈ b.relevantTxs, txid ∉ s.scheduler.txs) ∧
        ∀ op ∈ b.relevantInputs, op.txid ∉ s.scheduler.txs
  | .trackMempool checkpoint => ∀ row ∈ s.scheduler.txs.values,
      row.created < checkpoint.time.toNat * nanosPerSec → Lost call.bitcoind row.txid →
      s.scheduler.Alone row.txid

/-! ## One call -/

section calls
variable {btc : BitcoinLib} {lib : SigningLib} {bitcoind : Bitcoind} {s : SyncState}

theorem Scheduler.Indexed.trackTx {s : Scheduler} (h : s.Indexed) {tx : Tx}
    (hsame : ∀ row, s.txs.lookup tx.txid = some row → row.inputs = tx.inputs) :
    (s.trackTx tx).Indexed :=
  Indexes.insert h hsame

variable {txid : Txid}

theorem Scheduler.Indexed.forget {s : Scheduler} (h : s.Indexed) {tx : Tx}
    (htx : s.txs.lookup txid = some tx) (halone : s.Alone txid) : (s.forget txid tx).Indexed :=
  Indexes.erase h htx halone

/-- The index is right, and everything tracked was tracked by `old`. -/
def Scheduler.Shrunk (old s : Scheduler) : Prop :=
  s.Indexed ∧ ∀ txid row, s.txs.lookup txid = some row → old.txs.lookup txid = some row

variable {old : Scheduler}

/-- Forgetting a transaction that shares no input. -/
theorem unTrackTx_shrunk (halone : old.Alone txid) :
    Preserves (fun s => old.Shrunk s.scheduler) (unTrackTx txid) := by
  rintro s ⟨hindexed, hsub⟩
  cases htx : s.scheduler.txs.lookup txid with
  | none =>
    simp only [unTrackTx, bind_run, get_run, Handler.expect, lift_run, htx]
    exact ⟨hindexed, hsub⟩
  | some tx =>
    simp only [unTrackTx, updateScheduler, updateDb, bind_run, get_run, update_run, Handler.expect,
      lift_run, htx]
    refine ⟨hindexed.forget htx (halone.mono hsub), fun t row hrow => hsub t row ?_⟩
    simp only [Scheduler.forget, lookup_erase_eq] at hrow
    split at hrow
    · cases hrow
    · exact hrow

/-- What does not touch the tracked transactions and their index. -/
theorem shrunk_of_eq {s s' : Scheduler} (h : old.Shrunk s) (htxs : s'.txs = s.txs)
    (hindex : s'.txsByInput = s.txsByInput) : old.Shrunk s' := by
  refine ⟨?_, by rw [htxs]; exact h.2⟩
  unfold Scheduler.Indexed
  rw [htxs, hindex]
  exact h.1

theorem rollbackTx_shrunk (halone : old.Alone txid) :
    Preserves (fun s => old.Shrunk s.scheduler) (rollbackTx txid) := by
  refine Triple.get_bind fun s hs => ?_
  refine Triple.bind (Triple.expect (Q := fun _ s => old.Shrunk s.scheduler)
    (fun _ _ _ h => h ▸ hs) fun _ h => h ▸ hs) fun tx => ?_
  refine Triple.bind (Triple.update (T := fun s => old.Shrunk s.scheduler)
    fun _ h => shrunk_of_eq h rfl rfl) fun _ => ?_
  exact Triple.bind (unTrackTx_shrunk halone) fun _ => Triple.update fun _ h => h

theorem rollbackTip_shrunk
    (halone : ∀ b, old.lastBlocks.getLast? = some b → ∀ txid ∈ b.relevantTxs, old.Alone txid) :
    Triple (fun s => s.scheduler = old ∧ old.Indexed) rollbackTip
      (fun _ s => old.Shrunk s.scheduler) fun s => old.Shrunk s.scheduler := by
  refine Triple.get_bind fun s hs => ?_
  obtain ⟨rfl, hindexed⟩ := hs
  have hshrunk : s.scheduler.Shrunk s.scheduler := ⟨hindexed, fun _ _ h => h⟩
  refine Triple.bind (Triple.expect (Q := fun b s' => s.scheduler.lastBlocks.getLast? = some b ∧
    s.scheduler.Shrunk s'.scheduler) (fun b hb _ h => ⟨hb, h ▸ hshrunk⟩) fun _ h => h ▸ hshrunk)
    fun b => Triple.of_fact fun hb => ?_
  refine Triple.bind (Triple.update (T := fun s' => s.scheduler.Shrunk s'.scheduler)
    fun _ h => shrunk_of_eq h rfl rfl) fun _ => ?_
  exact Triple.forM fun txid htxid => rollbackTx_shrunk (halone b hb txid htxid)

/-- A transaction is forgotten by the mempool check only if the node has lost it. -/
theorem checkDropped_shrunk (halone : Lost bitcoind txid → old.Alone txid) :
    Preserves (fun s => old.Shrunk s.scheduler) (checkDropped bitcoind txid) := by
  have htry {α : Type} (f : View → α) : Triple (fun s => old.Shrunk s.scheduler)
      (tryNode bitcoind f) (fun a s => (∃ n, f (bitcoind n) = a) ∧ old.Shrunk s.scheduler)
      fun s => old.Shrunk s.scheduler := fun s hs => ⟨⟨s.calls, rfl⟩, hs⟩
  have hcall {α : Type} (f : View → Except RpcError α) : Preserves
      (fun s => old.Shrunk s.scheduler) (callNode bitcoind f) := by
    intro s hs
    unfold callNode
    cases f (bitcoind s.calls) <;> exact hs
  refine Triple.bind (htry _) fun info => Triple.of_fact fun ⟨n, hinfo⟩ => ?_
  cases info with
  | ok found =>
    cases found with
    | none => exact Triple.pure fun _ h => h
    | some blockhash => exact Triple.bind (hcall _) fun _ => Triple.pure fun _ h => h
  | error e =>
    refine Triple.get_bind fun s hs => ?_
    refine Triple.bind (Triple.expect (Q := fun _ s => old.Shrunk s.scheduler)
      (fun _ _ _ h => h ▸ hs) fun _ h => h ▸ hs) fun tx => ?_
    refine Triple.bind (htry _) fun entry => Triple.of_fact fun ⟨m, hentry⟩ => ?_
    cases entry with
    | ok _ => exact Triple.pure fun _ h => h
    | error e' =>
      cases e' with
      | transactionNotInMempool =>
        exact Triple.bind (unTrackTx_shrunk (halone ⟨⟨n, e, hinfo⟩, m, hentry⟩)) fun _ =>
          Triple.update fun _ h => h
      | _ => exact Triple.pure fun _ h => h

theorem trackMempool_shrunk {checkpoint : BlockHeaderInfo}
    (halone : ∀ row ∈ old.txs.values, row.created < checkpoint.time.toNat * nanosPerSec →
      Lost bitcoind row.txid → old.Alone row.txid) :
    Triple (fun s => s.scheduler = old ∧ old.Indexed) (trackMempool bitcoind checkpoint)
      (fun _ s => old.Shrunk s.scheduler) fun s => old.Shrunk s.scheduler := by
  refine Triple.get_bind fun s hs => ?_
  obtain ⟨rfl, hindexed⟩ := hs
  have hshrunk : s.scheduler.Shrunk s.scheduler := ⟨hindexed, fun _ _ h => h⟩
  refine (Triple.forM fun txid htxid => checkDropped_shrunk fun hlost => ?_).conseq
    (fun _ h => h ▸ hshrunk) (fun _ _ => id) fun _ => id
  obtain ⟨row, hrow, rfl⟩ := mem_map.mp htxid
  obtain ⟨hrow, hcreated⟩ := mem_filter.mp hrow
  exact halone row hrow (of_decide_eq_true hcreated) hlost

/-- A block that names no tracked transaction changes neither memory nor index. -/
theorem finalizeBlock_same {b : BlockInfo} (htxs : ∀ txid ∈ b.relevantTxs, txid ∉ old.txs)
    (hinputs : ∀ op ∈ b.relevantInputs, op.txid ∉ old.txs) :
    Preserves (fun s => s.scheduler.txs = old.txs ∧ s.scheduler.txsByInput = old.txsByInput)
      (finalizeBlock btc lib bitcoind b) := by
  have hstore (spk : Option ScriptBuf) (txid : Txid) : Preserves
      (fun s => s.scheduler.txs = old.txs ∧ s.scheduler.txsByInput = old.txsByInput)
      (storeChange spk txid) := by
    refine Triple.get_bind fun s hs => Triple.bind (Triple.lift (fun _ _ _ h => h ▸ hs)
      fun _ h => h ▸ hs) fun tx => ?_
    cases spk with
    | none => exact Triple.pure fun _ h => h
    | some spk => exact Triple.update fun _ h => h
  have hspend (op : OutPoint) (hop : op.txid ∉ old.txs) : Preserves
      (fun s => s.scheduler.txs = old.txs ∧ s.scheduler.txsByInput = old.txsByInput)
      (spendInput op) := by
    refine Triple.get_bind fun s hs => ?_
    have hmissing : op.txid ∉ s.scheduler.txs := by rwa [hs.1]
    rw [if_neg hmissing]
    exact Triple.update fun _ h => h ▸ hs
  have hfinalize (txid : Txid) (htxid : txid ∉ old.txs) : Preserves
      (fun s => s.scheduler.txs = old.txs ∧ s.scheduler.txsByInput = old.txsByInput)
      (finalizeTx bitcoind txid) := by
    refine Triple.get_bind fun s hs => ?_
    have hmissing : s.scheduler.txs.lookup txid = none := by
      rw [hs.1]
      exact lookup_eq_none.mpr htxid
    rw [hmissing]
    exact Triple.update fun _ h => h ▸ hs
  refine Triple.get_bind fun s hs => Triple.bind (Triple.expect (fun _ _ _ h => h ▸ hs)
    fun _ h => h ▸ hs) fun pk => ?_
  refine Triple.bind (Triple.forM fun txid _ => hstore _ txid) fun _ => ?_
  refine Triple.get_bind fun s hs => Triple.bind (Triple.conseq (Triple.forM fun op hop =>
    hspend op ?_) (fun _ h => h ▸ hs) (fun _ _ => id) fun _ => id) fun _ => ?_
  · -- no input is that of a tracked transaction of the block, as it has none
    rcases mem_append.mp (mem_dedup.mp hop) with hop | hop
    · exact hinputs op hop
    · obtain ⟨txid, htxid, hop⟩ := mem_flatMap.mp hop
      rw [hs.1, lookup_eq_none.mpr (htxs txid htxid)] at hop
      simp at hop
  refine Triple.bind (Triple.forM fun txid htxid => hfinalize txid (htxs txid htxid)) fun _ => ?_
  refine Triple.get_bind fun s hs => Triple.bind (Triple.lift (fun _ _ _ h => h ▸ hs)
    fun _ h => h ▸ hs) fun _ => ?_
  exact Triple.update fun _ h => h

theorem addBlock_indexed (block : Block) :
    Preserves (fun s => s.scheduler.Indexed) (addBlock btc block) := by
  refine Triple.get_bind fun s hs => ?_
  refine Triple.bind (Triple.expect (Q := fun _ s => s.scheduler.Indexed)
    (fun _ _ _ h => h ▸ hs) fun _ h => h ▸ hs) fun last => ?_
  refine Triple.bind (Triple.assert (Q := fun _ s => s.scheduler.Indexed) (fun _ _ h => h)
    fun _ h => h) fun _ => ?_
  exact Triple.update fun _ h => h

theorem addTx_indexed {tx : Transaction} {pegouts : List PegoutRequest} {timestamp : Nat}
    (h : s.scheduler.Indexed)
    (hsame : ∀ row, s.scheduler.txs.lookup (btc.computeTxid tx) = some row →
      row.inputs = tx.inputs) :
    ((SchedulerOp.addTx tx pegouts timestamp).call btc lib bitcoind s).2.scheduler.Indexed := by
  simp only [SchedulerOp.call, bind_run, get_run, lift_run]
  cases hadd : s.scheduler.addTx (ε := SyncError) btc
      (s.db.publicKeyPackage.bind (changeScript btc lib)) tx pegouts timestamp with
  | err e => exact h
  | panic => exact h
  | ok x =>
    obtain ⟨htxid, htx, -, hscheduler⟩ := Scheduler.addTx_eq_ok hadd
    show x.2.Indexed
    rw [hscheduler]
    refine h.trackTx fun row hrow => ?_
    rw [htxid] at hrow
    rw [hsame row hrow, Tx.inputs, htx]

/-- One call keeps the index right. -/
theorem schedulerStep_indexed {call : SchedulerCall} (h : s.scheduler.Indexed)
    (hkeeps : KeepsIndex btc s call) : (schedulerStep btc lib s call).2.scheduler.Indexed := by
  have hshrunk : s.scheduler.Shrunk s.scheduler := ⟨h, fun _ _ h => h⟩
  have hindexed (s' : SyncState) (h : s.scheduler.Shrunk s'.scheduler) : s'.scheduler.Indexed := h.1
  obtain ⟨op, bitcoind⟩ := call
  cases op with
  | addTx tx pegouts timestamp => exact addTx_indexed h hkeeps
  | unTrackTx txid =>
    exact ((unTrackTx_shrunk hkeeps).conseq (fun _ => id) (fun _ => hindexed) hindexed).after
      hshrunk
  | rollbackTip =>
    exact ((rollbackTip_shrunk hkeeps).conseq (fun _ => id) (fun _ => hindexed) hindexed).after
      ⟨rfl, h⟩
  | addBlock block => exact (addBlock_indexed block).after h
  | finalizeBlock b =>
    have hsame (s' : SyncState) (hs' : s'.scheduler.txs = s.scheduler.txs ∧
        s'.scheduler.txsByInput = s.scheduler.txsByInput) : s'.scheduler.Indexed :=
      (shrunk_of_eq hshrunk hs'.1 hs'.2).1
    exact ((finalizeBlock_same hkeeps.1 hkeeps.2).conseq (fun _ => id) (fun _ => hsame)
      hsame).after ⟨rfl, rfl⟩
  | trackMempool checkpoint =>
    exact ((trackMempool_shrunk hkeeps).conseq (fun _ => id) (fun _ => hindexed) hindexed).after
      ⟨rfl, h⟩

end calls

/-! ## Sequences of calls -/

/-- The loop of `PegoutScheduler::new` over rows with distinct ids. -/
theorem indexed_foldl_trackTx : ∀ {txs : List Tx} {s : Scheduler}, s.Indexed →
    (txs.map (·.txid)).Nodup → (∀ tx ∈ txs, tx.txid ∉ s.txs) →
    (txs.foldl Scheduler.trackTx s).Indexed
  | [], _, h, _, _ => h
  | tx :: txs, s, h, hnodup, hfresh => by
    obtain ⟨hnew, hnodup⟩ := nodup_cons.mp hnodup
    have hmissing := lookup_eq_none.mpr (hfresh tx mem_cons_self)
    refine indexed_foldl_trackTx (s := s.trackTx tx) (h.trackTx fun row hrow => ?_) hnodup ?_
    · rw [hmissing] at hrow
      cases hrow
    · intro tx' htx' hmem
      obtain heq | hmem := (mem_insert _).mp hmem
      · exact hnew (mem_map.mpr ⟨tx', htx', heq⟩)
      · exact hfresh tx' (mem_cons_of_mem tx htx') hmem

/-- A confirmed conflict that the index knows is recorded. -/
theorem mem_relevantInputs {btc : BitcoinLib} {s : Scheduler} (h : s.Indexed) {block : Block}
    {tx : Transaction} {txid : Txid} {row : Tx} {op : OutPoint} (htx : tx ∈ block.txdata)
    (hother : btc.computeTxid tx ∉ s.txs) (hrow : s.txs.lookup txid = some row)
    (hop : op ∈ row.inputs) (hspent : op ∈ tx.inputs) : op ∈ relevantInputs btc s block := by
  have hlisted : txid ∈ s.txsByInput.listed op := (h op txid).mpr ⟨row, hrow, hop⟩
  have hindexed : op ∈ s.txsByInput := by
    by_contra hmissing
    rw [listed, lookup_eq_none.mpr hmissing] at hlisted
    simp at hlisted
  refine mem_flatMap.mpr ⟨tx, ?_, ?_⟩
  · simp [htx, hother]
  · simp [hspent, hindexed]

/-- Along every sequence of calls that meet the condition, the index lists under an outpoint
exactly the tracked transactions that spend it, and `add_block` would record every
confirmed conflict with one. -/
theorem input_index_exact (btc : BitcoinLib) (lib : SigningLib) (confWindow : Nat) {db : Db}
    (hkeyed : db.trackedTxs.KeyedBy (·.txid)) (lastFinalized : BlockHash)
    {h : History SyncState SchedulerCall (Outcome SyncError Unit)} {s : SyncState}
    (hrun : Run (schedulerStep btc lib) (newScheduler confWindow db lastFinalized) h s)
    (hmeets : Meets (fun _ => KeepsIndex btc) h) :
    (∀ op txid, txid ∈ (s.scheduler.txsByInput.lookup op).getD [] ↔
      ∃ row, s.scheduler.txs.lookup txid = some row ∧ op ∈ row.inputs) ∧
    ∀ (block : Block) tx txid row op, tx ∈ block.txdata → btc.computeTxid tx ∉ s.scheduler.txs →
      s.scheduler.txs.lookup txid = some row → op ∈ row.inputs → op ∈ tx.inputs →
      op ∈ relevantInputs btc s.scheduler block := by
  have hids : (db.getTrackedTxs.map (·.txid)).Nodup := by
    have hkeys : db.getTrackedTxs.map (·.txid) = db.trackedTxs.keys := by
      rw [Db.getTrackedTxs, FinMap.values, map_map]
      refine map_congr_left fun e he => ?_
      exact hkeyed e.1 e.2 (mem_lookup_iff.mpr he)
    rw [hkeys]
    exact db.trackedTxs.keys_nodup
  have hindexed : s.scheduler.Indexed :=
    hrun.invariant (I := fun _ s => s.scheduler.Indexed)
      (indexed_foldl_trackTx (by exact indexes_empty) hids fun _ _ => notMem_empty _)
      (fun _ _ _ _ hi hkeeps => schedulerStep_indexed hi hkeeps) hmeets
  exact ⟨hindexed, fun block tx txid row op htx hother hrow hop hspent =>
    mem_relevantInputs hindexed htx hother hrow hop hspent⟩

/-! ## A retry that loses its entry -/

/-- The payment of the first coin with a higher fee. -/
def retry : Transaction :=
  ⟨2, 0, [⟨firstCoin, [], enableRbfNoLocktime, []⟩], [⟨80000, p2tr 9⟩]⟩

/-- A transaction of somebody else that spends the coin. -/
def rival : Transaction :=
  ⟨2, 0, [⟨firstCoin, [], enableRbfNoLocktime, []⟩], [⟨70000, p2tr 5⟩]⟩

def rivalTxid : Txid := 0xab83c386c23f7365b5294244cc095ba3cfdc39cdde36f38a3ece5219c040cd76

/-- The federation's library with the ids of these. -/
def retryBitcoin : BitcoinLib :=
  { federationBitcoin with
    computeTxid tx :=
      if tx.stripped = retry then
        0x7390d3f8b2a0495981b159cd7798412309d245fffe42d6786b3bb8b1d550a721
      else if tx.stripped = rival then rivalTxid
      else federationBitcoin.computeTxid tx }

/-- A block with the transaction of somebody else. -/
def rivalBlock : Block := ⟨⟨1, 0, rivalTxid, 1700000000, 0x207fffff, 0⟩, [rival]⟩

/-- A call to the scheduler while the node cannot be reached. -/
def offline (op : SchedulerOp) : SchedulerCall := ⟨op, unreachable⟩

def samplePegout : PegoutRequest := ⟨samplePegoutId, p2tr 9, 90000, 1, some 1700000000⟩

/-- Two payments are tracked and the first is forgotten; the newest call first. -/
def forgetFirst (second : Transaction) : List SchedulerCall :=
  [offline (.unTrackTx (retryBitcoin.computeTxid (payment firstCoin))),
    offline (.addTx second [samplePegout] 20), offline (.addTx (payment firstCoin) [samplePegout] 10)]

/-- The scheduler after these calls. -/
def afterForget (second : Transaction) : SyncState :=
  (play (schedulerStep retryBitcoin fixedLengthSigning) (newScheduler 6 freshDb 0)
    (forgetFirst second)).2

/-- Payments of different coins: the index keeps the entry of the second. -/
theorem second_payment_indexed :
    retryBitcoin.computeTxid (payment secondCoin) ∈
        ((afterForget (payment secondCoin)).scheduler.txsByInput.lookup secondCoin).getD [] ∧
      ∀ op txid, txid ∈ ((afterForget (payment secondCoin)).scheduler.txsByInput.lookup op).getD [] ↔
        ∃ row, (afterForget (payment secondCoin)).scheduler.txs.lookup txid = some row ∧
          op ∈ row.inputs := by
  have hunknown (txid : Txid) (s : SyncState) (h : s.scheduler.txs.lookup txid = none)
      (inputs : List OutPoint) : ∀ row, s.scheduler.txs.lookup txid = some row →
        row.inputs = inputs := by
    rw [h]
    nofun
  refine ⟨by decide +kernel, (input_index_exact retryBitcoin fixedLengthSigning 6
    FinMap.keyedBy_empty 0 (Run.play (forgetFirst (payment secondCoin))) ⟨?_, ?_, ?_, trivial⟩).1⟩
  · show Unshared _ _ _
    decide +kernel
  · exact hunknown _ _ (by decide +kernel) _
  · exact hunknown _ _ (by decide +kernel) _

/-- A payment and its retry: the retry stays tracked and its entry is gone, so that a
confirmed conflict is not recorded. -/
theorem retry_not_indexed :
    ∃ h s, Run (schedulerStep retryBitcoin fixedLengthSigning) (newScheduler 6 freshDb 0) h s ∧
      (∃ row, s.scheduler.txs.lookup (retryBitcoin.computeTxid retry) = some row ∧
        firstCoin ∈ row.inputs) ∧
      retryBitcoin.computeTxid retry ∉ (s.scheduler.txsByInput.lookup firstCoin).getD [] ∧
      rival ∈ rivalBlock.txdata ∧ retryBitcoin.computeTxid rival ∉ s.scheduler.txs ∧
      firstCoin ∈ rival.inputs ∧ firstCoin ∉ relevantInputs retryBitcoin s.scheduler rivalBlock := by
  have hrun : Run (schedulerStep retryBitcoin fixedLengthSigning) (newScheduler 6 freshDb 0) _
      (afterForget retry) := Run.play (forgetFirst retry)
  have hrow : ((afterForget retry).scheduler.txs.lookup (retryBitcoin.computeTxid retry)).any
      (fun row => firstCoin ∈ row.inputs) = true := by decide +kernel
  refine ⟨_, _, hrun, ?_, ?_⟩
  · obtain ⟨row, hrow, hmem⟩ := (Option.any_eq_true _ _).mp hrow
    exact ⟨row, hrow, of_decide_eq_true hmem⟩
  · decide +kernel

end Macbeth
