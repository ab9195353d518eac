import Macbeth.BtcServer.PaidPending
import Macbeth.BtcServer.SyncTarget

/-!
# A database that fails while a block is finalized (`finalize_block`)

`sync_until` takes a block out of the window and then finalizes it.  When an operation of the
database fails on the way, the error ends the call, and the block is not in the window any more: no
later call comes back to it, so what was left to do for it is never done.

The module gives each operation of `finalize_block` a name and lets one of them fail.  A later
call makes up for it when nothing was left but to read the coins for the metrics and to flush
(`finalization_recovers`).  Even then the checkpoint must not have been this block, because
`last_finalized` does not know of it, and the block must not have fallen out for the tip, because
the later call then returns before it looks at the mempool.
-/

namespace Macbeth

open Handler Outcome List

/-! ## The operations -/

/-- The database operations of `finalize_block`, those of its loops with the round. -/
inductive DbPoint where
  | readKey
  /-- The version of a change output. -/
  | readVersion (round output : Nat)
  | storeUtxos (round : Nat)
  | flushUtxos (round : Nat)
  | removeDead (round : Nat)
  | removeUtxo (round : Nat)
  | flushInput (round : Nat)
  | storeFinalized (round : Nat)
  | prune (round : Nat)
  | flushFinalized (round : Nat)
  | removeTracked (round : Nat)
  | readUtxos
  | flush
  deriving DecidableEq, Repr

section operations
variable (fails : DbPoint → Bool) (btc : BitcoinLib) (lib : SigningLib) (bitcoind : Bitcoind)

/-- An operation whose failure is returned. -/
def dbOp (point : DbPoint) (f : Db → Db) : Handler SyncState SyncError Unit :=
  if fails point then Handler.fail .storage else updateDb f

/-- The key of the change is looked for once; a failure is logged only. -/
def changeSpkFailing : Handler SyncState SyncError (Option ScriptBuf) :=
  if fails .readKey then pure none
  else do
    let pk ← Handler.expect (← Handler.get).db.publicKeyPackage
    return changeScript btc lib pk

/-- The coins of the change; a version that cannot be read is zero. -/
def changeUtxosFailing (round : Nat) (db : Db) (spk : ScriptBuf) (tx : Tx) : List Utxo :=
  (tx.change.filter (·.2.scriptPubkey = spk)).zipIdx.map fun x =>
    ⟨x.1.1, x.1.2, none, if fails (.readVersion round x.2) then 0
      else ((db.utxos.lookup x.1.1).map (·.version)).getD 0⟩

def storeChangeFailing (changeSpk : Option ScriptBuf) (x : Txid × Nat) :
    Handler SyncState SyncError Unit := do
  let s ← Handler.get
  let tx ← Handler.lift
    (ofOption (s.scheduler.txs.lookup x.1) .trackedTxNotFoundInPegoutScheduler)
  dbOp fails (.storeUtxos x.2) fun db => db.storeUtxos
    (match changeSpk with
      | some spk => changeUtxosFailing fails x.2 db spk tx
      | none => [])
  dbOp fails (.flushUtxos x.2) id

def spendInputFailing (x : OutPoint × Nat) : Handler SyncState SyncError Unit := do
  let s ← Handler.get
  if x.1.txid ∈ s.scheduler.txs then
    updateScheduler fun s => { s with txs := s.txs.erase x.1.txid }
    dbOp fails (.removeDead x.2) (·.removeTrackedTx x.1.txid)
  dbOp fails (.removeUtxo x.2) (·.removeUtxo x.1)
  dbOp fails (.flushInput x.2) id

def finalizeTxFailing (x : Txid × Nat) : Handler SyncState SyncError Unit := do
  let s ← Handler.get
  match s.scheduler.txs.lookup x.1 with
  | some tx =>
    let finalized := tx.pegoutRequests.map FinalizedPegout.ofRequest
    if finalized ≠ [] then
      dbOp fails (.storeFinalized x.2) (·.storeFinalizedPegoutIds finalized)
      let now ← tryNode bitcoind (·.now)
      dbOp fails (.prune x.2) (·.pruneFinalizedPegoutIds (BitVec.ofNat 64 (now / nanosPerSec)))
      dbOp fails (.flushFinalized x.2) id
    updateScheduler fun s => { s with txs := s.txs.erase x.1 }
    dbOp fails (.removeTracked x.2) (·.removeTrackedTx x.1)
  | none => dbOp fails (.removeTracked x.2) (·.removeTrackedTx x.1)

/-- The loops of `finalize_block`. -/
def finalizeLoopsFailing (block : BlockInfo) : Handler SyncState SyncError Unit := do
  let changeSpk ← changeSpkFailing fails btc lib
  block.relevantTxs.zipIdx.forM (storeChangeFailing fails changeSpk)
  (finalizedInputs (← Handler.get).scheduler block).zipIdx.forM (spendInputFailing fails)
  block.relevantTxs.zipIdx.forM (finalizeTxFailing fails bitcoind)

/-- What comes after the loops. -/
def finalizeEndFailing (block : BlockInfo) : Handler SyncState SyncError Unit := do
  dbOp fails .readUtxos id
  Handler.lift (assertUtxosFit (← Handler.get).db)
  updateScheduler fun s => { s with lastFinalized := block.hash }
  dbOp fails .flush id

/-- `finalize_block` with the operations that fail. -/
def finalizeBlockFailing (block : BlockInfo) : Handler SyncState SyncError Unit := do
  finalizeLoopsFailing fails btc lib bitcoind block
  finalizeEndFailing fails block

end operations

/-! ## Operations that do not fail -/

section working
variable {btc : BitcoinLib} {lib : SigningLib} {bitcoind : Bitcoind}

/-- The loops as the source has them. -/
def finalizeLoops (btc : BitcoinLib) (lib : SigningLib) (bitcoind : Bitcoind) (block : BlockInfo) :
    Handler SyncState SyncError Unit := do
  let pk ← Handler.expect (← Handler.get).db.publicKeyPackage
  block.relevantTxs.forM (storeChange (changeScript btc lib pk))
  (finalizedInputs (← Handler.get).scheduler block).forM spendInput
  block.relevantTxs.forM (finalizeTx bitcoind)

theorem forM_zipIdx {σ ε α : Type} (f : α → Handler σ ε Unit) (xs : List α) :
    xs.zipIdx.forM (fun x => f x.1) = xs.forM f := by
  suffices h : ∀ n, (xs.zipIdx n).forM (fun x => f x.1) = xs.forM f from h 0
  induction xs with
  | nil => exact fun _ => rfl
  | cons x xs ih =>
    intro n
    show (f x >>= fun _ => (xs.zipIdx (n + 1)).forM fun x => f x.1) = f x >>= fun _ => xs.forM f
    rw [ih]

variable {fails : DbPoint → Bool}
  (hloops : ∀ point, point ≠ .readUtxos → point ≠ .flush → fails point = false)
include hloops

theorem dbOp_eq {point : DbPoint} (hread : point ≠ .readUtxos) (hflush : point ≠ .flush)
    (f : Db → Db) : dbOp fails point f = updateDb f := by
  rw [dbOp, hloops point hread hflush]
  rfl

theorem changeUtxosFailing_eq (round : Nat) (db : Db) (spk : ScriptBuf) (tx : Tx) :
    changeUtxosFailing fails round db spk tx = changeUtxos db spk tx := by
  have hversion (j : Nat) : fails (.readVersion round j) = false := hloops _ nofun nofun
  simp only [changeUtxosFailing, changeUtxos, hversion, Bool.false_eq_true, if_false]
  conv_rhs => rw [← zipIdx_map_fst 0 (tx.change.filter _), map_map]
  rfl

theorem storeChangeFailing_eq (changeSpk : Option ScriptBuf) (x : Txid × Nat) :
    storeChangeFailing fails changeSpk x = storeChange changeSpk x.1 := by
  funext s
  simp only [storeChangeFailing, storeChange, dbOp_eq hloops, ne_eq, reduceCtorEq,
    not_false_eq_true, bind_run, get_run, lift_run]
  cases ofOption (s.scheduler.txs.lookup x.1) SyncError.trackedTxNotFoundInPegoutScheduler with
  | ok tx =>
    cases changeSpk with
    | none => rfl
    | some spk =>
      simp only [changeUtxosFailing_eq hloops]
      rfl
  | err e => rfl
  | panic => rfl

theorem spendInputFailing_eq (x : OutPoint × Nat) : spendInputFailing fails x = spendInput x.1 := by
  funext s
  simp only [spendInputFailing, spendInput, dbOp_eq hloops, ne_eq, reduceCtorEq,
    not_false_eq_true, bind_run, get_run]
  by_cases hmem : x.1.txid ∈ s.scheduler.txs
  · simp only [if_pos hmem]
    rfl
  · simp only [if_neg hmem]
    rfl

theorem finalizeTxFailing_eq (x : Txid × Nat) :
    finalizeTxFailing fails bitcoind x = finalizeTx bitcoind x.1 := by
  funext s
  simp only [finalizeTxFailing, finalizeTx, dbOp_eq hloops, ne_eq, reduceCtorEq,
    not_false_eq_true, bind_run, get_run]
  cases s.scheduler.txs.lookup x.1 with
  | none => rfl
  | some tx =>
    by_cases hreqs : tx.pegoutRequests.map FinalizedPegout.ofRequest ≠ []
    · simp only [if_pos hreqs]
      rfl
    · simp only [if_neg hreqs]

theorem finalizeLoopsFailing_eq (block : BlockInfo) :
    finalizeLoopsFailing fails btc lib bitcoind block = finalizeLoops btc lib bitcoind block := by
  have hstore (spk : Option ScriptBuf) : storeChangeFailing fails spk = fun x =>
      storeChange spk x.1 := funext (storeChangeFailing_eq hloops spk)
  have hspend : spendInputFailing fails = fun x => spendInput x.1 :=
    funext (spendInputFailing_eq hloops)
  have hfinalize : finalizeTxFailing fails bitcoind = fun x => finalizeTx bitcoind x.1 :=
    funext (finalizeTxFailing_eq hloops)
  have hkey : changeSpkFailing fails btc lib = Handler.get >>= fun s =>
      Handler.expect s.db.publicKeyPackage >>= fun pk => pure (changeScript btc lib pk) := by
    rw [changeSpkFailing, hloops .readKey nofun nofun]
    rfl
  simp only [finalizeLoopsFailing, hkey, hstore, hspend, hfinalize, forM_zipIdx, bind_assoc]
  rfl

omit hloops in
theorem finalizeLoops_keeps {P : Scheduler → Prop}
    (hP : ∀ s txid, P s → P { s with txs := s.txs.erase txid }) (block : BlockInfo) :
    Preserves (fun s => P s.scheduler) (finalizeLoops btc lib bitcoind block) := by
  refine Triple.get_bind fun s hs => Triple.bind (Triple.expect (fun _ _ _ h => h ▸ hs)
    fun _ h => h ▸ hs) fun pk => ?_
  refine Triple.bind (Triple.forM fun txid _ => storeChange_keeps _ txid) fun _ => ?_
  refine Triple.get_bind fun s hs => Triple.bind ((Triple.forM fun op _ =>
    spendInput_keeps hP op).conseq (fun _ h => h ▸ hs) (fun _ _ => id) fun _ => id) fun _ => ?_
  exact Triple.forM fun txid _ => finalizeTx_keeps hP txid

omit hloops in
/-- When no operation fails it is `finalize_block`. -/
theorem finalizeBlockFailing_never (block : BlockInfo) :
    finalizeBlockFailing (fun _ => false) btc lib bitcoind block =
      finalizeBlock btc lib bitcoind block := by
  have hop (point : DbPoint) : dbOp (fun _ => false) point id = pure () := rfl
  rw [finalizeBlockFailing, finalizeLoopsFailing_eq fun _ _ _ => rfl]
  simp only [finalizeLoops, finalizeEndFailing, hop, bind_assoc]
  rfl

end working

/-! ## A failure after the loops -/

section late
variable {btc : BitcoinLib} {lib : SigningLib} {bitcoind : Bitcoind}

/-- What a failure after the loops leaves, beside what the whole leaves: they differ in the last
finalized block at most. -/
structure LateFailure (point : DbPoint) (block : BlockInfo) (s failed done : SyncState) : Prop where
  db : done.db = failed.db
  scheduler : done.scheduler = { failed.scheduler with lastFinalized := block.hash }
  lastBlocks : failed.scheduler.lastBlocks = s.scheduler.lastBlocks
  confWindow : failed.scheduler.confWindow = s.scheduler.confWindow
  lastFinalized : failed.scheduler.lastFinalized =
    if point = .flush then block.hash else s.scheduler.lastFinalized

theorem finalizeBlockFailing_late {point : DbPoint} (hlate : point = .readUtxos ∨ point = .flush)
    (block : BlockInfo) (s : SyncState) :
    (finalizeBlockFailing (· = point) btc lib bitcoind block s =
        finalizeBlock btc lib bitcoind block s ∧
      ∀ a s', finalizeBlock btc lib bitcoind block s ≠ (.ok a, s')) ∨
    (finalizeBlock btc lib bitcoind block s).1 = .panic ∨
    ∃ failed done,
      finalizeBlockFailing (· = point) btc lib bitcoind block s = (.err .storage, failed) ∧
      finalizeBlock btc lib bitcoind block s = (.ok (), done) ∧
      LateFailure point block s failed done := by
  have hloops : ∀ p, p ≠ .readUtxos → p ≠ .flush → decide (p = point) = false := by
    intro p hread hflush
    rcases hlate with rfl | rfl
    · exact decide_eq_false hread
    · exact decide_eq_false hflush
  rw [← finalizeBlockFailing_never, finalizeBlockFailing, finalizeBlockFailing,
    finalizeLoopsFailing_eq hloops, finalizeLoopsFailing_eq fun _ _ _ => rfl, bind_run, bind_run]
  rcases hrun : finalizeLoops btc lib bitcoind block s with ⟨_ | _ | _, s₁⟩
  · obtain ⟨hblocks, hwindow, hfinalized⟩ := (finalizeLoops_keeps
      (P := fun x => x.lastBlocks = s.scheduler.lastBlocks ∧
        x.confWindow = s.scheduler.confWindow ∧ x.lastFinalized = s.scheduler.lastFinalized)
      (fun _ _ h => h) block).of_run ⟨rfl, rfl, rfl⟩ hrun
    have hfit : assertUtxosFit s₁.db = .ok () ∨
        assertUtxosFit s₁.db = (.panic : Outcome SyncError Unit) := ite_eq_or_eq ..
    rcases hfit with hfit | hfit
    · refine .inr (.inr ?_)
      rcases hlate with rfl | rfl
      · refine ⟨s₁, { s₁ with scheduler := { s₁.scheduler with lastFinalized := block.hash } }, rfl,
          ?_, rfl, rfl, hblocks, hwindow, hfinalized⟩
        simp [finalizeEndFailing, dbOp, updateDb, updateScheduler, bind_run, hfit]
      · refine ⟨{ s₁ with scheduler := { s₁.scheduler with lastFinalized := block.hash } }, _, ?_,
          ?_, rfl, rfl, hblocks, hwindow, rfl⟩
        · simp [finalizeEndFailing, dbOp, updateDb, updateScheduler, bind_run, hfit]
        · simp [finalizeEndFailing, dbOp, updateDb, updateScheduler, bind_run, hfit]
    · refine .inr (.inl ?_)
      simp [finalizeEndFailing, dbOp, updateDb, bind_run, hfit]
  · exact .inl ⟨rfl, by simp⟩
  · exact .inl ⟨rfl, by simp⟩

end late

/-! ## Two states that differ in the last finalized block -/

section alike
variable {btc : BitcoinLib} {lib : SigningLib} {bitcoind : Bitcoind} {exact : Prop}

/-- The scheduler with another last finalized block. -/
def Scheduler.withFinalized (s : Scheduler) (hash : BlockHash) : Scheduler :=
  { s with lastFinalized := hash }

/-- The states differ in the number of calls, and in the last finalized block unless it is asked to
be the same. -/
structure Alike (exact : Prop) (s s' : SyncState) : Prop where
  db : s.db = s'.db
  scheduler : s.scheduler.withFinalized s'.scheduler.lastFinalized = s'.scheduler
  lastFinalized : exact → s.scheduler.lastFinalized = s'.scheduler.lastFinalized

namespace Alike
variable {s s' : SyncState}

theorem txs (h : Alike exact s s') : s.scheduler.txs = s'.scheduler.txs := by
  rw [← h.scheduler]
  rfl

theorem lastBlocks (h : Alike exact s s') : s.scheduler.lastBlocks = s'.scheduler.lastBlocks := by
  rw [← h.scheduler]
  rfl

theorem confWindow (h : Alike exact s s') : s.scheduler.confWindow = s'.scheduler.confWindow := by
  rw [← h.scheduler]
  rfl

theorem updateDb (f : Db → Db) :
    Coupled (Alike exact) (updateDb f : Handler SyncState SyncError Unit) (Macbeth.updateDb f) :=
  Coupled.update fun _ _ h => ⟨congrArg f h.db, h.scheduler, h.lastFinalized⟩

/-- An update that does not look at the last finalized block. -/
theorem updateScheduler {f : Scheduler → Scheduler}
    (hf : ∀ s hash, f (s.withFinalized hash) = (f s).withFinalized hash) :
    Coupled (Alike exact) (updateScheduler f : Handler SyncState SyncError Unit)
      (Macbeth.updateScheduler f) := by
  have hkeep (s : Scheduler) : (f s).lastFinalized = s.lastFinalized := by
    have := congrArg Scheduler.lastFinalized (hf s s.lastFinalized)
    exact this
  refine Coupled.update fun s s' h => ⟨h.db, ?_, ?_⟩
  · show (f s.scheduler).withFinalized (f s'.scheduler).lastFinalized = f s'.scheduler
    rw [hkeep, ← hf, h.scheduler]
  · intro hexact
    show (f s.scheduler).lastFinalized = (f s'.scheduler).lastFinalized
    rw [hkeep, hkeep, h.lastFinalized hexact]

variable (hstill : ∀ n, bitcoind n = bitcoind 0)
include hstill

theorem callNode {α : Type} (f : View → Except RpcError α) :
    Coupled (Alike exact) (callNode bitcoind f) (Macbeth.callNode bitcoind f) := by
  intro s s' h
  simp only [Macbeth.callNode, hstill]
  exact ⟨trivial, h.db, h.scheduler, h.lastFinalized⟩

theorem tryNode {α : Type} (f : View → α) :
    Coupled (Alike exact) (tryNode bitcoind f) (Macbeth.tryNode bitcoind f) := by
  intro s s' h
  simp only [Macbeth.tryNode, hstill]
  exact ⟨trivial, h.db, h.scheduler, h.lastFinalized⟩

omit hstill in
theorem storeChange (spk : Option ScriptBuf) (txid : Txid) :
    Coupled (Alike exact) (storeChange spk txid) (Macbeth.storeChange spk txid) := by
  refine Coupled.get_bind fun s s' h => ?_
  rw [h.txs]
  refine Coupled.bind (Coupled.lift _) fun tx => ?_
  cases spk with
  | none => exact Coupled.pure ()
  | some spk => exact updateDb _

omit hstill in
theorem spendInput (op : OutPoint) :
    Coupled (Alike exact) (spendInput op) (Macbeth.spendInput op) := by
  refine Coupled.get_bind fun s s' h => ?_
  rw [h.txs]
  refine Coupled.ite ?_ (updateDb _)
  exact Coupled.bind (updateScheduler fun _ _ => rfl) fun _ =>
    Coupled.bind (updateDb _) fun _ => updateDb _

theorem finalizeTx (txid : Txid) :
    Coupled (Alike exact) (finalizeTx bitcoind txid) (Macbeth.finalizeTx bitcoind txid) := by
  refine Coupled.get_bind fun s s' h => ?_
  rw [h.txs]
  cases s'.scheduler.txs.lookup txid with
  | none => exact updateDb _
  | some tx =>
    have hend : Coupled (Alike exact)
        (Macbeth.updateScheduler fun s => { s with txs := s.txs.erase txid })
        (Macbeth.updateScheduler fun s => { s with txs := s.txs.erase txid }) :=
      updateScheduler fun _ _ => rfl
    refine Coupled.ite ?_ (Coupled.bind hend fun _ => updateDb _)
    refine Coupled.bind (updateDb _) fun _ => Coupled.bind (tryNode hstill _) fun now => ?_
    exact Coupled.bind (updateDb _) fun _ => Coupled.bind hend fun _ => updateDb _

theorem finalizeBlock (block : BlockInfo) : Coupled (Alike exact)
    (finalizeBlock btc lib bitcoind block) (Macbeth.finalizeBlock btc lib bitcoind block) := by
  refine Coupled.get_bind fun s s' h => ?_
  rw [h.db]
  refine Coupled.bind (Coupled.lift _) fun pk => ?_
  refine Coupled.bind (Coupled.forM (storeChange _) _) fun _ => ?_
  refine Coupled.get_bind fun s s' h => ?_
  have hinputs : finalizedInputs s.scheduler block = finalizedInputs s'.scheduler block := by
    simp only [finalizedInputs, h.txs]
  rw [hinputs]
  refine Coupled.bind (Coupled.forM spendInput _) fun _ => ?_
  refine Coupled.bind (Coupled.forM (finalizeTx hstill) _) fun _ => ?_
  refine Coupled.get_bind fun s s' h => ?_
  rw [h.db]
  refine Coupled.bind (Coupled.lift _) fun _ => ?_
  refine Coupled.update fun s s' h => ⟨h.db, ?_, fun _ => rfl⟩
  rw [← h.scheduler]
  rfl

omit hstill in
theorem addBlock (block : Block) :
    Coupled (Alike exact) (addBlock btc block) (Macbeth.addBlock btc block) := by
  refine Coupled.get_bind fun s s' h => ?_
  dsimp only
  rw [h.lastBlocks]
  refine Coupled.bind (Coupled.lift _) fun last => Coupled.bind (Coupled.lift _) fun _ => ?_
  exact updateScheduler fun _ _ => rfl

theorem finalizeOldest : Coupled (Alike exact)
    (finalizeOldestWith (Macbeth.finalizeBlock btc lib bitcoind))
    (finalizeOldestWith (Macbeth.finalizeBlock btc lib bitcoind)) := by
  refine Coupled.get_bind fun s s' h => ?_
  dsimp only
  rw [h.lastBlocks, h.confWindow]
  cases s'.scheduler.lastBlocks with
  | nil => exact Coupled.pure ()
  | cons oldest rest =>
    refine Coupled.ite ?_ (Coupled.pure ())
    exact Coupled.bind (updateScheduler fun _ _ => rfl) fun _ => finalizeBlock hstill oldest

/-- The loop looks at the last finalized block. -/
theorem processBlocks (checkpoint : BlockHash) : ∀ hashes : List BlockHash,
    Coupled (Alike True)
      (processBlocksWith (Macbeth.finalizeBlock btc lib bitcoind) btc bitcoind checkpoint hashes)
      (processBlocksWith (Macbeth.finalizeBlock btc lib bitcoind) btc bitcoind checkpoint hashes)
  | [] => Coupled.pure ()
  | hash :: rest => by
    refine Coupled.get_bind fun s s' h => ?_
    rw [h.lastFinalized trivial]
    refine Coupled.ite (Coupled.pure ()) ?_
    refine Coupled.bind (callNode hstill _) fun _ => ?_
    refine Coupled.bind (callNode hstill _) fun block => ?_
    exact Coupled.bind (addBlock block) fun _ => Coupled.bind (finalizeOldest hstill) fun _ =>
      processBlocks checkpoint rest

theorem checkDropped (txid : Txid) :
    Coupled (Alike exact) (checkDropped bitcoind txid) (Macbeth.checkDropped bitcoind txid) := by
  refine Coupled.bind (tryNode hstill _) fun info => ?_
  cases info with
  | ok found =>
    cases found with
    | none => exact Coupled.pure ()
    | some blockhash => exact Coupled.bind (callNode hstill _) fun _ => Coupled.pure ()
  | error e =>
    refine Coupled.get_bind fun s s' h => ?_
    rw [h.txs]
    refine Coupled.bind (Coupled.lift _) fun tx => Coupled.bind (tryNode hstill _) fun entry => ?_
    cases entry with
    | ok _ => exact Coupled.pure ()
    | error e' =>
      cases e' with
      | transactionNotInMempool =>
        refine Coupled.bind (Coupled.get_bind fun s s' h => ?_) fun _ => updateDb _
        rw [h.txs]
        exact Coupled.bind (Coupled.lift _) fun tx => Coupled.bind
          (updateScheduler fun _ _ => rfl) fun _ => updateDb _
      | _ => exact Coupled.pure ()

theorem trackMempool (cp : BlockHeaderInfo) :
    Coupled (Alike exact) (trackMempool bitcoind cp) (Macbeth.trackMempool bitcoind cp) := by
  refine Coupled.get_bind fun s s' h => ?_
  dsimp only
  rw [h.txs]
  exact Coupled.forM (checkDropped hstill) _

end Alike

end alike

/-! ## The call in which the operation fails, and a later one -/

section recovery
variable {btc : BitcoinLib} {lib : SigningLib} {bitcoind : Bitcoind} {chain : BitcoinChain btc}
  {headers : List Header} {checkpoint b : BlockHash} {cpHeight fuel : Nat} {point : DbPoint}

/-- Finalization with one operation that fails at one block. -/
def failingAt (btc : BitcoinLib) (lib : SigningLib) (bitcoind : Bitcoind) (b : BlockHash)
    (point : DbPoint) (block : BlockInfo) : Handler SyncState SyncError Unit :=
  finalizeBlockFailing (fun p => block.hash = b && p = point) btc lib bitcoind block

theorem failingAt_of_ne {block : BlockInfo} (h : block.hash ≠ b) :
    failingAt btc lib bitcoind b point block = finalizeBlock btc lib bitcoind block := by
  simp only [failingAt, h, decide_false, Bool.false_and]
  exact finalizeBlockFailing_never block

theorem failingAt_of_eq {block : BlockInfo} (h : block.hash = b) :
    failingAt btc lib bitcoind b point block =
      finalizeBlockFailing (· = point) btc lib bitcoind block := by
  simp only [failingAt, h, decide_true, Bool.true_and]

/-- The point of the loop where the block is finalized. -/
structure FinalizesAt (chain : BitcoinChain btc) (b checkpoint : BlockHash) (bound start next : Nat)
    (oldest : BlockInfo) (s : SyncState) : Prop where
  hash : oldest.hash = b
  at_start : chain.hashes[start]? = some b
  /-- The state after the block has been taken out of the window. -/
  between : Between chain (start + 1) next s
  length : s.scheduler.lastBlocks.length ≤ bound
  full : s.scheduler.confWindow ≤ s.scheduler.lastBlocks.length
  notDone : s.scheduler.lastFinalized ≠ checkpoint

/-- Two ways to finalize that differ at one block only are told apart only where the loop finalizes
that block. -/
theorem processBlocksWith_met (hnode : SteadyOn chain bitcoind) {bound : Nat}
    {finalize : BlockInfo → Handler SyncState SyncError Unit}
    (hother : ∀ block : BlockInfo, block.hash ≠ b →
      finalize block = finalizeBlock btc lib bitcoind block) :
    ∀ {hashes : List BlockHash} {start next : Nat} {s : SyncState},
    chain.hashes.drop next = hashes → Between chain start next s →
    s.scheduler.lastBlocks.length ≤ bound → s.scheduler.confWindow ≤ bound →
    processBlocksWith finalize btc bitcoind checkpoint hashes s ≠
      processBlocksWith (finalizeBlock btc lib bitcoind) btc bitcoind checkpoint hashes s →
    ∃ start' next' oldest s', FinalizesAt chain b checkpoint bound start' next' oldest s' ∧
      (processBlocksWith finalize btc bitcoind checkpoint hashes s =
        (finalize oldest >>= fun _ => processBlocksWith finalize btc bitcoind checkpoint
          (chain.hashes.drop next')) s') ∧
      (processBlocksWith (finalizeBlock btc lib bitcoind) btc bitcoind checkpoint hashes s =
        (finalizeBlock btc lib bitcoind oldest >>= fun _ =>
          processBlocksWith (finalizeBlock btc lib bitcoind) btc bitcoind checkpoint
            (chain.hashes.drop next')) s') := by
  intro hashes
  induction hashes with
  | nil => exact fun _ _ _ _ hne => absurd rfl hne
  | cons hash rest ih =>
    intro start next s hdrop hs hlength hwindow hmet
    by_cases hdone : s.scheduler.lastFinalized = checkpoint
    · simp [processBlocksWith, bind_run, hdone] at hmet
    obtain ⟨s₁, hs₁, hsame, hstep⟩ := hs.processBlocksWith_cons hnode hdone hdrop
    have hrest : chain.hashes.drop (next + 1) = rest := by
      rw [← tail_drop, hdrop]
      rfl
    have hdone₁ : s₁.scheduler.lastFinalized ≠ checkpoint := hsame.lastFinalized ▸ hdone
    have hlen := hs.length
    have hlen₁ := hs₁.length
    have hpos : 0 < s.scheduler.lastBlocks.length := length_pos_iff.mpr hs.nonempty
    have hwindow₁ := hsame.confWindow
    rw [hstep, hstep] at hmet
    simp only [hstep]
    cases hblocks : s₁.scheduler.lastBlocks with
    | nil => exact absurd hblocks hs₁.nonempty
    | cons oldest others =>
      rw [hblocks, length_cons] at hlen₁
      simp only [bind_run, finalizeOldestWith_cons _ hblocks] at hmet ⊢
      by_cases hover : s₁.scheduler.confWindow < others.length + 1
      · simp only [if_pos hover] at hmet ⊢
        by_cases hb : oldest.hash = b
        · refine ⟨start, next + 1, oldest,
            { s₁ with scheduler := { s₁.scheduler with lastBlocks := others } },
            ⟨hb, hb ▸ hs₁.hash_oldest hblocks, hs₁.pop hblocks (by omega) rfl, ?_, ?_, hdone₁⟩,
            by rw [hrest], by rw [hrest]⟩
          · show others.length ≤ bound
            omega
          · exact Nat.lt_succ_iff.mp hover
        · -- another block: both finalize it in the same way
          rw [hother oldest hb] at hmet ⊢
          rcases hrun : finalizeBlock btc lib bitcoind oldest
            { s₁ with scheduler := { s₁.scheduler with lastBlocks := others } } with ⟨_ | _ | _, s₂⟩
          · rw [hrun] at hmet
            obtain ⟨-, hothers, hwindow₂⟩ := finalizeBlock_window hrun
            have hbetween := hs₁.pop hblocks (by omega) hothers
            refine ih hrest hbetween ?_ ?_ hmet
            · rw [hothers]
              dsimp only
              omega
            · rw [hwindow₂]
              dsimp only
              omega
          · rw [hrun] at hmet
            exact absurd rfl hmet
          · rw [hrun] at hmet
            exact absurd rfl hmet
      · simp only [if_neg hover] at hmet ⊢
        refine ih hrest hs₁ ?_ ?_ hmet
        · rw [hblocks, length_cons]
          omega
        · omega

/-- What `sync_until` does after the loop. -/
def closing (bitcoind : Bitcoind) (checkpoint : BlockHash) (cp : BlockHeaderInfo) :
    Handler SyncState SyncError Unit := do
  trackMempool bitcoind cp
  if (← Handler.get).scheduler.lastFinalized = checkpoint then pure ()
  else Handler.fail .checkPointNotReached

theorem followWith_eq (finalize : BlockInfo → Handler SyncState SyncError Unit)
    (cp : BlockHeaderInfo) {hashes : List BlockHash} (hne : hashes ≠ []) :
    followWith finalize btc bitcoind checkpoint cp hashes =
      processBlocksWith finalize btc bitcoind checkpoint hashes >>= fun _ =>
        closing bitcoind checkpoint cp :=
  if_neg (by simpa using hne)

/-- The loop and what follows it. -/
def remaining (btc : BitcoinLib) (lib : SigningLib) (bitcoind : Bitcoind) (checkpoint : BlockHash)
    (cp : BlockHeaderInfo) (hashes : List BlockHash) : Handler SyncState SyncError Unit := do
  processBlocksWith (finalizeBlock btc lib bitcoind) btc bitcoind checkpoint hashes
  closing bitcoind checkpoint cp

/-- One block is fetched and added. -/
def addNext (btc : BitcoinLib) (bitcoind : Bitcoind) (hash : BlockHash) :
    Handler SyncState SyncError Unit := do
  let _ ← callNode bitcoind (·.blockHeaderInfo hash)
  let block ← callNode bitcoind (·.block hash)
  addBlock btc block

theorem remaining_cons {s : SyncState} (hs : s.scheduler.lastFinalized ≠ checkpoint)
    (cp : BlockHeaderInfo) (hash : BlockHash) (rest : List BlockHash) :
    remaining btc lib bitcoind checkpoint cp (hash :: rest) s =
      (addNext btc bitcoind hash >>= fun _ =>
        finalizeOldestWith (finalizeBlock btc lib bitcoind) >>= fun _ =>
          remaining btc lib bitcoind checkpoint cp rest) s := by
  have hround : processBlocksWith (finalizeBlock btc lib bitcoind) btc bitcoind checkpoint
      (hash :: rest) s = (addNext btc bitcoind hash >>= fun _ =>
        finalizeOldestWith (finalizeBlock btc lib bitcoind) >>= fun _ =>
          processBlocksWith (finalizeBlock btc lib bitcoind) btc bitcoind checkpoint rest) s := by
    rw [processBlocksWith, bind_run, get_run]
    dsimp only
    rw [if_neg hs]
    simp only [addNext, bind_assoc]
  rw [remaining, bind_run, hround, ← bind_run (f := fun _ => closing bitcoind checkpoint cp),
    bind_assoc, bind_run, bind_run]
  simp only [bind_assoc]
  rfl

section rest
variable (hstill : ∀ n, bitcoind n = bitcoind 0)
include hstill

theorem Alike.remaining (cp : BlockHeaderInfo) (hashes : List BlockHash) : Coupled (Alike True)
    (remaining btc lib bitcoind checkpoint cp hashes)
    (Macbeth.remaining btc lib bitcoind checkpoint cp hashes) := by
  refine Coupled.bind (processBlocks hstill checkpoint hashes) fun _ => ?_
  refine Coupled.bind (trackMempool hstill cp) fun _ => Coupled.get_bind fun s s' h => ?_
  rw [h.lastFinalized trivial]
  exact Coupled.ite (Coupled.pure ()) (Coupled.lift _)

omit hstill in
theorem addBlock_length {block : Block} {s s' : SyncState}
    (h : addBlock btc block s = (.ok (), s')) :
    s'.scheduler.lastBlocks.length = s.scheduler.lastBlocks.length + 1 ∧
      s'.scheduler.confWindow = s.scheduler.confWindow := by
  rw [addBlock, get_bind_eq_ok] at h
  obtain ⟨last, s₁, hlast, hrest⟩ := Handler.bind_eq_ok.mp h
  obtain ⟨_, s₂, hassert, hadd⟩ := Handler.bind_eq_ok.mp hrest
  obtain ⟨-, hs₁⟩ := Handler.lift_eq_ok.mp hlast
  obtain ⟨-, hs₂⟩ := Handler.lift_eq_ok.mp hassert
  rw [hs₂, hs₁] at hadd
  cases hadd
  exact ⟨by simp, rfl⟩

/-- A block that is finalized in both makes the states alike altogether. -/
theorem Alike.finalizeOldest_exactly {s s' t t' : SyncState} (h : Alike False s s')
    (hfull : s.scheduler.confWindow < s.scheduler.lastBlocks.length)
    (hs : finalizeOldestWith (Macbeth.finalizeBlock btc lib bitcoind) s = (.ok (), t))
    (hs' : finalizeOldestWith (Macbeth.finalizeBlock btc lib bitcoind) s' = (.ok (), t')) :
    Alike True t t' := by
  have hboth : Coupled (Alike False) (finalizeOldestWith (Macbeth.finalizeBlock btc lib bitcoind))
      (finalizeOldestWith (Macbeth.finalizeBlock btc lib bitcoind)) := finalizeOldest hstill
  have hcoupled := (hboth s s' h).2
  rw [hs, hs'] at hcoupled
  refine ⟨hcoupled.db, hcoupled.scheduler, fun _ => ?_⟩
  cases hblocks : s.scheduler.lastBlocks with
  | nil => simp [hblocks] at hfull
  | cons oldest others =>
    have hblocks' : s'.scheduler.lastBlocks = oldest :: others := by rw [← h.lastBlocks, hblocks]
    rw [hblocks, length_cons] at hfull
    rw [finalizeOldestWith_cons _ hblocks, if_pos hfull] at hs
    rw [finalizeOldestWith_cons _ hblocks', if_pos (h.confWindow ▸ hfull)] at hs'
    rw [(finalizeBlock_window hs).1, (finalizeBlock_window hs').1]

theorem Alike.addNext {exact : Prop} (hash : BlockHash) : Coupled (Alike exact)
    (addNext btc bitcoind hash) (Macbeth.addNext btc bitcoind hash) :=
  Coupled.bind (callNode hstill _) fun _ => Coupled.bind (callNode hstill _) addBlock

omit hstill in
theorem addNext_length {hash : BlockHash} {s s' : SyncState}
    (h : addNext btc bitcoind hash s = (.ok (), s')) :
    s'.scheduler.lastBlocks.length = s.scheduler.lastBlocks.length + 1 ∧
      s'.scheduler.confWindow = s.scheduler.confWindow := by
  obtain ⟨info, s₁, hheader, hrest⟩ := Handler.bind_eq_ok.mp h
  obtain ⟨block, s₂, hblock, hadd⟩ := Handler.bind_eq_ok.mp hrest
  obtain ⟨-, hs₁⟩ := Prod.mk.inj hheader
  obtain ⟨-, hs₂⟩ := Prod.mk.inj hblock
  obtain ⟨hlength, hwindow⟩ := addBlock_length hadd
  subst hs₁ hs₂
  exact ⟨hlength, hwindow⟩

/-- The loop from two states that are alike but for the last finalized block, when neither has
finalized the checkpoint and the next block overflows the window. -/
theorem Alike.remaining_cons {s s' : SyncState} (h : Alike False s s')
    (hs : s.scheduler.lastFinalized ≠ checkpoint) (hs' : s'.scheduler.lastFinalized ≠ checkpoint)
    (hfull : s.scheduler.confWindow ≤ s.scheduler.lastBlocks.length) (cp : BlockHeaderInfo)
    (hash : BlockHash) (rest : List BlockHash) :
    (Macbeth.remaining btc lib bitcoind checkpoint cp (hash :: rest) s).1 =
        (Macbeth.remaining btc lib bitcoind checkpoint cp (hash :: rest) s').1 ∧
      Alike False (Macbeth.remaining btc lib bitcoind checkpoint cp (hash :: rest) s).2
        (Macbeth.remaining btc lib bitcoind checkpoint cp (hash :: rest) s').2 := by
  rw [Macbeth.remaining_cons hs, Macbeth.remaining_cons hs']
  have hboth : Coupled (Alike False) (finalizeOldestWith (Macbeth.finalizeBlock btc lib bitcoind))
      (finalizeOldestWith (Macbeth.finalizeBlock btc lib bitcoind)) := finalizeOldest hstill
  refine (Alike.addNext hstill hash).run_bind (fun _ _ => id) h fun _ t t' ht _ halike => ?_
  obtain ⟨hlength, hwindow⟩ := addNext_length ht
  refine hboth.run_bind (fun _ _ => id) halike fun _ u u' hu hu' _ => ?_
  have hexact := halike.finalizeOldest_exactly hstill (by omega) hu hu'
  obtain ⟨hout, hend⟩ := Alike.remaining hstill cp rest u u' hexact
  exact ⟨hout, hend.db, hend.scheduler, fun h => h.elim⟩

end rest

/-- What a run is compared by: the finalized pegouts, the coins and the tracked transactions, in
the database and in memory. -/
structure SameResult (s s' : SyncState) : Prop where
  finalizedPegoutIds : s.db.finalizedPegoutIds = s'.db.finalizedPegoutIds
  utxos : s.db.utxos = s'.db.utxos
  trackedTxs : s.db.trackedTxs = s'.db.trackedTxs
  txs : s.scheduler.txs = s'.scheduler.txs

theorem Alike.sameResult {exact : Prop} {s s' : SyncState} (h : Alike exact s s') :
    SameResult s s' where
  finalizedPegoutIds := by rw [h.db]
  utxos := by rw [h.db]
  trackedTxs := by rw [h.db]
  txs := h.txs

/-- The call again, after one in which the operation has failed, reaches what a call without the
failure reaches, unless that one dies. -/
def Recovers (btc : BitcoinLib) (lib : SigningLib) (bitcoind : Bitcoind) (fuel : Nat)
    (checkpoint b : BlockHash) (point : DbPoint) (s : SyncState) : Prop :=
  (syncUntil btc lib bitcoind fuel checkpoint s).1 ≠ .panic →
    SameResult
      (syncUntil btc lib bitcoind fuel checkpoint
        (syncUntilWith (failingAt btc lib bitcoind b point) btc bitcoind fuel checkpoint s).2).2
      (syncUntil btc lib bitcoind fuel checkpoint s).2

/-- The search of the later call finds what was left of the first one. -/
theorem syncUntil_again (hnode : SteadyOn chain bitcoind) (hstill : ∀ n, bitcoind n = bitcoind 0)
    (hfree : chain.CollisionFree headers) (hfuel : chain.blocks.length ≤ fuel)
    (hcp : chain.hashes[cpHeight]? = some checkpoint) {n : Nat}
    (hsynced : NotSyncing chain bitcoind n) {cp : BlockHeaderInfo}
    (hheader : (bitcoind 0).blockHeaderInfo checkpoint = .ok cp)
    {start next : Nat} {s : SyncState} (hs : Between chain start next s)
    (hne : chain.hashes.drop next ≠ []) : ∃ s₂, s₂.SameTables s ∧
      syncUntil btc lib bitcoind fuel checkpoint s =
        remaining btc lib bitcoind checkpoint cp (chain.hashes.drop next) s₂ := by
  have hsynced' : NotSyncing chain bitcoind (s.calls + 1) := by
    refine ⟨?_, fun hash tip hlast htip => ?_⟩
    · rw [hstill, ← hstill n]
      exact hsynced.downloaded
    · rw [hstill, ← hstill (n + 3)]
      exact hsynced.recent hash tip hlast htip
  -- the last followed block is in the chain: it is the fork, and nothing is above it
  obtain hnil | ⟨front, last, hblocks⟩ := eq_nil_or_concat s.scheduler.lastBlocks
  · exact absurd hnil hs.nonempty
  rw [concat_eq_append] at hblocks
  have hlength := hs.length
  rw [hblocks, length_append, length_singleton] at hlength
  have hfork : Fork chain s.scheduler s.scheduler.lastBlocks [] (next - 1) := by
    refine ⟨by simp, ⟨last, by simp [hblocks], ?_⟩, by simp⟩
    rw [show next - 1 = start + front.length by omega]
    exact hs.segment front.length last (by simp [hblocks])
  have hremove : Removable bitcoind s.scheduler [] := ⟨by simp, by simp, by simp⟩
  obtain ⟨kept, dropped, height, cp', s₂, -, hfork', -, -, -, htables, hheader', hrun⟩ |
    ⟨r, -, -, hnone⟩ := syncUntilWith_cases hnode hfuel hcp s
  · obtain ⟨rfl, rfl, rfl⟩ := hfork.unique hfree hfork'
    obtain rfl := Except.ok.inj (hheader.symm.trans hheader')
    refine ⟨s₂, htables rfl, ?_⟩
    rw [← syncUntilWith_finalizeBlock, hrun, show next - 1 + 1 = next by omega,
      followWith_eq _ _ hne]
    rfl
  · exact absurd hremove (hnone hsynced' _ _ _ hfork)

/-- From the failed state the later call gets where the loop gets from the other one. -/
theorem FinalizesAt.again (hnode : SteadyOn chain bitcoind) (hstill : ∀ n, bitcoind n = bitcoind 0)
    (hfree : chain.CollisionFree headers) (hfuel : chain.blocks.length ≤ fuel)
    (hcp : chain.hashes[cpHeight]? = some checkpoint) {n : Nat}
    (hsynced : NotSyncing chain bitcoind n) {cp : BlockHeaderInfo}
    (hheader : (bitcoind 0).blockHeaderInfo checkpoint = .ok cp)
    (hpoint : point = .flush ∨ point = .readUtxos ∧ b ≠ checkpoint)
    {bound start next : Nat} {oldest : BlockInfo} {s failed done : SyncState}
    (hat : FinalizesAt chain b checkpoint bound start next oldest s)
    (hlate : LateFailure point oldest s failed done) (hne : chain.hashes.drop next ≠ []) :
    SameResult (syncUntil btc lib bitcoind fuel checkpoint failed).2
      (remaining btc lib bitcoind checkpoint cp (chain.hashes.drop next) done).2 := by
  have hbetween : Between chain (start + 1) next failed := by
    obtain ⟨hsegment, hlength, hnonempty⟩ := hat.between
    rw [← hlate.lastBlocks] at hsegment hlength hnonempty
    exact ⟨hsegment, hlength, hnonempty⟩
  obtain ⟨s₂, htables, hrun⟩ : ∃ s₂, s₂.SameTables failed ∧
      syncUntil btc lib bitcoind fuel checkpoint failed =
        remaining btc lib bitcoind checkpoint cp (chain.hashes.drop next) s₂ :=
    syncUntil_again hnode hstill hfree hfuel hcp hsynced hheader hbetween hne
  have hdone : done.scheduler.lastFinalized = b := by
    rw [hlate.scheduler]
    exact hat.hash
  have halike : Alike False s₂ done := by
    refine ⟨htables.db.trans hlate.db.symm, ?_, fun h => h.elim⟩
    rw [htables.scheduler, hlate.scheduler]
    rfl
  rw [hrun]
  obtain rfl | ⟨rfl, hb⟩ := hpoint
  · -- the failed state knows of the block
    have hexact : Alike True s₂ done := by
      refine ⟨halike.db, halike.scheduler, fun _ => ?_⟩
      rw [htables.scheduler, hlate.lastFinalized, if_pos rfl, hat.hash, hdone]
    exact (Alike.remaining hstill cp _ s₂ done hexact).2.sameResult
  · have hfinalized : s₂.scheduler.lastFinalized ≠ checkpoint := by
      rw [htables.scheduler, hlate.lastFinalized, if_neg (by decide)]
      exact hat.notDone
    have hfull : s₂.scheduler.confWindow ≤ s₂.scheduler.lastBlocks.length := by
      rw [htables.scheduler, hlate.confWindow, hlate.lastBlocks]
      exact hat.full
    cases hrest : chain.hashes.drop next with
    | nil => exact absurd hrest hne
    | cons hash rest =>
      exact (halike.remaining_cons hstill hfinalized (hdone ▸ hb) hfull cp hash rest).2.sameResult

end recovery

/-! ## The first block, and the block of a payment -/

/-- A signer that tracks the payment. -/
def signedState : SyncState :=
  let server := (play (windowOne false).step ((windowOne false).start freshDb)
    (signSession (paymentPsbt firstCoin) 10 ++ [depositCheckpoint])).2
  ⟨server.db, server.scheduler, 0⟩

/-- The state after the payment's block could not be finalized and the call was made again. -/
def unpaidState : SyncState :=
  (syncUntil payBitcoin fixedLengthSigning (nodeAfter.steady payBitcoin) 5 payBlockHash
    (syncUntilWith (failingAt payBitcoin fixedLengthSigning (nodeAfter.steady payBitcoin)
      payBlockHash (.storeFinalized 0)) payBitcoin (nodeAfter.steady payBitcoin) 5 payBlockHash
      signedState).2).2

end Macbeth
