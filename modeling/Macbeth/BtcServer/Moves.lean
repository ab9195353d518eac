import Macbeth.BtcServer.App

/-!
# What a request can do

Every request is a sequence of small moves on the tables and the scheduler.  `Move` lists
them, each with what the code has checked when it makes it.  A property that every move
keeps is kept by every request, however it ends: `Stable.serve`.  An invariant of the server
is then proved by going through the moves and never through the handlers.

A synchronization goes through phases: blocks are rolled back while the fork is searched,
added and finalized afterwards.  The phase is not part of the server; it only says which
moves may come next.
-/

namespace Macbeth

open Outcome Handler List

/-- Where a synchronization stands. -/
inductive Phase where
  | searching
  | rollingBack (block : BlockInfo)
  | following
  /-- The inputs are those whose coins are being removed. -/
  | finalizing (block : BlockInfo) (inputs : List OutPoint)

/-- What the moves act on. -/
structure Stage where
  db : Db
  scheduler : Scheduler
  nonces : Option SessionNonces
  phase : Phase

/-- A server in a phase. -/
def Server.stage (server : Server) (phase : Phase) : Stage :=
  ⟨server.db, server.scheduler, server.frostRound1Nonces, phase⟩

/-- The scheduler and the tables after a block's loss or the mempool's: the transaction is
forgotten and its pegouts wait again. -/
def Stage.untrack (c : Stage) (txid : Txid) (tx : Tx) : Stage :=
  { c with
    db := (c.db.removeTrackedTx txid).storePendingPegouts tx.pegoutRequests
    scheduler := c.scheduler.forget txid tx }

/-- The row is dropped from memory and from the table. -/
def Stage.dropTx (c : Stage) (txid : Txid) : Stage :=
  { c with
    db := c.db.removeTrackedTx txid
    scheduler := { c.scheduler with txs := c.scheduler.txs.erase txid } }

/-- The tables after the pegouts of a transaction became final. -/
def Db.finalizePegouts (db : Db) (requests : List PegoutRequest) (now : Nat) : Db :=
  if requests = [] then db
  else (db.storeFinalizedPegoutIds (requests.map .ofRequest)).pruneFinalizedPegoutIds
    (BitVec.ofNat 64 (now / nanosPerSec))

namespace Db

variable (db : Db) (requests : List PegoutRequest) (now : Nat)

@[simp] theorem finalizePegouts_trackedTxs :
    (db.finalizePegouts requests now).trackedTxs = db.trackedTxs := by
  unfold finalizePegouts; split <;> rfl

@[simp] theorem finalizePegouts_pendingPegouts :
    (db.finalizePegouts requests now).pendingPegouts = db.pendingPegouts := by
  unfold finalizePegouts; split <;> rfl

@[simp] theorem finalizePegouts_utxos : (db.finalizePegouts requests now).utxos = db.utxos := by
  unfold finalizePegouts; split <;> rfl

@[simp] theorem finalizePegouts_psbts : (db.finalizePegouts requests now).psbts = db.psbts := by
  unfold finalizePegouts; split <;> rfl

@[simp] theorem finalizePegouts_publicKeyPackage :
    (db.finalizePegouts requests now).publicKeyPackage = db.publicKeyPackage := by
  unfold finalizePegouts; split <;> rfl

variable {db requests now} {id : PegoutId}

theorem pruneLog_finalizePegouts : db.pruneLog <+: (db.finalizePegouts requests now).pruneLog := by
  unfold finalizePegouts
  split
  · exact prefix_rfl
  · exact prefix_append ..

/-- What is final stays so, or its pruning is logged. -/
theorem mem_finalizePegouts (h : id ∈ requests.map (·.id) ∨ id ∈ db.finalizedPegoutIds) :
    id ∈ (db.finalizePegouts requests now).finalizedPegoutIds ∨
      id ∈ (db.finalizePegouts requests now).pruneLog.drop db.pruneLog.length := by
  unfold finalizePegouts
  split
  next hnil =>
    subst hnil
    exact .inl (h.resolve_left not_mem_nil)
  next =>
    apply mem_finalized_prune
    rw [mem_finalized_store, map_map]
    exact h

end Db

/-- The request synchronizes the scheduler. -/
def Request.syncs : Request → Prop
  | .newConsensusCheckpoint .. | .getPsbt .. => True
  | _ => False

/-- The request may change the nonces. -/
def Request.signs : Request → Prop
  | .abortSigning | .getRound1SigningPackage .. | .getRound2SigningPackage .. => True
  | _ => False

/-- The headers met on the way down from a tip the node reports. -/
inductive Reached (bitcoind : Bitcoind) : BlockHeaderInfo → Prop
  | tip {best : BlockHash} {info : BlockHeaderInfo} (m n : Nat) :
    (bitcoind m).bestBlockHash = .ok best → (bitcoind n).blockHeaderInfo best = .ok info →
    Reached bitcoind info
  | prev {info info' : BlockHeaderInfo} {prevhash : BlockHash} (n : Nat) :
    Reached bitcoind info → info.previousBlockHash = some prevhash →
    (bitcoind n).blockHeaderInfo prevhash = .ok info' → Reached bitcoind info'

/-- The node takes the transaction, or has it in its chain. -/
def Accepts (bitcoind : Bitcoind) (tx : Transaction) : Prop :=
  ∀ e, (bitcoind 0).sendRawTransaction tx = .error e → e = .alreadyInChain

variable (config : Config) (input : Input)

/-- One move of a request. -/
inductive Move : Stage → Stage → Prop
  -- the search for the fork
  | rollBack {c : Stage} {b : BlockInfo} {info : BlockHeaderInfo} (n : Nat) :
    input.request.syncs → c.phase = .searching → c.scheduler.lastBlocks.getLast? = some b →
    (input.bitcoind n).blockHeaderInfo b.hash = .ok info → info.confirmations ≤ 0 →
    Move c { c with
      scheduler := { c.scheduler with lastBlocks := c.scheduler.lastBlocks.dropLast }
      phase := .rollingBack b }
  | unconfirm {c : Stage} (txids : List Txid) :
    Move c { c with scheduler := { c.scheduler with confirmedTxs := txids } }
  | untrack {c : Stage} {b : BlockInfo} {txid : Txid} {tx : Tx} :
    c.phase = .rollingBack b → txid ∈ b.relevantTxs → c.scheduler.txs.lookup txid = some tx →
    Move c (c.untrack txid tx)
  | rolledBack {c : Stage} {b : BlockInfo} :
    c.phase = .rollingBack b → Move c { c with phase := .searching }
  | follow {c : Stage} {b : BlockInfo} {info : BlockHeaderInfo} (n : Nat) :
    input.request.syncs → c.phase = .searching → c.scheduler.lastBlocks.getLast? = some b →
    (input.bitcoind n).blockHeaderInfo b.hash = .ok info → 0 < info.confirmations →
    Move c { c with phase := .following }
  -- the new blocks
  | addBlock {c : Stage} {block : Block} {info : BlockHeaderInfo} {last : BlockInfo} (n : Nat) :
    input.request.syncs → c.phase = .following → c.scheduler.lastBlocks.getLast? = some last →
    block.header.prevBlockhash = last.hash → Reached input.bitcoind info →
    (input.bitcoind n).block info.hash = .ok block →
    Move c { c with
      scheduler := { c.scheduler with
        lastBlocks := c.scheduler.lastBlocks ++ [⟨config.btc.blockHash block.header,
          relevantTxs config.btc c.scheduler block, relevantInputs config.btc c.scheduler block⟩] } }
  | popBlock {c : Stage} {b : BlockInfo} {rest : List BlockInfo} :
    c.phase = .following → c.scheduler.lastBlocks = b :: rest →
    Move c { c with
      scheduler := { c.scheduler with lastBlocks := rest }
      phase := .finalizing b [] }
  | collectInputs {c : Stage} {b : BlockInfo} :
    c.phase = .finalizing b [] →
    Move c { c with phase := .finalizing b (finalizedInputs c.scheduler b) }
  | dropParent {c : Stage} {b : BlockInfo} {inputs : List OutPoint} {op : OutPoint} :
    c.phase = .finalizing b inputs → op ∈ inputs → op.txid ∈ c.scheduler.txs →
    Move c (c.dropTx op.txid)
  | spendCoin {c : Stage} {b : BlockInfo} {inputs : List OutPoint} {op : OutPoint} :
    c.phase = .finalizing b inputs → op ∈ inputs → Move c { c with db := c.db.removeUtxo op }
  | finalizeTx {c : Stage} {b : BlockInfo} {inputs : List OutPoint} {txid : Txid} {tx : Tx}
    (n : Nat) :
    c.phase = .finalizing b inputs → txid ∈ b.relevantTxs →
    c.scheduler.txs.lookup txid = some tx →
    Move c (({ c with
      db := c.db.finalizePegouts tx.pegoutRequests (input.bitcoind n).now } : Stage).dropTx txid)
  | finalizeMissing {c : Stage} {b : BlockInfo} {inputs : List OutPoint} {txid : Txid} :
    c.phase = .finalizing b inputs → txid ∈ b.relevantTxs → txid ∉ c.scheduler.txs →
    Move c { c with db := c.db.removeTrackedTx txid }
  | finalized {c : Stage} {b : BlockInfo} {inputs : List OutPoint} :
    c.phase = .finalizing b inputs →
    Move c { c with
      scheduler := { c.scheduler with lastFinalized := b.hash }
      phase := .following }
  -- the mempool
  | dropUnconfirmed {c : Stage} {txid : Txid} {tx : Tx} {e : RpcError} (m n : Nat) :
    input.request.syncs → c.phase = .following → c.scheduler.txs.lookup txid = some tx →
    (input.bitcoind m).rawTransactionInfo txid = .error e →
    (input.bitcoind n).mempoolEntry txid = .error .transactionNotInMempool →
    Move c (c.untrack txid tx)
  | saveTip {c : Stage} :
    Move c { c with db := c.db.storePegoutMgrFinalizedBlock c.scheduler.lastFinalized }
  -- coins
  | storeUtxos {c : Stage} (utxos : List Utxo) : Move c { c with db := c.db.storeUtxos utxos }
  | resetUtxos {c : Stage} {rpc : List RpcUtxo} (utxos : List Utxo) :
    input.request = .resetAllUtxos rpc → Move c { c with db := c.db.resetUtxos utxos }
  | removeSpent {c : Stage} {sessionId : List UInt8} (op : OutPoint) :
    input.request = .finalizeSigning sessionId → Move c { c with db := c.db.removeUtxo op }
  -- pegouts
  | dropFinalized {c : Stage} {id : PegoutId} :
    id ∈ c.db.finalizedPegoutIds → Move c { c with db := c.db.removePendingPegout [id] }
  | storePegouts {c : Stage} {checkpoint : BlockHash} {pegins : List RpcUtxo}
    {pending : List RpcPendingPegout} {pegouts : List PegoutRequest} :
    input.request = .newConsensusCheckpoint checkpoint pegins pending →
    pending.mapM (parsePegout config) = .ok pegouts →
    Move c { c with
      db := c.db.storePendingPegouts (pegouts.filter fun p =>
        !(c.db.finalizedIds ++ c.scheduler.trackedPegoutRequestIds).contains p.id) }
  | resetFinalized {c : Stage} {rpc : List RpcFinalizedPegout} (pegouts : List FinalizedPegout) :
    input.request = .resetWalletState rpc →
    Move c { c with db := c.db.resetFinalizedPegoutIds pegouts }
  -- signing sessions
  | setNonces {c : Stage} (nonces : Option SessionNonces) :
    input.request.signs → Move c { c with nonces := nonces }
  | track {c : Stage} {psbt : Psbt} {tx : Transaction} {ids : List PegoutId} {tracked : Tx} :
    input.request = .getRound2SigningPackage psbt → psbt.extractTx = .ok tx →
    psbt.pegoutIds.mapM PegoutId.fromBytes = some ids →
    tracked.txid = config.btc.computeTxid tx → tracked.tx = tx →
    tracked.pegoutRequests = c.db.getPendingPegouts.filter (fun p => ids.contains p.id) →
    Move c { c with
      db := c.db.storeTrackedTx tracked
      scheduler := c.scheduler.trackTx tracked }
  | clearPending {c : Stage} {psbt : Psbt} :
    input.request = .getRound2SigningPackage psbt → config.isCoordinator = false →
    Move c { c with db := c.db.clearPendingPegouts }
  | savePsbts {c : Stage} (psbts : FinMap (List UInt8) Psbt) :
    (∀ sessionId, input.request ≠ .finalizeSigning sessionId) →
    Move c { c with db := { c.db with psbts := psbts } }
  | untrackRefused {c : Stage} {sessionId : List UInt8} {psbt : Psbt} {tx : Transaction} {row : Tx} :
    input.request = .finalizeSigning sessionId →
    finalizePsbt config.lib c.db sessionId = .ok psbt → psbt.extractTx = .ok tx →
    ¬ Accepts input.bitcoind tx →
    c.scheduler.txs.lookup (config.btc.computeTxid tx) = some row →
    Move c { c with
      db := c.db.removeTrackedTx (config.btc.computeTxid tx)
      scheduler := c.scheduler.forget (config.btc.computeTxid tx) row }
  | removePending {c : Stage} {sessionId : List UInt8} {psbt : Psbt} {tx : Transaction}
    {ids : List PegoutId} :
    input.request = .finalizeSigning sessionId →
    finalizePsbt config.lib c.db sessionId = .ok psbt → psbt.extractTx = .ok tx →
    Accepts input.bitcoind tx → psbt.pegoutIds.mapM PegoutId.fromBytes = some ids →
    Move c { c with db := c.db.removePendingPegout ids }

/-- Every move keeps the property. -/
def Stable (P : Stage → Prop) : Prop := ∀ c c', Move config input c c' → P c → P c'

/-- Requests that do not synchronize stay in the first phase. -/
theorem stable_searching {input : Input} (hsync : ¬ input.request.syncs) :
    Stable config input fun c => c.phase = .searching := by
  intro c c' hmove h
  cases hmove with
  | rollBack _ hsync' => exact absurd hsync' hsync
  | follow _ hsync' => exact absurd hsync' hsync
  | popBlock hphase => rw [h] at hphase; cases hphase
  | collectInputs hphase => rw [h] at hphase; cases hphase
  | finalized hphase => rw [h] at hphase; cases hphase
  | rolledBack => rfl
  | _ => exact h

/-! ## The synchronization as moves -/

/-- The property in a phase, as one of the scheduler's state. -/
def Stage.At (P : Stage → Prop) (nonces : Option SessionNonces) (phase : Phase) (s : SyncState) :
    Prop :=
  P ⟨s.db, s.scheduler, nonces, phase⟩

/-- The property in some phase. -/
def Stage.Anyhow (P : Stage → Prop) (nonces : Option SessionNonces) (s : SyncState) : Prop :=
  ∃ phase, Stage.At P nonces phase s

/-- The last followed block is in the node's chain. -/
def LastInChain (bitcoind : Bitcoind) (s : Scheduler) : Prop :=
  ∃ b info n, s.lastBlocks.getLast? = some b ∧
    (bitcoind n).blockHeaderInfo b.hash = .ok info ∧ 0 < info.confirmations

namespace Stable

open Stage

variable {config : Config} {input : Input} {P : Stage → Prop} (hP : Stable config input P)
  {nonces : Option SessionNonces}
variable {phase : Phase}

theorem at_anyhow : ∀ s, At P nonces phase s → Anyhow P nonces s :=
  fun _ h => ⟨phase, h⟩

/-- A call to the node changes nothing. -/
theorem callNode {α : Type} (bitcoind : Bitcoind) (f : View → Except RpcError α) :
    Triple (At P nonces phase) (callNode bitcoind f)
      (fun a s => (∃ n, f (bitcoind n) = .ok a) ∧ At P nonces phase s) (Anyhow P nonces) := by
  intro s hs
  unfold Macbeth.callNode
  cases h : f (bitcoind s.calls) with
  | ok a => exact ⟨⟨s.calls, h⟩, hs⟩
  | error e => exact at_anyhow _ hs

theorem tryNode {α : Type} (bitcoind : Bitcoind) (f : View → α) :
    Triple (At P nonces phase) (tryNode bitcoind f)
      (fun a s => (∃ n, f (bitcoind n) = a) ∧ At P nonces phase s) (Anyhow P nonces) :=
  fun s hs => ⟨⟨s.calls, rfl⟩, hs⟩

theorem getTip (bitcoind : Bitcoind) :
    Triple (At P nonces phase) (getTip bitcoind)
      (fun info s => Reached bitcoind info ∧ At P nonces phase s) (Anyhow P nonces) := by
  refine Triple.bind (callNode bitcoind _) fun best => Triple.of_fact fun ⟨m, hbest⟩ => ?_
  refine (callNode bitcoind _).conseq (fun _ => id) (fun info s h => ?_) fun _ => id
  obtain ⟨⟨n, hinfo⟩, hs⟩ := h
  exact ⟨.tip m n hbest hinfo, hs⟩

include hP

/-! ### The search for the fork -/

variable {b : BlockInfo}

theorem rollbackTx {txid : Txid} (h : txid ∈ b.relevantTxs) :
    Triple (At P nonces (.rollingBack b)) (rollbackTx txid)
      (fun _ => At P nonces (.rollingBack b)) (Anyhow P nonces) := by
  intro s hs
  cases htx : s.scheduler.txs.lookup txid with
  | none =>
    simp only [Macbeth.rollbackTx, bind_run, get_run, Handler.expect, lift_run, htx]
    exact at_anyhow _ hs
  | some tx =>
    simp only [Macbeth.rollbackTx, unTrackTx, addTxBackToPending, updateScheduler, updateDb,
      bind_run, get_run, update_run, Handler.expect, lift_run, htx]
    exact hP _ _ (.untrack rfl h htx) (hP _ _ (.unconfirm _) hs)

theorem rollbackTip {info : BlockHeaderInfo} {n : Nat} (hsync : input.request.syncs)
    (hinfo : (input.bitcoind n).blockHeaderInfo b.hash = .ok info)
    (hconf : info.confirmations ≤ 0) :
    Triple (fun s => s.scheduler.lastBlocks.getLast? = some b ∧ At P nonces .searching s)
      rollbackTip (fun _ => At P nonces .searching) (Anyhow P nonces) := by
  rintro s ⟨hlast, hs⟩
  have hloop : Triple (At P nonces (.rollingBack b)) (b.relevantTxs.forM Macbeth.rollbackTx)
      (fun _ => At P nonces .searching) (Anyhow P nonces) :=
    (Triple.forM fun txid h => rollbackTx hP h).conseq (fun _ => id)
      (fun _ _ => hP _ _ (.rolledBack rfl)) fun _ => id
  have hstart := hP _ _ (.rollBack n hsync rfl hlast hinfo hconf) hs
  have hrun : Macbeth.rollbackTip s = (b.relevantTxs.forM Macbeth.rollbackTx)
      { s with scheduler := { s.scheduler with lastBlocks := s.scheduler.lastBlocks.dropLast } } := by
    simp only [Macbeth.rollbackTip, updateScheduler, bind_run, get_run, update_run, Handler.expect,
      lift_run, hlast]
  rw [hrun]
  exact hloop _ hstart

theorem rollbackToChain (hsync : input.request.syncs) : ∀ fuel : Nat,
    Triple (At P nonces .searching) (rollbackToChain input.bitcoind fuel)
      (fun _ s => LastInChain input.bitcoind s.scheduler ∧ At P nonces .searching s)
      (Anyhow P nonces)
  | 0 => fun _ hs => at_anyhow _ hs
  | fuel + 1 => by
    intro s hs
    cases hlast : s.scheduler.lastBlocks.getLast? with
    | none =>
      simp only [Macbeth.rollbackToChain, bind_run, get_run, Handler.expect, lift_run, hlast]
      exact at_anyhow _ hs
    | some b =>
      cases hinfo : (input.bitcoind s.calls).blockHeaderInfo b.hash with
      | error e =>
        simp only [Macbeth.rollbackToChain, Macbeth.callNode, Outcome.ofExcept, bind_run, get_run,
          Handler.expect, lift_run, hlast, hinfo]
        exact at_anyhow _ hs
      | ok info =>
        simp only [Macbeth.rollbackToChain, Macbeth.callNode, Outcome.ofExcept, bind_run, get_run,
          Handler.expect, lift_run, hlast, hinfo]
        by_cases hconf : 0 < info.confirmations
        · rw [if_pos hconf]
          exact ⟨⟨b, info, s.calls, hlast, hinfo, hconf⟩, hs⟩
        · rw [if_neg hconf]
          by_cases hone : s.scheduler.lastBlocks.length = 1
          · simp only [bind_run, get_run, hone, if_true, fail_run]
            exact at_anyhow _ hs
          · -- one block less, and again
            simp only [bind_run, get_run, hone, if_false]
            exact Triple.bind (rollbackTip hP hsync hinfo (not_lt.mp hconf))
              (fun _ => rollbackToChain hsync fuel) { s with calls := s.calls + 1 } ⟨hlast, hs⟩

theorem findFork (hsync : input.request.syncs) : ∀ fuel : Nat,
    Triple (At P nonces .searching) (findFork input.bitcoind fuel)
      (fun x s => Reached input.bitcoind x.2 ∧ At P nonces .following s) (Anyhow P nonces)
  | 0 => fun _ hs => at_anyhow _ hs
  | fuel + 1 => by
    refine Triple.bind (getTip input.bitcoind) fun tip => Triple.of_fact fun htip => ?_
    refine Triple.get_bind fun s hs => ?_
    refine Triple.bind ((rollbackToChain hP hsync _).conseq (fun _ h => h ▸ hs) (fun _ _ => id)
      fun _ => id) fun last => ?_
    -- from here on the followed blocks stay
    refine Triple.bind ((getTip (P := fun c => LastInChain input.bitcoind c.scheduler ∧ P c)
      input.bitcoind).conseq (fun _ => id) (fun _ _ => id) fun s h => ?_) fun newTip =>
        Triple.of_fact fun _ => ?_
    · obtain ⟨phase, -, h⟩ := h
      exact ⟨phase, h⟩
    · refine Triple.ite (fun _ => Triple.pure fun s h => ?_) fun _ =>
        (findFork hsync fuel).conseq (fun _ h => h.2) (fun _ _ => id) fun _ => id
      obtain ⟨⟨b, info, n, hlast, hinfo, hconf⟩, hs⟩ := h
      exact ⟨htip, hP _ _ (.follow n hsync rfl hlast hinfo hconf) hs⟩

/-! ### The blocks to add -/

omit hP in
theorem collectHashes (bitcoind : Bitcoind) (last : BlockHeaderInfo) :
    ∀ (fuel : Nat) (cursor : BlockHeaderInfo) (toSync : List BlockHash),
      Reached bitcoind cursor → (∀ hash ∈ toSync, ∃ info, Reached bitcoind info ∧ hash = info.hash) →
      Triple (At P nonces phase) (collectHashes bitcoind last fuel cursor toSync)
        (fun hashes s => (∀ hash ∈ hashes, ∃ info, Reached bitcoind info ∧ hash = info.hash) ∧
          At P nonces phase s) (Anyhow P nonces)
  | 0, _, _, _, _ => fun _ hs => at_anyhow _ hs
  | fuel + 1, cursor, toSync, hcursor, htoSync => by
    refine Triple.bind (Triple.expect (Q := fun prevhash s =>
      cursor.previousBlockHash = some prevhash ∧ At P nonces phase s)
      (fun prevhash hprev s hs => ⟨hprev, hs⟩) at_anyhow) fun prevhash => Triple.of_fact fun hprev => ?_
    refine Triple.bind (callNode bitcoind _) fun next => Triple.of_fact fun ⟨n, hnext⟩ => ?_
    have hreached : Reached bitcoind next := .prev n hcursor hprev hnext
    refine Triple.ite (fun _ => ?_) fun _ => collectHashes bitcoind last fuel next _ hreached ?_
    · exact Triple.bind (Triple.assert (Q := fun _ => At P nonces phase) (fun _ _ hs => hs) at_anyhow)
        fun _ => Triple.pure fun s hs => ⟨htoSync, hs⟩
    · exact forall_mem_cons.mpr ⟨⟨next, hreached, rfl⟩, htoSync⟩

theorem blocksToSync (hsync : input.request.syncs) (fuel : Nat) :
    Triple (At P nonces .searching) (blocksToSync input.bitcoind fuel)
      (fun hashes s => (∀ hash ∈ hashes, ∃ info, Reached input.bitcoind info ∧ hash = info.hash) ∧
        At P nonces .following s) (Anyhow P nonces) := by
  refine Triple.bind (findFork hP hsync fuel) fun x => Triple.of_fact fun htip => ?_
  refine Triple.ite (fun _ => ?_) fun _ => collectHashes input.bitcoind x.1 fuel x.2 _ htip ?_
  · exact Triple.bind (Triple.assert (Q := fun _ => At P nonces .following) (fun _ _ hs => hs)
      at_anyhow) fun _ => Triple.pure fun s hs => ⟨forall_mem_nil _, hs⟩
  · exact forall_mem_singleton.mpr ⟨x.2, htip, rfl⟩

theorem addBlock {info : BlockHeaderInfo} {block : Block} {n : Nat} (hsync : input.request.syncs)
    (hinfo : Reached input.bitcoind info) (hblock : (input.bitcoind n).block info.hash = .ok block) :
    Triple (At P nonces .following) (addBlock config.btc block)
      (fun _ => At P nonces .following) (Anyhow P nonces) := by
  intro s hs
  cases hlast : s.scheduler.lastBlocks.getLast? with
  | none =>
    simp only [Macbeth.addBlock, bind_run, get_run, Handler.expect, lift_run, hlast]
    exact at_anyhow _ hs
  | some last =>
    by_cases hprev : block.header.prevBlockhash = last.hash
    · simp only [Macbeth.addBlock, updateScheduler, bind_run, get_run, update_run, Handler.expect,
        Handler.assert, lift_run, hlast, hprev, if_true]
      exact hP _ _ (.unconfirm _) (hP _ _ (.addBlock n hsync rfl hlast hprev hinfo hblock) hs)
    · simp only [Macbeth.addBlock, bind_run, get_run, Handler.expect, Handler.assert, lift_run, hlast,
        hprev, if_false]
      exact at_anyhow _ hs

/-! ### Finalizing a block -/

theorem storeChange (spk : Option ScriptBuf) (txid : Txid) :
    Triple (At P nonces phase) (storeChange spk txid) (fun _ => At P nonces phase)
      (Anyhow P nonces) := by
  refine Triple.get_bind fun s hs => Triple.bind (Triple.lift
    (Q := fun _ => At P nonces phase) (fun _ _ _ h => h ▸ hs) fun _ h => ⟨phase, h ▸ hs⟩) fun tx => ?_
  cases spk with
  | none => exact Triple.pure fun _ h => h
  | some spk => exact Triple.update fun s h => hP _ _ (.storeUtxos _) h

theorem spendInput {inputs : List OutPoint} {op : OutPoint} (hop : op ∈ inputs) :
    Triple (At P nonces (.finalizing b inputs)) (spendInput op)
      (fun _ => At P nonces (.finalizing b inputs)) (Anyhow P nonces) := by
  intro s hs
  by_cases hparent : op.txid ∈ s.scheduler.txs
  · simp only [Macbeth.spendInput, updateScheduler, updateDb, bind_run, get_run, update_run, hparent,
      if_true]
    exact hP _ _ (.spendCoin rfl hop) (hP _ _ (.dropParent rfl hop hparent) hs)
  · simp only [Macbeth.spendInput, updateDb, bind_run, get_run, update_run, hparent,
      if_false]
    exact hP _ _ (.spendCoin rfl hop) hs

theorem finalizeTx {inputs : List OutPoint} {txid : Txid} (h : txid ∈ b.relevantTxs) :
    Triple (At P nonces (.finalizing b inputs)) (finalizeTx input.bitcoind txid)
      (fun _ => At P nonces (.finalizing b inputs)) (Anyhow P nonces) := by
  intro s hs
  cases htx : s.scheduler.txs.lookup txid with
  | none =>
    simp only [Macbeth.finalizeTx, updateDb, bind_run, get_run, update_run, htx]
    exact hP _ _ (.finalizeMissing rfl h (AList.lookup_eq_none.mp htx)) hs
  | some tx =>
    have hmove := hP _ _ (.finalizeTx s.calls rfl h htx) hs
    by_cases hreqs : tx.pegoutRequests = []
    · simp only [Macbeth.finalizeTx, updateScheduler, updateDb, bind_run, get_run, update_run, htx,
        hreqs, map_nil, ne_eq, not_true_eq_false, if_false]
      simp only [Db.finalizePegouts, hreqs, if_true] at hmove
      exact hmove
    · simp only [Macbeth.finalizeTx, updateScheduler, updateDb, Macbeth.tryNode, bind_run, get_run,
        update_run, htx, ne_eq, map_eq_nil_iff, hreqs, not_false_eq_true, if_true]
      simp only [Db.finalizePegouts, hreqs, if_false] at hmove
      exact hmove

theorem finalizeBlock (b : BlockInfo) :
    Triple (At P nonces (.finalizing b [])) (finalizeBlock config.btc config.lib input.bitcoind b)
      (fun _ => At P nonces .following) (Anyhow P nonces) := by
  refine Triple.get_bind fun s hs => Triple.bind (Triple.expect
    (Q := fun _ => At P nonces (.finalizing b [])) (fun _ _ _ h => h ▸ hs) fun _ h => ⟨_, h ▸ hs⟩)
    fun pk => ?_
  refine Triple.bind (Triple.forM fun txid _ => storeChange hP _ txid) fun _ => ?_
  refine Triple.get_bind fun s hs => ?_
  have hinputs := hP _ _ (.collectInputs rfl) hs
  refine Triple.bind ((Triple.forM (P := At P nonces (.finalizing b (finalizedInputs s.scheduler b)))
    fun op hop => spendInput hP hop).conseq (fun _ h => h ▸ hinputs) (fun _ _ => id) fun _ => id)
    fun _ => ?_
  refine Triple.bind (Triple.forM fun txid h => finalizeTx hP h) fun _ => ?_
  refine Triple.get_bind fun s hs => Triple.bind (Triple.lift
    (Q := fun _ => At P nonces (.finalizing b _)) (fun _ _ _ h => h ▸ hs) fun _ h => ⟨_, h ▸ hs⟩)
    fun _ => ?_
  exact Triple.update fun s h => hP _ _ (.finalized rfl) h

theorem finalizeOldest :
    Triple (At P nonces .following) (finalizeOldest config.btc config.lib input.bitcoind)
      (fun _ => At P nonces .following) (Anyhow P nonces) := by
  refine Triple.get_bind fun s hs => ?_
  dsimp only
  cases hblocks : s.scheduler.lastBlocks with
  | nil => exact Triple.pure fun _ h => h ▸ hs
  | cons oldest rest =>
    refine Triple.ite (fun _ => ?_) fun _ => Triple.pure fun _ h => h ▸ hs
    refine Triple.bind (Triple.update (T := At P nonces (.finalizing oldest [])) fun _ h => ?_)
      fun _ => finalizeBlock hP oldest
    subst h
    exact hP _ _ (.popBlock rfl hblocks) hs

theorem processBlocks (hsync : input.request.syncs) (checkpoint : BlockHash) :
    ∀ hashes : List BlockHash,
      (∀ hash ∈ hashes, ∃ info, Reached input.bitcoind info ∧ hash = info.hash) →
      Triple (At P nonces .following)
        (processBlocks config.btc config.lib input.bitcoind checkpoint hashes)
        (fun _ => At P nonces .following) (Anyhow P nonces)
  | [], _ => Triple.pure fun _ h => h
  | hash :: rest, hhashes => by
    obtain ⟨⟨info, hinfo, rfl⟩, hrest⟩ := forall_mem_cons.mp hhashes
    refine Triple.get_bind fun s hs => Triple.ite (fun _ => Triple.pure fun _ h => h ▸ hs) fun _ => ?_
    refine Triple.bind ((callNode input.bitcoind _).conseq (fun _ h => h ▸ hs) (fun _ _ => id)
      fun _ => id) fun _ => Triple.of_fact fun _ => ?_
    refine Triple.bind (callNode input.bitcoind _) fun block => Triple.of_fact fun ⟨n, hblock⟩ => ?_
    refine Triple.bind (addBlock hP hsync hinfo hblock) fun _ => ?_
    exact Triple.bind (finalizeOldest hP) fun _ => processBlocks hsync checkpoint rest hrest

/-! ### The mempool, and the whole -/

theorem checkDropped (hsync : input.request.syncs) (txid : Txid) :
    Triple (At P nonces .following) (checkDropped input.bitcoind txid)
      (fun _ => At P nonces .following) (Anyhow P nonces) := by
  refine Triple.bind (tryNode input.bitcoind _) fun answer => Triple.of_fact fun ⟨m, hanswer⟩ => ?_
  match answer with
  | .ok none => exact Triple.pure fun _ h => h
  | .ok (some blockhash) =>
    exact Triple.bind (callNode input.bitcoind _) fun _ => Triple.pure fun _ h => h.2
  | .error e =>
    refine Triple.get_bind fun s hs => Triple.bind (Triple.expect
      (Q := fun tx t => s.scheduler.txs.lookup txid = some tx ∧ t = s)
      (fun tx htx _ h => ⟨htx, h⟩) fun _ h => ⟨_, h ▸ hs⟩) fun tx => Triple.of_fact fun htx => ?_
    rintro t rfl
    -- the second answer decides
    cases hentry : (input.bitcoind t.calls).mempoolEntry txid with
    | ok _ =>
      simp only [Macbeth.tryNode, bind_run, hentry]
      exact hs
    | error e' =>
      cases e' with
      | transactionNotInMempool =>
        simp only [Macbeth.tryNode, unTrackTx, addTxBackToPending, updateScheduler, updateDb, bind_run,
          get_run, update_run, Handler.expect, lift_run, hentry, htx]
        exact hP _ _ (.dropUnconfirmed m t.calls hsync rfl htx hanswer hentry) hs
      | _ =>
        simp only [Macbeth.tryNode, bind_run, hentry]
        exact hs

theorem trackMempool (hsync : input.request.syncs) (checkpoint : BlockHeaderInfo) :
    Triple (At P nonces .following) (trackMempool input.bitcoind checkpoint)
      (fun _ => At P nonces .following) (Anyhow P nonces) :=
  Triple.get_bind fun _ hs => (Triple.forM fun txid _ => checkDropped hP hsync txid).conseq
    (fun _ h => h ▸ hs) (fun _ _ => id) fun _ => id

omit hP in
theorem isSyncing (bitcoind : Bitcoind) :
    Triple (At P nonces phase) (isSyncing bitcoind) (fun _ => At P nonces phase)
      (Anyhow P nonces) := by
  refine Triple.bind (callNode bitcoind _) fun ibd => Triple.of_fact fun _ => ?_
  refine Triple.ite (fun _ => Triple.pure fun _ h => h) fun _ => ?_
  refine Triple.bind (callNode bitcoind _) fun best => Triple.of_fact fun _ => ?_
  refine Triple.bind (callNode bitcoind _) fun tip => Triple.of_fact fun _ => ?_
  exact Triple.bind (tryNode bitcoind _) fun now => Triple.pure fun _ h => h.2

/-- A synchronization keeps every stable property; one that succeeds ends in the phase in
which it follows the chain. -/
theorem syncUntil (hsync : input.request.syncs) (fuel : Nat) (checkpoint : BlockHash) :
    Triple (At P nonces .searching)
      (syncUntil config.btc config.lib input.bitcoind fuel checkpoint)
      (fun _ => At P nonces .following) (Anyhow P nonces) := by
  refine Triple.bind (callNode input.bitcoind _) fun cp => Triple.of_fact fun _ => ?_
  refine Triple.bind (isSyncing input.bitcoind) fun syncing => ?_
  refine Triple.ite (fun _ => Triple.fail at_anyhow) fun _ => ?_
  refine Triple.bind (blocksToSync hP hsync fuel) fun hashes => Triple.of_fact fun hhashes => ?_
  refine Triple.ite (fun _ => Triple.pure fun _ h => h) fun _ => ?_
  refine Triple.bind (processBlocks hP hsync checkpoint hashes hhashes) fun _ => ?_
  refine Triple.bind (trackMempool hP hsync cp) fun _ => Triple.get_bind fun s hs => ?_
  exact Triple.ite (fun _ => Triple.pure fun _ h => h ▸ hs) fun _ =>
    Triple.fail fun _ h => ⟨_, h ▸ hs⟩

end Stable

end Macbeth
