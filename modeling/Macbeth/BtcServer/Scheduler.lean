import Macbeth.BtcServer.PsbtChecks

/-!
# The pegout scheduler (`pegout_scheduler/mod.rs`)

The scheduler keeps the signed transactions in memory, follows the last `conf_window`
blocks of the node's chain, and moves pegouts between the tables: a tracked transaction
deep enough in the chain is finalized, one that is rolled back or has left the mempool is
forgotten and its pegouts wait again.

The bitcoin node may move on between two calls: it is a sequence of views, and the `n`-th
call of a request sees the `n`-th.  A view also holds the local clock.  Loops that only the
node's answers end take fuel; running out of it is being killed in the loop, with the state
reached so far.
-/

namespace Macbeth

open Checked Outcome

/-! ## The bitcoin node -/

/-- An error of the node, by the texts the sources look for. -/
inductive RpcError where
  | transactionNotInMempool
  | alreadyInChain
  | inputsMissingOrSpent
  | other
  deriving DecidableEq, Repr

/-- `GetBlockHeaderResult`: a block outside the best chain has negative confirmations. -/
structure BlockHeaderInfo where
  hash : BlockHash
  height : Nat
  confirmations : Int
  previousBlockHash : Option BlockHash
  time : BitVec 32
  deriving DecidableEq, Repr

/-- What the node answers at one moment, and the clock. -/
structure View where
  blockHeaderInfo : BlockHash → Except RpcError BlockHeaderInfo
  bestBlockHash : Except RpcError BlockHash
  initialBlockDownload : Except RpcError Bool
  block : BlockHash → Except RpcError Block
  /-- The height `get_block_info` reports. -/
  blockHeight : BlockHash → Except RpcError Nat
  /-- The block `get_raw_transaction_info` reports; none in the mempool. -/
  rawTransactionInfo : Txid → Except RpcError (Option BlockHash)
  mempoolEntry : Txid → Except RpcError Unit
  /-- Whether `get_tx_out` finds the output unspent. -/
  txOut : OutPoint → Except RpcError Bool
  sendRawTransaction : Transaction → Except RpcError Txid
  /-- Nanoseconds since the epoch. -/
  now : Nat

/-- Times are in nanoseconds, block times in seconds. -/
def nanosPerSec : Nat := 1000000000

/-- The node over the calls of one request. -/
abbrev Bitcoind := Nat → View

/-! ## State -/

/-- `BlockInfo`. -/
structure BlockInfo where
  hash : BlockHash
  relevantTxs : List Txid
  relevantInputs : List OutPoint
  deriving DecidableEq, Repr

/-- `PegoutScheduler`, without its handles. -/
structure Scheduler where
  confWindow : Nat
  txs : FinMap Txid Tx
  txsByInput : FinMap OutPoint (List Txid)
  txsByPegout : FinMap TxOut (List Txid)
  confirmedTxs : List Txid
  lastBlocks : List BlockInfo
  lastFinalized : BlockHash
  deriving DecidableEq

/-- What the scheduler's methods change: the tables, the scheduler, and how many calls
the node has answered. -/
structure SyncState where
  db : Db
  scheduler : Scheduler
  calls : Nat
  deriving DecidableEq

/-- `SyncError`, as far as it is raised. -/
inductive SyncError where
  | checkPointNotReached
  | nodeNotSynced
  | rpc (e : RpcError)
  | deepReorg
  | trackedTxNotFoundInPegoutScheduler
  /-- An operation of the database has failed. -/
  | storage
  deriving DecidableEq, Repr

namespace Scheduler

/-! ## Tracking -/

/-- `entry(key).or_default().push(value)`. -/
def pushAt {κ ν : Type} [DecidableEq κ] (m : FinMap κ (List ν)) (key : κ) (value : ν) :
    FinMap κ (List ν) :=
  m.insert key ((m.lookup key).getD [] ++ [value])

/-- `track_tx`. -/
def trackTx (s : Scheduler) (tx : Tx) : Scheduler :=
  { s with
    txsByInput := tx.inputs.foldl (fun m input => pushAt m input tx.txid) s.txsByInput
    txsByPegout := tx.pegouts.foldl (fun m x => pushAt m x.2 tx.txid) s.txsByPegout
    txs := s.txs.insert tx.txid tx }

/-- `PegoutScheduler::new`. -/
def new (confWindow : Nat) (txs : List Tx) (lastFinalized : BlockHash) : Scheduler :=
  txs.foldl trackTx ⟨confWindow, ∅, ∅, ∅, [], [⟨lastFinalized, [], []⟩], lastFinalized⟩

/-- `tracked_pegout_request_ids`. -/
def trackedPegoutRequestIds (s : Scheduler) : List PegoutId := s.txs.values.flatMap Tx.pegoutIds

/-- The position of the output that pays a script, for each request; a missing one
panics. -/
def pegoutPositions {ε : Type} (tx : Transaction) (pegouts : List PegoutRequest) :
    Outcome ε (List Nat) :=
  pegouts.mapM fun pegout =>
    match tx.output.findIdx? (·.scriptPubkey = pegout.spk) with
    | some idx => .ok idx
    | none => .panic

/-- The positions of the change: neither a pegout nor of another script.  The aggregate
key is only looked at for an output that is no pegout, and panics there if it is
unusable. -/
def changePositions {ε : Type} (tx : Transaction) (pegoutIdxs : List Nat)
    (changeSpk : Option ScriptBuf) : Outcome ε (List Nat) :=
  tx.output.zipIdx.foldlM (fun ret x =>
    if pegoutIdxs.contains x.2 then .ok ret
    else match changeSpk with
      | none => .panic
      | some spk => .ok (if x.1.scriptPubkey = spk then ret ++ [x.2] else ret)) []

/-- `add_tx`: the transaction with its pegouts, and the scheduler that tracks it. -/
def addTx {ε : Type} (btc : BitcoinLib) (changeSpk : Option ScriptBuf) (s : Scheduler)
    (tx : Transaction) (pegouts : List PegoutRequest) (timestamp : Nat) :
    Outcome ε (Tx × Scheduler) := do
  let pegoutIdxs ← pegoutPositions tx pegouts
  let changeIdxs ← changePositions tx pegoutIdxs changeSpk
  let tracked : Tx := ⟨btc.computeTxid tx, tx, pegoutIdxs, pegouts, changeIdxs, timestamp⟩
  pure (tracked, s.trackTx tracked)

/-- What `add_tx` returns. -/
theorem addTx_eq_ok {ε : Type} {btc : BitcoinLib} {changeSpk : Option ScriptBuf} {s : Scheduler}
    {tx : Transaction} {pegouts : List PegoutRequest} {timestamp : Nat} {x : Tx × Scheduler}
    (h : (addTx btc changeSpk s tx pegouts timestamp : Outcome ε _) = .ok x) :
    x.1.txid = btc.computeTxid tx ∧ x.1.tx = tx ∧ x.1.pegoutRequests = pegouts ∧
      x.2 = s.trackTx x.1 := by
  obtain ⟨pegoutIdxs, -, h⟩ := bind_eq_ok.mp h
  obtain ⟨changeIdxs, -, h⟩ := bind_eq_ok.mp h
  obtain rfl := Outcome.ok.inj h
  exact ⟨rfl, rfl, rfl, rfl⟩

/-- The memory after `un_track_tx`: whole index entries go, also those of transactions
that share an input or a pegout output. -/
def forget (s : Scheduler) (txid : Txid) (tx : Tx) : Scheduler :=
  { s with
    txsByInput := s.txsByInput.eraseAll tx.inputs
    txsByPegout := s.txsByPegout.eraseAll (tx.pegouts.map (·.2))
    txs := s.txs.erase txid }

end Scheduler

/-! ## Access -/

/-- One call to the node. -/
def callNode {α : Type} (bitcoind : Bitcoind) (f : View → Except RpcError α) :
    Handler SyncState SyncError α := fun s =>
  (Outcome.ofExcept (f (bitcoind s.calls)) .rpc, { s with calls := s.calls + 1 })

/-- A call whose failure is handled on the spot. -/
def tryNode {α : Type} (bitcoind : Bitcoind) (f : View → α) : Handler SyncState SyncError α :=
  fun s => (.ok (f (bitcoind s.calls)), { s with calls := s.calls + 1 })

def updateDb (f : Db → Db) : Handler SyncState SyncError Unit :=
  Handler.update fun s => { s with db := f s.db }

def updateScheduler (f : Scheduler → Scheduler) : Handler SyncState SyncError Unit :=
  Handler.update fun s => { s with scheduler := f s.scheduler }

/-! ## Forgetting a transaction -/

/-- `un_track_tx`: panics if the transaction is not tracked. -/
def unTrackTx (txid : Txid) : Handler SyncState SyncError Unit := do
  let tx ← Handler.expect ((← Handler.get).scheduler.txs.lookup txid)
  updateScheduler (·.forget txid tx)
  updateDb (·.removeTrackedTx txid)

/-- `add_tx_back_to_pending`. -/
def addTxBackToPending (tx : Tx) : Handler SyncState SyncError Unit :=
  updateDb (·.storePendingPegouts tx.pegoutRequests)

/-- The body of the loop of `rollback_tip`. -/
def rollbackTx (txid : Txid) : Handler SyncState SyncError Unit := do
  let tx ← Handler.expect ((← Handler.get).scheduler.txs.lookup txid)
  updateScheduler fun s => { s with confirmedTxs := s.confirmedTxs.filter (· ≠ txid) }
  unTrackTx txid
  addTxBackToPending tx

/-- `rollback_tip`. -/
def rollbackTip : Handler SyncState SyncError Unit := do
  let drop ← Handler.expect (← Handler.get).scheduler.lastBlocks.getLast?
  updateScheduler fun s => { s with lastBlocks := s.lastBlocks.dropLast }
  drop.relevantTxs.forM rollbackTx

end Macbeth
