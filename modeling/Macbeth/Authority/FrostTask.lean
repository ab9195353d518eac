import Macbeth.BtcServer.App
import Macbeth.Lib.Run

/-!
# Handing committed blocks to btc-server (`frost_task.rs`, `abci.rs`)

When a block is committed, the ABCI driver stages its header with the pegins and pegouts in
the database and broadcasts a notification.  The frost task receives the notifications,
submits each block with `new_consensus_checkpoint`, and removes the staged header once
btc-server has answered.  If a submission fails, a flag makes the task go over the staged
headers in the next round of its loop; so it does after a start.

The driver and the task run side by side.  A step of this model is what either does between
two points where the other can come in: a commit, a crash, or for the task the choice at the
top of its loop, one retried header or one attempt to receive.  The notification channel has
a bounded buffer: a message sent into a full one displaces the oldest, and the next attempt to
receive reports that and ends the receive loop.  Header hashes are of any type, so that a run
may commit any number of blocks.
-/

namespace Macbeth

/-- A committed block as it is staged and broadcast: the checkpoint of its extra data, none if
that does not decode, and the request's pegins and pegouts. -/
structure CommittedBlock (H : Type) where
  hash : H
  number : Nat
  bitcoinBlockHash : Option BlockHash
  pegins : List RpcUtxo
  pendingPegouts : List RpcPendingPegout

/-- `CANON_STATE_NOTIFICATION_CHANNEL_SIZE`. -/
def canonStateNotificationChannelSize : Nat := 256

/-- Where the task stands in its loop. -/
inductive TaskPoint (H : Type) where
  | top
  | retrying (rest : List (CommittedBlock H))
  | receiving

/-- The blocks that are left to retry. -/
def TaskPoint.rest {H : Type} : TaskPoint H → List (CommittedBlock H)
  | .retrying rest => rest
  | _ => []

/-- The staging table, the channel and the task. -/
structure FrostTask (H : Type) where
  staged : FinMap H (CommittedBlock H)
  notifications : List (CommittedBlock H)
  /-- A notification was displaced since the last attempt to receive. -/
  lagged : Bool
  checkStagedHeaders : Bool
  point : TaskPoint H

/-- What happens next. -/
inductive FrostEvent (H : Type) where
  /-- The driver commits a block to both databases. -/
  | commit (block : CommittedBlock H)
  /-- The process dies between the two commits of a block. -/
  | commitThenCrash (block : CommittedBlock H)
  /-- The task goes on: whether the node is syncing, and btc-server's answers. -/
  | task (syncing : Bool) (answers : Nat → Bool)
  /-- The process dies after btc-server has answered and before the header is removed. -/
  | submitThenCrash (answers : Nat → Bool)
  | crash

namespace FrostTask

variable {H : Type}

/-- A process that starts: nothing in the channel, and the staged headers to be checked. -/
def start (staged : FinMap H (CommittedBlock H)) : FrostTask H := ⟨staged, [], false, true, .top⟩

/-- `retry_exec` with three retries: whether one of the four calls returns `Ok`. -/
def retryExec (answers : Nat → Bool) : Bool := (List.range 4).any answers

/-- The block the task is about to submit. -/
def next (s : FrostTask H) : Option (CommittedBlock H) :=
  match s.point with
  | .top => none
  | .retrying rest => rest.head?
  | .receiving => if s.lagged then none else s.notifications.head?

/-- The state when the task has taken up the next block. -/
def advance (s : FrostTask H) : FrostTask H :=
  match s.point with
  | .top => s
  | .retrying rest => { s with point := .retrying rest.tail }
  | .receiving => { s with notifications := s.notifications.tail }

/-- The staged headers by block number. -/
def sortedHeaders (s : FrostTask H) : List (CommittedBlock H) :=
  s.staged.values.mergeSort fun a b => a.number ≤ b.number

variable [DecidableEq H]

/-- `insert_staged_header`. -/
def insertStagedHeader (s : FrostTask H) (block : CommittedBlock H) : FrostTask H :=
  { s with staged := s.staged.insert block.hash block }

/-- Broadcast a notification. -/
def notifyCanonState (s : FrostTask H) (block : CommittedBlock H) : FrostTask H :=
  if s.notifications.length < canonStateNotificationChannelSize then
    { s with notifications := s.notifications ++ [block] }
  else
    { s with notifications := s.notifications.tail ++ [block], lagged := true }

/-- `handle_canon_state_commit`, up to the removal of the staged header; after that only a
signing session is started.  The output is the submission and whether it succeeded. -/
def handleCanonStateCommit (s : FrostTask H) (block : CommittedBlock H) (answers : Nat → Bool) :
    Option (CommittedBlock H × Bool) × FrostTask H :=
  match block.bitcoinBlockHash with
  | none => (none, s)
  | some _ =>
    if retryExec answers then (some (block, true), { s with staged := s.staged.erase block.hash })
    else (some (block, false), { s with checkStagedHeaders := true })

/-- The task when there is no block to submit: the top of the loop, and the ends of the two
loops. -/
def turn (s : FrostTask H) (syncing : Bool) : FrostTask H :=
  match s.point with
  | .top =>
    if syncing then s
    else if s.checkStagedHeaders then
      { s with checkStagedHeaders := false, point := .retrying s.sortedHeaders }
    else { s with point := .receiving }
  | .retrying _ => { s with point := .receiving }
  | .receiving => { s with lagged := false, point := .top }

/-- One step of the driver and the task. -/
def step (s : FrostTask H) : FrostEvent H → Option (CommittedBlock H × Bool) × FrostTask H
  | .commit block => (none, (s.insertStagedHeader block).notifyCanonState block)
  | .commitThenCrash block => (none, start (s.insertStagedHeader block).staged)
  | .task syncing answers =>
    match s.next with
    | some block => s.advance.handleCanonStateCommit block answers
    | none => (none, s.turn syncing)
  | .submitThenCrash answers =>
    match s.next with
    | some block => ((s.advance.handleCanonStateCommit block answers).1, start s.staged)
    | none => (none, start s.staged)
  | .crash => (none, start s.staged)

end FrostTask

end Macbeth
