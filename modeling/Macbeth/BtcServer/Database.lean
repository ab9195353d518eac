import Macbeth.BtcServer.PegoutId
import Macbeth.Wallet.Psbt

/-!
# The database of btc-server (`database/mod.rs`, `pegout_scheduler/mod.rs`)

The tables a signer keeps across restarts: the wallet's coins, the transactions it tracks,
the pegouts that wait to be paid, the ids of those that are paid for good, and the PSBTs
of signing sessions.  A pegout starts in the second, moves to the first when a transaction
that pays it is signed, and from there to the third when that is deep in the chain, or
back.

Reads and writes of the store itself are taken to succeed.  Merkle roots of the tables are
written and read by other parts only and are left out.
-/

namespace Macbeth

open List FinMap

/-! ## Records -/

/-- `PegoutRequest`. -/
structure PegoutRequest where
  id : PegoutId
  spk : ScriptBuf
  value : Amount
  botanixHeight : BitVec 64
  timestamp : Option (BitVec 64)
  deriving DecidableEq, Repr

/-- `pegout_scheduler::Tx`: a transaction of the federation with the pegouts it delivers. -/
structure Tx where
  txid : Txid
  tx : Transaction
  /-- Positions of the pegouts in the outputs. -/
  pegoutIdxs : List Nat
  pegoutRequests : List PegoutRequest
  /-- Positions of the outputs that pay the federation back. -/
  changeIdxs : List Nat
  /-- Nanoseconds since the epoch. -/
  created : Nat
  deriving DecidableEq, Repr

/-- `Tx::inputs`. -/
def Tx.inputs (tx : Tx) : List OutPoint := tx.tx.inputs

/-- The ids of the pegouts a tracked transaction delivers. -/
def Tx.pegoutIds (tx : Tx) : List PegoutId := tx.pegoutRequests.map (·.id)

/-- The outputs at some positions with their outpoints; a position out of range panics in
the source, and no `Tx` that `add_tx` builds has one. -/
def Tx.outputsAt (tx : Tx) (idxs : List Nat) : List (OutPoint × TxOut) :=
  idxs.filterMap fun i => (tx.tx.output[i]?).map fun out => (⟨tx.txid, BitVec.ofNat 32 i⟩, out)

/-- `Tx::pegouts`. -/
def Tx.pegouts (tx : Tx) : List (OutPoint × TxOut) := tx.outputsAt tx.pegoutIdxs

/-- `Tx::change`. -/
def Tx.change (tx : Tx) : List (OutPoint × TxOut) := tx.outputsAt tx.changeIdxs

/-- `FinalizedPegout`. -/
structure FinalizedPegout where
  id : PegoutId
  blockNumber : BitVec 64
  timestamp : Option (BitVec 64)
  deriving DecidableEq, Repr

/-- What finalizing a request records. -/
def FinalizedPegout.ofRequest (request : PegoutRequest) : FinalizedPegout :=
  ⟨request.id, request.botanixHeight, request.timestamp⟩

/-- The secret key package of this signer: its share and the group's key. -/
structure KeyPackage where
  signingShare : BitVec 256
  verifyingKey : VerifyingKey
  deriving DecidableEq, Repr

/-! ## Tables -/

structure Db where
  utxos : FinMap OutPoint Utxo
  trackedTxs : FinMap Txid Tx
  pendingPegouts : FinMap PegoutId PegoutRequest
  finalizedPegoutIds : FinMap PegoutId FinalizedPegout
  /-- `KEY_PEGOUTMGR_TIP`: the last finalized block the scheduler stored. -/
  pegoutMgrTip : Option BlockHash
  psbts : FinMap (List UInt8) Psbt
  keyPackage : Option KeyPackage
  publicKeyPackage : Option VerifyingKey
  /-- The ids in the log's messages on pruned records. -/
  pruneLog : List PegoutId
  deriving DecidableEq

namespace Db

/-- `store_utxos`: coins that are known stay as they are. -/
def storeUtxos (db : Db) (utxos : List Utxo) : Db :=
  { db with utxos := db.utxos.insertNewAll (·.outpoint) utxos }

/-- `reset_utxos`. -/
def resetUtxos (db : Db) (utxos : List Utxo) : Db :=
  { db with utxos := FinMap.insertNewAll ∅ (·.outpoint) utxos }

/-- `remove_utxo`. -/
def removeUtxo (db : Db) (op : OutPoint) : Db := { db with utxos := db.utxos.erase op }

/-- `store_tracked_tx`: replaces a row of the same id. -/
def storeTrackedTx (db : Db) (tx : Tx) : Db :=
  { db with trackedTxs := db.trackedTxs.insert tx.txid tx }

/-- `remove_tracked_tx`. -/
def removeTrackedTx (db : Db) (txid : Txid) : Db :=
  { db with trackedTxs := db.trackedTxs.erase txid }

/-- `get_tracked_txs`. -/
def getTrackedTxs (db : Db) : List Tx := db.trackedTxs.values

/-- `store_pending_pegouts`: a single request replaces one of the same id, several only
fill what is missing. -/
def storePendingPegouts (db : Db) : List PegoutRequest → Db
  | [] => db
  | [req] => { db with pendingPegouts := db.pendingPegouts.insert req.id req }
  | reqs => { db with pendingPegouts := db.pendingPegouts.insertNewAll (·.id) reqs }

/-- `get_pending_pegouts`. -/
def getPendingPegouts (db : Db) : List PegoutRequest := db.pendingPegouts.values

/-- `remove_pending_pegout`. -/
def removePendingPegout (db : Db) (ids : List PegoutId) : Db :=
  { db with pendingPegouts := db.pendingPegouts.eraseAll ids }

/-- `reset_pending_pegouts` with nothing to add back. -/
def clearPendingPegouts (db : Db) : Db := { db with pendingPegouts := ∅ }

/-- `get_finalized_pegout_ids`, as ids. -/
def finalizedIds (db : Db) : List PegoutId := db.finalizedPegoutIds.keys

/-- `store_finalized_pegout_ids_atomically`. -/
def storeFinalizedPegoutIds (db : Db) (pegouts : List FinalizedPegout) : Db :=
  { db with finalizedPegoutIds := db.finalizedPegoutIds.insertNewAll (·.id) pegouts }

/-- `reset_finalized_pegout_ids`. -/
def resetFinalizedPegoutIds (db : Db) (pegouts : List FinalizedPegout) : Db :=
  { db with finalizedPegoutIds := FinMap.insertNewAll ∅ (·.id) pegouts }

/-- `RETENTION_WINDOW_SECONDS`: 90 days. -/
def retentionWindowSeconds : Nat := 90 * 24 * 60 * 60

/-- The record is older than the retention window. -/
def isPrunable (now : BitVec 64) (p : FinalizedPegout) : Bool :=
  p.timestamp.any fun timestamp => timestamp.toNat < now.toNat - retentionWindowSeconds

/-- One step of the pruning loop: an old record goes, one without a time gets the
current. -/
def pruneRecord (now : BitVec 64) (m : FinMap PegoutId FinalizedPegout) (p : FinalizedPegout) :
    FinMap PegoutId FinalizedPegout :=
  match p.timestamp with
  | some _ => if isPrunable now p then m.erase p.id else m
  | none => m.insert p.id { p with timestamp := some now }

/-- `prune_finalized_pegout_ids`. -/
def pruneFinalizedPegoutIds (db : Db) (now : BitVec 64) : Db :=
  let pegouts := db.finalizedPegoutIds.values
  { db with
    finalizedPegoutIds := pegouts.foldl (pruneRecord now) db.finalizedPegoutIds
    pruneLog := db.pruneLog ++ (pegouts.filter (isPrunable now)).map (·.id) }

/-- `store_pegout_mgr_finalized_block`. -/
def storePegoutMgrFinalizedBlock (db : Db) (hash : BlockHash) : Db :=
  { db with pegoutMgrTip := some hash }

/-! ## What the updates do to the sets of ids -/

theorem mem_pending_store {db : Db} {reqs : List PegoutRequest} {id : PegoutId} :
    id ∈ (db.storePendingPegouts reqs).pendingPegouts ↔
      id ∈ reqs.map (·.id) ∨ id ∈ db.pendingPegouts := by
  match reqs with
  | [] => simp [storePendingPegouts]
  | [req] => simp [storePendingPegouts]
  | _ :: _ :: _ => exact mem_insertNewAll

theorem mem_pending_remove {db : Db} {ids : List PegoutId} {id : PegoutId} :
    id ∈ (db.removePendingPegout ids).pendingPegouts ↔ id ∉ ids ∧ id ∈ db.pendingPegouts :=
  mem_eraseAll

theorem mem_finalized_store {db : Db} {pegouts : List FinalizedPegout} {id : PegoutId} :
    id ∈ (db.storeFinalizedPegoutIds pegouts).finalizedPegoutIds ↔
      id ∈ pegouts.map (·.id) ∨ id ∈ db.finalizedPegoutIds :=
  mem_insertNewAll

theorem mem_foldl_pruneRecord {now : BitVec 64} {id : PegoutId} :
    ∀ {ps : List FinalizedPegout} {m : FinMap PegoutId FinalizedPegout}, id ∈ m →
      id ∈ ps.foldl (pruneRecord now) m ∨ id ∈ (ps.filter (isPrunable now)).map (·.id)
  | [], _, h => .inl h
  | p :: ps, m, h => by
    by_cases hp : isPrunable now p = true ∧ id = p.id
    · right
      rw [filter_cons_of_pos hp.1, hp.2]
      exact mem_cons_self
    · have hmem : id ∈ pruneRecord now m p := by
        unfold pruneRecord
        split
        · by_cases hold : isPrunable now p = true
          · rw [if_pos hold, AList.mem_erase]
            exact ⟨fun heq => hp ⟨hold, heq⟩, h⟩
          · rwa [if_neg hold]
        · exact AList.mem_insert _ |>.mpr (.inr h)
      refine (mem_foldl_pruneRecord hmem).imp_right fun hlog => ?_
      rw [filter_cons]
      split
      · exact mem_cons_of_mem _ hlog
      · exact hlog

/-- A pruned id is in the new part of the log. -/
theorem mem_finalized_prune {db : Db} {now : BitVec 64} {id : PegoutId}
    (h : id ∈ db.finalizedPegoutIds) :
    id ∈ (db.pruneFinalizedPegoutIds now).finalizedPegoutIds ∨
      id ∈ (db.pruneFinalizedPegoutIds now).pruneLog.drop db.pruneLog.length := by
  rw [pruneFinalizedPegoutIds, drop_left]
  exact mem_foldl_pruneRecord h

@[simp] theorem storePendingPegouts_utxos (db : Db) (reqs : List PegoutRequest) :
    (db.storePendingPegouts reqs).utxos = db.utxos := by
  unfold storePendingPegouts; split <;> rfl

@[simp] theorem storePendingPegouts_trackedTxs (db : Db) (reqs : List PegoutRequest) :
    (db.storePendingPegouts reqs).trackedTxs = db.trackedTxs := by
  unfold storePendingPegouts; split <;> rfl

@[simp] theorem storePendingPegouts_finalizedPegoutIds (db : Db) (reqs : List PegoutRequest) :
    (db.storePendingPegouts reqs).finalizedPegoutIds = db.finalizedPegoutIds := by
  unfold storePendingPegouts; split <;> rfl

@[simp] theorem storePendingPegouts_pruneLog (db : Db) (reqs : List PegoutRequest) :
    (db.storePendingPegouts reqs).pruneLog = db.pruneLog := by
  unfold storePendingPegouts; split <;> rfl

@[simp] theorem storePendingPegouts_psbts (db : Db) (reqs : List PegoutRequest) :
    (db.storePendingPegouts reqs).psbts = db.psbts := by
  unfold storePendingPegouts; split <;> rfl

@[simp] theorem storePendingPegouts_publicKeyPackage (db : Db) (reqs : List PegoutRequest) :
    (db.storePendingPegouts reqs).publicKeyPackage = db.publicKeyPackage := by
  unfold storePendingPegouts; split <;> rfl

end Db

end Macbeth
