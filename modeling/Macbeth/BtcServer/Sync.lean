import Macbeth.BtcServer.Scheduler

/-!
# Following the chain (`pegout_scheduler/mod.rs`)

`sync_until` finds the last followed block that is still in the node's chain and rolls back
what is above it, walks the headers from the tip down to it, adds the blocks in order, and
finalizes each block that falls out of the window.  Then it looks for tracked transactions
that are neither in the chain nor in the mempool.
-/

namespace Macbeth

open Checked Outcome

section sync
variable (btc : BitcoinLib) (lib : SigningLib) (bitcoind : Bitcoind)

/-! ## Finalizing a block -/

/-- The change outputs of a tracked transaction that pay the expected script, as coins. -/
def changeUtxos (db : Db) (spk : ScriptBuf) (tx : Tx) : List Utxo :=
  (tx.change.filter (·.2.scriptPubkey = spk)).map fun x =>
    ⟨x.1, x.2, none, ((db.utxos.lookup x.1).map (·.version)).getD 0⟩

/-- The first loop of `finalize_block`: the change becomes spendable. -/
def storeChange (changeSpk : Option ScriptBuf) (txid : Txid) : Handler SyncState SyncError Unit := do
  let s ← Handler.get
  let tx ← Handler.lift
    (ofOption (s.scheduler.txs.lookup txid) .trackedTxNotFoundInPegoutScheduler)
  match changeSpk with
  | some spk => updateDb fun db => db.storeUtxos (changeUtxos db spk tx)
  | none => pure ()

/-- The second loop of `finalize_block`: a spent input.  The transaction that is dropped is
the one that created the input, not one that spends it. -/
def spendInput (input : OutPoint) : Handler SyncState SyncError Unit := do
  let s ← Handler.get
  if input.txid ∈ s.scheduler.txs then
    updateScheduler fun s => { s with txs := s.txs.erase input.txid }
    updateDb (·.removeTrackedTx input.txid)
  updateDb (·.removeUtxo input)

/-- The third loop of `finalize_block`: the pegouts of a confirmed transaction are final. -/
def finalizeTx (txid : Txid) : Handler SyncState SyncError Unit := do
  let s ← Handler.get
  match s.scheduler.txs.lookup txid with
  | some tx =>
    let finalized := tx.pegoutRequests.map FinalizedPegout.ofRequest
    if finalized ≠ [] then
      updateDb (·.storeFinalizedPegoutIds finalized)
      let now ← tryNode bitcoind (·.now)
      updateDb (·.pruneFinalizedPegoutIds (BitVec.ofNat 64 (now / nanosPerSec)))
    updateScheduler fun s => { s with txs := s.txs.erase txid }
    updateDb (·.removeTrackedTx txid)
  | none => updateDb (·.removeTrackedTx txid)

/-- The inputs a block spends that concern the scheduler, each once. -/
def finalizedInputs (s : Scheduler) (block : BlockInfo) : List OutPoint :=
  (block.relevantInputs ++ block.relevantTxs.flatMap fun txid =>
    ((s.txs.lookup txid).map Tx.inputs).getD []).dedup

/-- The sum of all coins, which panics on an overflow. -/
def assertUtxosFit {ε : Type} (db : Db) : Outcome ε Unit :=
  if natSum (db.utxos.values.map (·.output.value)) < 2 ^ 64 then .ok () else .panic

/-- `finalize_block`. -/
def finalizeBlock (block : BlockInfo) : Handler SyncState SyncError Unit := do
  let pk ← Handler.expect (← Handler.get).db.publicKeyPackage
  block.relevantTxs.forM (storeChange (changeScript btc lib pk))
  (finalizedInputs (← Handler.get).scheduler block).forM spendInput
  block.relevantTxs.forM (finalizeTx bitcoind)
  Handler.lift (assertUtxosFit (← Handler.get).db)
  updateScheduler fun s => { s with lastFinalized := block.hash }

/-! ## Adding a block -/

/-- What of a block concerns the scheduler: tracked transactions, and the inputs of others
that a tracked one spends. -/
def relevantTxs (s : Scheduler) (block : Block) : List Txid :=
  (block.txdata.map btc.computeTxid).filter (· ∈ s.txs)

def relevantInputs (s : Scheduler) (block : Block) : List OutPoint :=
  (block.txdata.filter (btc.computeTxid · ∉ s.txs)).flatMap fun tx =>
    tx.inputs.filter (· ∈ s.txsByInput)

/-- `add_block`. -/
def addBlock (block : Block) : Handler SyncState SyncError Unit := do
  let s := (← Handler.get).scheduler
  let last ← Handler.expect s.lastBlocks.getLast?
  Handler.assert (block.header.prevBlockhash = last.hash)
  updateScheduler fun s =>
    { s with
      confirmedTxs := s.confirmedTxs ++ relevantTxs btc s block
      lastBlocks := s.lastBlocks ++
        [⟨btc.blockHash block.header, relevantTxs btc s block, relevantInputs btc s block⟩] }

/-! ## The mempool -/

/-- The body of the loop of `track_mempool` for one tracked transaction.  The height of a
confirmed one is compared with the checkpoint's for the log only. -/
def checkDropped (txid : Txid) : Handler SyncState SyncError Unit := do
  match ← tryNode bitcoind (·.rawTransactionInfo txid) with
  | .ok none => pure ()
  | .ok (some blockhash) =>
    let _ ← callNode bitcoind (·.blockHeight blockhash)
    pure ()
  | .error _ =>
    let tx ← Handler.expect ((← Handler.get).scheduler.txs.lookup txid)
    match ← tryNode bitcoind (·.mempoolEntry txid) with
    | .ok _ => pure ()
    | .error .transactionNotInMempool =>
      unTrackTx txid
      addTxBackToPending tx
    | .error _ => pure ()

/-- `track_mempool`: the transactions created before the checkpoint block. -/
def trackMempool (checkpoint : BlockHeaderInfo) : Handler SyncState SyncError Unit := do
  let s ← Handler.get
  let old := s.scheduler.txs.values.filter (·.created < checkpoint.time.toNat * nanosPerSec)
  (old.map (·.txid)).forM (checkDropped bitcoind)

/-! ## Synchronizing -/

/-- `is_syncing`: initial download, or a tip over an hour old. -/
def isSyncing : Handler SyncState SyncError Bool := do
  if ← callNode bitcoind (·.initialBlockDownload) then pure true
  else
    let best ← callNode bitcoind (·.bestBlockHash)
    let tip ← callNode bitcoind (·.blockHeaderInfo best)
    let now ← tryNode bitcoind (·.now)
    pure (decide (60 * 60 * nanosPerSec < now - tip.time.toNat * nanosPerSec))

/-- The inner loop: roll back until the last followed block is in the node's chain. -/
def rollbackToChain : Nat → Handler SyncState SyncError BlockHeaderInfo
  | 0 => Handler.lift .panic
  | fuel + 1 => do
    let last ← Handler.expect (← Handler.get).scheduler.lastBlocks.getLast?
    let info ← callNode bitcoind (·.blockHeaderInfo last.hash)
    if 0 < info.confirmations then pure info
    else if (← Handler.get).scheduler.lastBlocks.length = 1 then Handler.fail .deepReorg
    else
      rollbackTip
      rollbackToChain fuel

/-- The tip of the node's chain. -/
def getTip : Handler SyncState SyncError BlockHeaderInfo := do
  let best ← callNode bitcoind (·.bestBlockHash)
  callNode bitcoind (·.blockHeaderInfo best)

/-- The outer loop: the last followed block that is in the chain, and a tip that did not
change meanwhile. -/
def findFork : Nat → Handler SyncState SyncError (BlockHeaderInfo × BlockHeaderInfo)
  | 0 => Handler.lift .panic
  | fuel + 1 => do
    let tip ← getTip bitcoind
    let last ← rollbackToChain bitcoind ((← Handler.get).scheduler.lastBlocks.length + 1)
    let newTip ← getTip bitcoind
    if tip.hash = newTip.hash then pure (last, tip) else findFork fuel

/-- The walk from the tip down to the fork; the hashes come out in the order in which the
blocks are to be added. -/
def collectHashes (last : BlockHeaderInfo) :
    Nat → BlockHeaderInfo → List BlockHash → Handler SyncState SyncError (List BlockHash)
  | 0, _, _ => Handler.lift .panic
  | fuel + 1, cursor, toSync => do
    let prevhash ← Handler.expect cursor.previousBlockHash
    let cursor ← callNode bitcoind (·.blockHeaderInfo prevhash)
    if cursor.height = last.height then
      Handler.assert (cursor.hash = last.hash)
      pure toSync
    else collectHashes last fuel cursor (cursor.hash :: toSync)

/-- The blocks of one call: the fork, then the hashes above it. -/
def blocksToSync (fuel : Nat) : Handler SyncState SyncError (List BlockHash) := do
  let (last, tip) ← findFork bitcoind fuel
  if last.height = tip.height then
    Handler.assert (tip.hash = last.hash)
    pure []
  else collectHashes bitcoind last fuel tip [tip.hash]

/-- The block that falls out of the window is finalized. -/
def finalizeOldest : Handler SyncState SyncError Unit := do
  let s := (← Handler.get).scheduler
  match s.lastBlocks with
  | oldest :: rest =>
    if s.confWindow < s.lastBlocks.length then
      updateScheduler fun s => { s with lastBlocks := rest }
      finalizeBlock btc lib bitcoind oldest
    else pure ()
  | [] => pure ()

/-- The loop over the blocks, which the checkpoint ends. -/
def processBlocks (checkpoint : BlockHash) : List BlockHash → Handler SyncState SyncError Unit
  | [] => pure ()
  | hash :: rest => do
    if (← Handler.get).scheduler.lastFinalized = checkpoint then pure ()
    else
      let _ ← callNode bitcoind (·.blockHeaderInfo hash)
      let block ← callNode bitcoind (·.block hash)
      addBlock btc block
      finalizeOldest btc lib bitcoind
      processBlocks checkpoint rest

/-- `sync_until`. -/
def syncUntil (fuel : Nat) (checkpoint : BlockHash) : Handler SyncState SyncError Unit := do
  let cp ← callNode bitcoind (·.blockHeaderInfo checkpoint)
  if ← isSyncing bitcoind then Handler.fail .nodeNotSynced
  else
    let hashes ← blocksToSync bitcoind fuel
    if hashes.isEmpty then pure ()
    else
      processBlocks btc lib bitcoind checkpoint hashes
      trackMempool bitcoind cp
      if (← Handler.get).scheduler.lastFinalized = checkpoint then pure ()
      else Handler.fail .checkPointNotReached

end sync

end Macbeth
