import Macbeth.BtcServer.RequestMoves

/-!
# Transactions that ought to be tracked

Three places of the scheduler look a transaction up that ought to be tracked: `un_track_tx` and
`rollback_tip` with an `expect`, `finalize_block` with an error.  Here the handlers are written
once more with the way out of these lookups left open; as written, they are the handlers of
the server (`serveOr_asWritten`).  That a request never meets such a missing transaction is
then that it goes the same way whatever the way out is.

The lookups succeed as long as the transactions of the followed blocks are tracked and no
two followed blocks share one (`Scheduler.Relied`).
-/

namespace Macbeth

open Outcome Handler List AList

/-- Where a transaction is looked up that ought to be tracked. -/
inductive LookupSite where
  | unTrackTx
  | rollbackTip
  | finalizeBlock

/-- What happens when it is not. -/
abbrev WayOut := LookupSite → Txid → Handler SyncState SyncError Tx

/-- The source's way out. -/
def asWritten : WayOut
  | .finalizeBlock, _ => fail .trackedTxNotFoundInPegoutScheduler
  | _, _ => lift .panic

section missing
variable (missing : WayOut) (btc : BitcoinLib) (lib : SigningLib) (bitcoind : Bitcoind)

/-- The lookup. -/
def trackedOr (site : LookupSite) (txid : Txid) : Handler SyncState SyncError Tx := do
  match (← Handler.get).scheduler.txs.lookup txid with
  | some tx => pure tx
  | none => missing site txid

def unTrackTxOr (txid : Txid) : Handler SyncState SyncError Unit := do
  let tx ← trackedOr missing .unTrackTx txid
  updateScheduler (·.forget txid tx)
  updateDb (·.removeTrackedTx txid)

def rollbackTxOr (txid : Txid) : Handler SyncState SyncError Unit := do
  let tx ← trackedOr missing .rollbackTip txid
  updateScheduler fun s => { s with confirmedTxs := s.confirmedTxs.filter (· ≠ txid) }
  unTrackTxOr missing txid
  addTxBackToPending tx

def rollbackTipOr : Handler SyncState SyncError Unit := do
  let drop ← Handler.expect (← Handler.get).scheduler.lastBlocks.getLast?
  updateScheduler fun s => { s with lastBlocks := s.lastBlocks.dropLast }
  drop.relevantTxs.forM (rollbackTxOr missing)

def rollbackToChainOr : Nat → Handler SyncState SyncError BlockHeaderInfo
  | 0 => Handler.lift .panic
  | fuel + 1 => do
    let last ← Handler.expect (← Handler.get).scheduler.lastBlocks.getLast?
    let info ← callNode bitcoind (·.blockHeaderInfo last.hash)
    if 0 < info.confirmations then pure info
    else if (← Handler.get).scheduler.lastBlocks.length = 1 then Handler.fail .deepReorg
    else
      rollbackTipOr missing
      rollbackToChainOr fuel

def findForkOr : Nat → Handler SyncState SyncError (BlockHeaderInfo × BlockHeaderInfo)
  | 0 => Handler.lift .panic
  | fuel + 1 => do
    let tip ← getTip bitcoind
    let last ← rollbackToChainOr missing bitcoind
      ((← Handler.get).scheduler.lastBlocks.length + 1)
    let newTip ← getTip bitcoind
    if tip.hash = newTip.hash then pure (last, tip) else findForkOr fuel

def blocksToSyncOr (fuel : Nat) : Handler SyncState SyncError (List BlockHash) := do
  let (last, tip) ← findForkOr missing bitcoind fuel
  if last.height = tip.height then
    Handler.assert (tip.hash = last.hash)
    pure []
  else collectHashes bitcoind last fuel tip [tip.hash]

def storeChangeOr (changeSpk : Option ScriptBuf) (txid : Txid) :
    Handler SyncState SyncError Unit := do
  let tx ← trackedOr missing .finalizeBlock txid
  match changeSpk with
  | some spk => updateDb fun db => db.storeUtxos (changeUtxos db spk tx)
  | none => pure ()

def finalizeBlockOr (block : BlockInfo) : Handler SyncState SyncError Unit := do
  let pk ← Handler.expect (← Handler.get).db.publicKeyPackage
  block.relevantTxs.forM (storeChangeOr missing (changeScript btc lib pk))
  (finalizedInputs (← Handler.get).scheduler block).forM spendInput
  block.relevantTxs.forM (finalizeTx bitcoind)
  Handler.lift (assertUtxosFit (← Handler.get).db)
  updateScheduler fun s => { s with lastFinalized := block.hash }

def finalizeOldestOr : Handler SyncState SyncError Unit := do
  let s := (← Handler.get).scheduler
  match s.lastBlocks with
  | oldest :: rest =>
    if s.confWindow < s.lastBlocks.length then
      updateScheduler fun s => { s with lastBlocks := rest }
      finalizeBlockOr missing btc lib bitcoind oldest
    else pure ()
  | [] => pure ()

def processBlocksOr (checkpoint : BlockHash) : List BlockHash → Handler SyncState SyncError Unit
  | [] => pure ()
  | hash :: rest => do
    if (← Handler.get).scheduler.lastFinalized = checkpoint then pure ()
    else
      let _ ← callNode bitcoind (·.blockHeaderInfo hash)
      let block ← callNode bitcoind (·.block hash)
      addBlock btc block
      finalizeOldestOr missing btc lib bitcoind
      processBlocksOr checkpoint rest

def checkDroppedOr (txid : Txid) : Handler SyncState SyncError Unit := do
  match ← tryNode bitcoind (·.rawTransactionInfo txid) with
  | .ok none => pure ()
  | .ok (some blockhash) =>
    let _ ← callNode bitcoind (·.blockHeight blockhash)
    pure ()
  | .error _ =>
    let tx ← Handler.expect ((← Handler.get).scheduler.txs.lookup txid)
    match ← tryNode bitcoind (·.mempoolEntry txid) with
    | .ok _ => pure ()
    | .error .transactionNotInMempool =>
      unTrackTxOr missing txid
      addTxBackToPending tx
    | .error _ => pure ()

def trackMempoolOr (checkpoint : BlockHeaderInfo) : Handler SyncState SyncError Unit := do
  let s ← Handler.get
  let old := s.scheduler.txs.values.filter (·.created < checkpoint.time.toNat * nanosPerSec)
  (old.map (·.txid)).forM (checkDroppedOr missing bitcoind)

def syncUntilOr (fuel : Nat) (checkpoint : BlockHash) : Handler SyncState SyncError Unit := do
  let cp ← callNode bitcoind (·.blockHeaderInfo checkpoint)
  if ← isSyncing bitcoind then Handler.fail .nodeNotSynced
  else
    let hashes ← blocksToSyncOr missing bitcoind fuel
    if hashes.isEmpty then pure ()
    else
      processBlocksOr missing btc lib bitcoind checkpoint hashes
      trackMempoolOr missing bitcoind cp
      if (← Handler.get).scheduler.lastFinalized = checkpoint then pure ()
      else Handler.fail .checkPointNotReached

end missing

section requests
variable (missing : WayOut) (config : Config) (bitcoind : Bitcoind)

def syncPegoutSchedulerOr (fuel : Nat) (checkpoint : BlockHash) : Handler Exec Status Unit := do
  onScheduler (syncUntilOr missing config.btc config.lib bitcoind fuel checkpoint)
  let lastFinalized := (← getServer).scheduler.lastFinalized
  updateServerDb (·.storePegoutMgrFinalizedBlock lastFinalized)

def serveNewConsensusCheckpointOr (fuel : Nat) (checkpoint : BlockHash) (pegins : List RpcUtxo)
    (pendingPegouts : List RpcPendingPegout) : Handler Exec Status Reply := do
  syncPegoutSchedulerOr missing config bitcoind fuel checkpoint
  let utxos ← Handler.lift (pegins.mapM fun p => Outcome.ofExcept (Utxo.tryFrom p) .badUtxo)
  updateServerDb (·.storeUtxos utxos)
  Handler.lift (assertUtxosFit (← getServer).db)
  telemetryCall config bitcoind (·.blockHeight checkpoint)
  storePegouts config pendingPegouts
  pure .empty

def servePsbtOr (fuel : Nat) (sessionId : List UInt8) (checkpoint : BlockHash)
    (feeRate : FeeRate) : Handler Exec Status Reply := do
  syncPegoutSchedulerOr missing config bitcoind fuel checkpoint
  let db := (← getServer).db
  let key ← Handler.lift (ofOption db.keyPackage .missingKeyPackage)
  let script ← Handler.lift
    (ofOption (changeScript config.btc config.lib key.verifyingKey) .missingKeyPackage)
  let psbt ← onDb .coordinator (makeTx config.btc config.lib config.minSigners config.makeTx
    feeRate script db.getTrackedTxs fuel (coordPendingPegouts db))
  onDb .coordinator (updatePsbt config.lib sessionId psbt)
  pure (.psbt psbt)

def handleBroadcastErrorOr (e : RpcError) (tx : Transaction) : Handler Exec Status Unit := do
  match e with
  | .alreadyInChain => pure ()
  | _ =>
    if e = .inputsMissingOrSpent then handleInvalidInputs bitcoind tx
    onScheduler (unTrackTxOr missing (config.btc.computeTxid tx))
    Handler.fail .failedToBroadcastTx

def serveFinalizeSigningOr (sessionId : List UInt8) : Handler Exec Status Reply := do
  let psbt ← Handler.lift
    ((finalizePsbt config.lib (← getServer).db sessionId).mapErr .coordinator)
  let tx ← Handler.lift (psbt.extractTx.mapErr .extractTx)
  match ← askNode bitcoind (·.sendRawTransaction tx) with
  | .ok _ => pure ()
  | .error e => handleBroadcastErrorOr missing config bitcoind e tx
  telemetryCall config bitcoind (·.bestBlockHash)
  let ids ← Handler.expect (psbt.pegoutIds.mapM PegoutId.fromBytes)
  updateServerDb (·.removePendingPegout ids)
  pure (.psbt psbt)

/-- The handler of a request; the others look up no transaction. -/
def Request.serveOr (fuel : Nat) : Request → Handler Exec Status Reply
  | .newConsensusCheckpoint checkpoint pegins pendingPegouts =>
    serveNewConsensusCheckpointOr missing config bitcoind fuel checkpoint pegins pendingPegouts
  | .getPsbt sessionId checkpoint feeRate =>
    servePsbtOr missing config bitcoind fuel sessionId checkpoint feeRate
  | .finalizeSigning sessionId => serveFinalizeSigningOr missing config bitcoind sessionId
  | request => request.serve config bitcoind fuel

end requests

/-! ## One lookup -/

/-- What the lookups rely on. -/
structure Scheduler.Relied (s : Scheduler) : Prop where
  tracked : ∀ b ∈ s.lastBlocks, ∀ txid ∈ b.relevantTxs, txid ∈ s.txs
  nodup : (s.lastBlocks.flatMap (·.relevantTxs)).Nodup

section lookups
variable {missing : WayOut} {btc : BitcoinLib} {lib : SigningLib} {bitcoind : Bitcoind}

theorem unTrackTxOr_eqOn (txid : Txid) :
    EqOn (fun s => missing = asWritten ∨ txid ∈ s.scheduler.txs) (unTrackTxOr missing txid)
      (unTrackTx txid) := by
  intro s hs
  simp only [unTrackTxOr, unTrackTx, trackedOr, bind_run, get_run, Handler.expect, lift_run]
  cases htx : s.scheduler.txs.lookup txid with
  | some tx => rfl
  | none =>
    rw [hs.resolve_right (lookup_eq_none.mp htx)]
    rfl

theorem rollbackTxOr_eqOn (txid : Txid) :
    EqOn (fun s => missing = asWritten ∨ txid ∈ s.scheduler.txs) (rollbackTxOr missing txid)
      (rollbackTx txid) := by
  intro s hs
  have hrest (tx : Tx) : EqOn (fun s => missing = asWritten ∨ txid ∈ s.scheduler.txs)
      (unTrackTxOr missing txid >>= fun _ => addTxBackToPending tx)
      (unTrackTx txid >>= fun _ => addTxBackToPending tx) := (unTrackTxOr_eqOn txid).bind_left _
  simp only [rollbackTxOr, rollbackTx, trackedOr, bind_run, get_run, Handler.expect, lift_run]
  cases htx : s.scheduler.txs.lookup txid with
  | some tx => exact hrest tx { s with scheduler := { s.scheduler with confirmedTxs := _ } } hs
  | none =>
    rw [hs.resolve_right (lookup_eq_none.mp htx)]
    rfl

theorem storeChangeOr_eqOn (spk : Option ScriptBuf) (txid : Txid) :
    EqOn (fun s => missing = asWritten ∨ txid ∈ s.scheduler.txs) (storeChangeOr missing spk txid)
      (storeChange spk txid) := by
  intro s hs
  simp only [storeChangeOr, storeChange, trackedOr, bind_run, get_run, lift_run]
  cases htx : s.scheduler.txs.lookup txid with
  | some tx => rfl
  | none =>
    rw [hs.resolve_right (lookup_eq_none.mp htx)]
    rfl

/-- The mempool check has looked the transaction up before. -/
theorem checkDroppedOr_eq (txid : Txid) :
    checkDroppedOr missing bitcoind txid = checkDropped bitcoind txid := by
  funext s
  have hrest (tx : Tx) : EqOn (fun s => missing = asWritten ∨ txid ∈ s.scheduler.txs)
      (unTrackTxOr missing txid >>= fun _ => addTxBackToPending tx)
      (unTrackTx txid >>= fun _ => addTxBackToPending tx) := (unTrackTxOr_eqOn txid).bind_left _
  simp only [checkDroppedOr, checkDropped, bind_run, tryNode]
  cases (bitcoind s.calls).rawTransactionInfo txid with
  | ok blockhash => cases blockhash <;> rfl
  | error e =>
    simp only [bind_run, get_run, Handler.expect, lift_run]
    cases htx : s.scheduler.txs.lookup txid with
    | none => rfl
    | some tx =>
      have hmem : txid ∈ s.scheduler.txs := FinMap.mem_iff_lookup.mpr ⟨tx, htx⟩
      simp only [tryNode]
      cases (bitcoind (s.calls + 1)).mempoolEntry txid with
      | ok _ => rfl
      | error e' =>
        cases e' with
        | transactionNotInMempool =>
          exact hrest tx { s with calls := s.calls + 1 + 1 } (.inr hmem)
        | _ => rfl

theorem trackMempoolOr_eq (checkpoint : BlockHeaderInfo) :
    trackMempoolOr missing bitcoind checkpoint = trackMempool bitcoind checkpoint := by
  rw [trackMempoolOr, trackMempool, show checkDroppedOr missing bitcoind = checkDropped bitcoind from
    funext checkDroppedOr_eq]

/-! ## A block -/

/-- The transactions are tracked and distinct, or the way out is the source's. -/
def Found (missing : WayOut) (txids : List Txid) (s : SyncState) : Prop :=
  missing = asWritten ∨ txids.Nodup ∧ ∀ txid ∈ txids, txid ∈ s.scheduler.txs

variable {txids : List Txid}

theorem Found.of_mem {txid : Txid} {s : SyncState} (h : Found missing txids s)
    (hmem : txid ∈ txids) : missing = asWritten ∨ txid ∈ s.scheduler.txs :=
  h.imp_right fun h => h.2 txid hmem

theorem Scheduler.Relied.found {s : SyncState} (h : missing = asWritten ∨ s.scheduler.Relied)
    {b : BlockInfo} (hb : b ∈ s.scheduler.lastBlocks) : Found missing b.relevantTxs s :=
  h.imp_right fun h => ⟨(nodup_flatMap.mp h.nodup).1 b hb, h.tracked b hb⟩

/-- Rolling one transaction back leaves the others. -/
theorem rollbackTx_found {txid : Txid} :
    Triple (Found missing (txid :: txids)) (rollbackTx txid) (fun _ => Found missing txids)
      fun _ => True := by
  intro s hs
  cases htx : s.scheduler.txs.lookup txid with
  | none =>
    simp only [rollbackTx, bind_run, get_run, Handler.expect, lift_run, htx]
  | some tx =>
    simp only [rollbackTx, unTrackTx, addTxBackToPending, updateScheduler, updateDb, bind_run,
      get_run, update_run, Handler.expect, lift_run, htx]
    obtain hs | ⟨hnodup, hs⟩ := hs
    · exact .inl hs
    · obtain ⟨hnotin, hnodup⟩ := nodup_cons.mp hnodup
      refine .inr ⟨hnodup, fun t ht => ?_⟩
      have hne : t ≠ txid := fun heq => hnotin (heq ▸ ht)
      simpa [Scheduler.forget, hne, mem_erase] using hs t (mem_cons_of_mem _ ht)

theorem forM_rollbackTxOr_eqOn : ∀ txids : List Txid,
    EqOn (Found missing txids) (txids.forM (rollbackTxOr missing)) (txids.forM rollbackTx)
  | [] => EqOn.rfl
  | txid :: txids =>
    EqOn.bind ((rollbackTxOr_eqOn txid).mono fun _ hs => hs.of_mem mem_cons_self)
      rollbackTx_found fun _ => forM_rollbackTxOr_eqOn txids

theorem rollbackTipOr_eqOn :
    EqOn (fun s => missing = asWritten ∨ s.scheduler.Relied) (rollbackTipOr missing)
      rollbackTip := by
  intro s hs
  simp only [rollbackTipOr, rollbackTip, updateScheduler, bind_run, get_run, Handler.expect, lift_run]
  cases hlast : s.scheduler.lastBlocks.getLast? with
  | none => rfl
  | some b =>
    exact forM_rollbackTxOr_eqOn b.relevantTxs
      { s with scheduler := { s.scheduler with lastBlocks := s.scheduler.lastBlocks.dropLast } }
      (Scheduler.Relied.found hs (mem_of_getLast? hlast))

/-- Storing the change leaves the tracked transactions. -/
theorem storeChange_found (spk : Option ScriptBuf) (txid : Txid) :
    Triple (Found missing txids) (storeChange spk txid) (fun _ => Found missing txids)
      fun _ => True := by
  intro s hs
  simp only [storeChange, bind_run, get_run, lift_run]
  cases s.scheduler.txs.lookup txid with
  | none => trivial
  | some tx => cases spk <;> exact hs

theorem finalizeBlockOr_eqOn (block : BlockInfo) :
    EqOn (Found missing block.relevantTxs) (finalizeBlockOr missing btc lib bitcoind block)
      (finalizeBlock btc lib bitcoind block) := by
  refine EqOn.get_bind fun s hs => ?_
  refine EqOn.bind EqOn.rfl (Triple.expect (Q := fun _ => (· = s)) (E := fun _ => True)
    (fun _ _ _ h => h) fun _ _ => trivial) fun pk => ?_
  refine EqOn.bind_left (EqOn.mono ?_ fun _ h => h ▸ hs) _
  refine EqOn.forM (fun txid htxid => ?_) fun txid _ => storeChange_found _ txid
  exact (storeChangeOr_eqOn _ txid).mono fun _ hs => hs.of_mem htxid

theorem finalizeOldestOr_eqOn :
    EqOn (fun s => missing = asWritten ∨ s.scheduler.Relied)
      (finalizeOldestOr missing btc lib bitcoind) (finalizeOldest btc lib bitcoind) := by
  refine EqOn.get_bind fun s hs => ?_
  dsimp only
  cases hblocks : s.scheduler.lastBlocks with
  | nil => exact EqOn.rfl
  | cons oldest rest =>
    refine EqOn.ite (fun _ => ?_) fun _ => EqOn.rfl
    refine EqOn.bind EqOn.rfl (Triple.update (T := Found missing oldest.relevantTxs)
      (E := fun _ => True) fun _ h => ?_) fun _ => finalizeBlockOr_eqOn oldest
    subst h
    exact Scheduler.Relied.found hs (hblocks ▸ mem_cons_self)

end lookups

/-! ## A synchronization -/

namespace Stable

open Stage

variable {missing : WayOut} {config : Config} {input : Input} {P : Stage → Prop}
  (hP : Stable config input P) (hrelied : ∀ c, P c → missing = asWritten ∨ c.scheduler.Relied)
  {nonces : Option SessionNonces}

include hP hrelied

theorem rollbackToChainOr_eqOn (hsync : input.request.syncs) : ∀ fuel : Nat,
    EqOn (At P nonces .searching) (rollbackToChainOr missing input.bitcoind fuel)
      (Macbeth.rollbackToChain input.bitcoind fuel)
  | 0 => EqOn.rfl
  | fuel + 1 => by
    intro s hs
    cases hlast : s.scheduler.lastBlocks.getLast? with
    | none =>
      simp only [rollbackToChainOr, Macbeth.rollbackToChain, bind_run, get_run, Handler.expect,
        lift_run, hlast]
    | some b =>
      cases hinfo : (input.bitcoind s.calls).blockHeaderInfo b.hash with
      | error e =>
        simp only [rollbackToChainOr, Macbeth.rollbackToChain, Macbeth.callNode, Outcome.ofExcept,
          bind_run, get_run, Handler.expect, lift_run, hlast, hinfo]
      | ok info =>
        simp only [rollbackToChainOr, Macbeth.rollbackToChain, Macbeth.callNode, Outcome.ofExcept,
          bind_run, get_run, Handler.expect, lift_run, hlast, hinfo]
        by_cases hconf : 0 < info.confirmations
        · rw [if_pos hconf, if_pos hconf]
        · rw [if_neg hconf, if_neg hconf]
          by_cases hone : s.scheduler.lastBlocks.length = 1
          · simp only [bind_run, get_run, hone, if_true]
          · simp only [bind_run, get_run, hone, if_false]
            exact EqOn.bind (rollbackTipOr_eqOn.mono fun _ h => hrelied _ h.2)
              (rollbackTip hP hsync hinfo (not_lt.mp hconf))
              (fun _ => rollbackToChainOr_eqOn hsync fuel) { s with calls := s.calls + 1 } ⟨hlast, hs⟩

theorem findForkOr_eqOn (hsync : input.request.syncs) : ∀ fuel : Nat,
    EqOn (At P nonces .searching) (findForkOr missing input.bitcoind fuel)
      (Macbeth.findFork input.bitcoind fuel)
  | 0 => EqOn.rfl
  | fuel + 1 => by
    refine EqOn.bind EqOn.rfl (getTip input.bitcoind) fun tip => ?_
    refine EqOn.get_bind fun s hs => ?_
    refine EqOn.bind ((rollbackToChainOr_eqOn hP hrelied hsync _).mono fun _ h => h ▸ hs.2)
      ((rollbackToChain hP hsync _).conseq (fun _ h => h ▸ hs.2) (fun _ _ => id) fun _ => id)
      fun last => ?_
    refine EqOn.bind EqOn.rfl ((getTip input.bitcoind).conseq (fun _ h => h.2) (fun _ _ => id)
      fun _ => id) fun newTip => ?_
    exact EqOn.ite (fun _ => EqOn.rfl) fun _ =>
      (findForkOr_eqOn hsync fuel).mono fun _ h => h.2

theorem blocksToSyncOr_eqOn (hsync : input.request.syncs) (fuel : Nat) :
    EqOn (At P nonces .searching) (blocksToSyncOr missing input.bitcoind fuel)
      (Macbeth.blocksToSync input.bitcoind fuel) :=
  (findForkOr_eqOn hP hrelied hsync fuel).bind_left _

theorem processBlocksOr_eqOn (hsync : input.request.syncs) (checkpoint : BlockHash) :
    ∀ hashes : List BlockHash,
      (∀ hash ∈ hashes, ∃ info, Reached input.bitcoind info ∧ hash = info.hash) →
      EqOn (At P nonces .following)
        (processBlocksOr missing config.btc config.lib input.bitcoind checkpoint hashes)
        (Macbeth.processBlocks config.btc config.lib input.bitcoind checkpoint hashes)
  | [], _ => EqOn.rfl
  | hash :: rest, hhashes => by
    obtain ⟨⟨info, hinfo, rfl⟩, hrest⟩ := forall_mem_cons.mp hhashes
    refine EqOn.get_bind fun s hs => EqOn.ite (fun _ => EqOn.rfl) fun _ => ?_
    refine EqOn.bind EqOn.rfl ((callNode input.bitcoind _).conseq (fun _ h => h ▸ hs) (fun _ _ => id)
      fun _ => id) fun _ => ?_
    refine EqOn.bind EqOn.rfl ((callNode input.bitcoind _).conseq (fun _ h => h.2) (fun _ _ => id)
      fun _ => id) fun block => ?_
    rintro s ⟨⟨n, hblock⟩, hs⟩
    refine EqOn.bind EqOn.rfl (addBlock hP hsync hinfo hblock) (fun _ => ?_) s hs
    exact EqOn.bind (finalizeOldestOr_eqOn.mono fun _ h => hrelied _ h) (finalizeOldest hP)
      fun _ => processBlocksOr_eqOn hsync checkpoint rest hrest

theorem syncUntilOr_eqOn (hsync : input.request.syncs) (fuel : Nat) (checkpoint : BlockHash) :
    EqOn (At P nonces .searching)
      (syncUntilOr missing config.btc config.lib input.bitcoind fuel checkpoint)
      (Macbeth.syncUntil config.btc config.lib input.bitcoind fuel checkpoint) := by
  refine EqOn.bind EqOn.rfl (callNode input.bitcoind _) fun cp => ?_
  refine EqOn.bind EqOn.rfl ((isSyncing input.bitcoind).conseq (fun _ h => h.2) (fun _ _ => id)
    fun _ => id) fun syncing => ?_
  refine EqOn.ite (fun _ => EqOn.rfl) fun _ => ?_
  refine EqOn.bind (blocksToSyncOr_eqOn hP hrelied hsync fuel) (blocksToSync hP hsync fuel)
    fun hashes => ?_
  rintro s ⟨hhashes, hs⟩
  refine EqOn.ite (fun _ => EqOn.rfl) (fun _ => ?_) s hs
  rw [trackMempoolOr_eq]
  exact (processBlocksOr_eqOn hP hrelied hsync checkpoint hashes hhashes).bind_left _

end Stable

/-! ## Requests -/

section serve
variable {missing : WayOut} {config : Config} {input : Input} {P : Stage → Prop} {server : Server}

theorem syncPegoutSchedulerOr_eq (hP : Stable config input P)
    (hrelied : ∀ c, P c → missing = asWritten ∨ c.scheduler.Relied) (hsync : input.request.syncs)
    (hstart : P (server.stage .searching)) (fuel : Nat) (checkpoint : BlockHash) :
    syncPegoutSchedulerOr missing config input.bitcoind fuel checkpoint ⟨server, 0⟩ =
      syncPegoutScheduler config input.bitcoind fuel checkpoint ⟨server, 0⟩ := by
  refine EqOn.bind_left (P := (· = ⟨server, 0⟩)) (EqOn.zoom fun e he => ?_) _ _ rfl
  subst he
  exact hP.syncUntilOr_eqOn hrelied hsync fuel checkpoint _ hstart

/-- A synchronizing request that starts in a state with a property every move keeps, under
which nothing is missing. -/
theorem serveOr_eq_of_syncs (hP : Stable config input P)
    (hrelied : ∀ c, P c → missing = asWritten ∨ c.scheduler.Relied) (hsync : input.request.syncs)
    (hstart : P (server.stage .searching)) :
    input.request.serveOr missing config input.bitcoind input.fuel ⟨server, 0⟩ =
      input.request.serve config input.bitcoind input.fuel ⟨server, 0⟩ := by
  have hscheduler (checkpoint : BlockHash) : EqOn (· = ⟨server, 0⟩)
      (syncPegoutSchedulerOr missing config input.bitcoind input.fuel checkpoint)
      (syncPegoutScheduler config input.bitcoind input.fuel checkpoint) := by
    intro e he
    subst he
    exact syncPegoutSchedulerOr_eq hP hrelied hsync hstart input.fuel checkpoint
  cases hreq : input.request with
  | newConsensusCheckpoint checkpoint pegins pending =>
    exact (hscheduler checkpoint).bind_left _ _ rfl
  | getPsbt sessionId checkpoint feeRate => exact (hscheduler checkpoint).bind_left _ _ rfl
  | _ => rw [hreq] at hsync; exact hsync.elim

theorem handleBroadcastErrorOr_eqOn (e : RpcError) (tx : Transaction) :
    EqOn (fun x => missing = asWritten ∨ config.btc.computeTxid tx ∈ x.server.scheduler.txs)
      (handleBroadcastErrorOr missing config input.bitcoind e tx)
      (handleBroadcastError config input.bitcoind e tx) := by
  have huntrack : EqOn
      (fun x => missing = asWritten ∨ config.btc.computeTxid tx ∈ x.server.scheduler.txs)
      (onScheduler (unTrackTxOr missing (config.btc.computeTxid tx)) >>= fun _ =>
        Handler.fail .failedToBroadcastTx : Handler Exec Status Unit)
      (onScheduler (unTrackTx (config.btc.computeTxid tx)) >>= fun _ =>
        Handler.fail .failedToBroadcastTx) :=
    (EqOn.zoom fun x hx => unTrackTxOr_eqOn _ ⟨x.server.db, x.server.scheduler, x.calls⟩ hx).bind_left _
  have hinvalid : Triple
      (fun x => missing = asWritten ∨ config.btc.computeTxid tx ∈ x.server.scheduler.txs)
      (handleInvalidInputs input.bitcoind tx)
      (fun _ x => missing = asWritten ∨ config.btc.computeTxid tx ∈ x.server.scheduler.txs)
      (Stage.After fun _ => True) :=
    Stable.handleInvalidInputs (P := fun _ => True) (fun _ _ => ⟨.searching, trivial⟩)
      (fun _ _ h => h) (fun _ _ h => h) tx
  cases e with
  | alreadyInChain => exact EqOn.rfl
  | inputsMissingOrSpent => exact EqOn.bind EqOn.rfl hinvalid fun _ => huntrack
  | transactionNotInMempool => exact huntrack
  | other => exact huntrack

/-- A request to finalize a session whose transaction, if it is refused, is tracked. -/
theorem serveOr_eq_of_finalizes {sessionId : List UInt8}
    (hreq : input.request = .finalizeSigning sessionId)
    (htracked : ∀ psbt tx, finalizePsbt config.lib server.db sessionId = .ok psbt →
      psbt.extractTx = .ok tx → ¬ Accepts input.bitcoind tx →
      missing = asWritten ∨ config.btc.computeTxid tx ∈ server.scheduler.txs) :
    input.request.serveOr missing config input.bitcoind input.fuel ⟨server, 0⟩ =
      input.request.serve config input.bitcoind input.fuel ⟨server, 0⟩ := by
  rw [hreq]
  -- nothing changes before the broadcast
  refine EqOn.bind EqOn.rfl (Q := fun s e => s = server ∧ e = ⟨server, 0⟩) (E := fun _ => True)
    (fun e he => ?_) (fun s => ?_) _ (Eq.refl (⟨server, 0⟩ : Exec))
  · subst he
    exact ⟨rfl, rfl⟩
  refine EqOn.bind EqOn.rfl (Triple.lift_eq fun _ _ => trivial) fun psbt => ?_
  refine EqOn.bind EqOn.rfl (Triple.lift_eq fun _ _ => trivial) fun tx => ?_
  refine EqOn.bind EqOn.rfl (Q := fun r e => (r = (input.bitcoind 0).sendRawTransaction tx ∧
    (missing = asWritten ∨ Accepts input.bitcoind tx ∨
      config.btc.computeTxid tx ∈ server.scheduler.txs)) ∧ e = ⟨server, 1⟩) (E := fun _ => True)
    (fun e he => ?_) fun r => ?_
  · obtain ⟨htx, hpsbt, rfl, rfl⟩ := he
    refine ⟨⟨rfl, ?_⟩, rfl⟩
    by_cases haccepts : Accepts input.bitcoind tx
    · exact .inr (.inl haccepts)
    · exact (htracked psbt tx (mapErr_eq_ok.mp hpsbt) (mapErr_eq_ok.mp htx) haccepts).imp_right .inr
  rintro e ⟨⟨hr, hfound⟩, rfl⟩
  cases r with
  | ok txid => rfl
  | error e =>
    by_cases hchain : e = .alreadyInChain
    · subst hchain
      rfl
    · refine (handleBroadcastErrorOr_eqOn e tx).bind_left _ ⟨server, 1⟩ ?_
      obtain hfound | haccepts | hfound := hfound
      · exact .inl hfound
      · exact absurd (haccepts e hr.symm) hchain
      · exact .inr hfound

/-- With the source's way out the handlers are the server's. -/
theorem serveOr_asWritten (config : Config) (input : Input) (server : Server) :
    input.request.serveOr asWritten config input.bitcoind input.fuel ⟨server, 0⟩ =
      input.request.serve config input.bitcoind input.fuel ⟨server, 0⟩ := by
  by_cases hsync : input.request.syncs
  · exact serveOr_eq_of_syncs (P := fun _ => True) (fun _ _ _ _ => trivial) (fun _ _ => .inl rfl)
      hsync trivial
  · cases hreq : input.request with
    | finalizeSigning sessionId =>
      rw [← hreq]
      exact serveOr_eq_of_finalizes hreq fun _ _ _ _ _ => .inl rfl
    | newConsensusCheckpoint => rw [hreq] at hsync; exact absurd trivial hsync
    | getPsbt => rw [hreq] at hsync; exact absurd trivial hsync
    | _ => rfl

end serve

end Macbeth
