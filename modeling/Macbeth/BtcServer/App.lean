import Macbeth.BtcServer.Coordinator
import Macbeth.BtcServer.Signer
import Macbeth.BtcServer.Sync

/-!
# The signer as a machine (`bin/main.rs`)

The requests a btc-server serves that touch the tables of pegouts, and what each does to
the server.  A request ends in a reply, an error or a panic; the panic hook shuts the
server down, so the next state is what a restart loads from the database.  Requests come one at a time, as
the locks of the source make them.

A request arrives with its arguments decoded; authentication and decoding errors change
nothing and are left out.
-/

namespace Macbeth

open Outcome

/-! ## Configuration and state -/

/-- What is fixed while a server lives. -/
structure Config where
  btc : BitcoinLib
  lib : SigningLib
  minSigners : Nat
  identifier : Identifier
  isCoordinator : Bool
  confWindow : Nat
  fallbackCheckpoint : BlockHash
  telemetry : Bool
  /-- `Address::from_script` succeeds on the server's network. -/
  isAddressScript : ScriptBuf → Bool
  makeTx : MakeTxConfig

/-- The server: the database, the scheduler and the nonces of the current session. -/
structure Server where
  db : Db
  scheduler : Scheduler
  frostRound1Nonces : Option SessionNonces
  deriving DecidableEq

/-- A request in progress: the server and how many calls the node has answered. -/
structure Exec where
  server : Server
  calls : Nat
  deriving DecidableEq

/-- `load_pegout_scheduler`: without a stored tip the tracked transactions are not loaded. -/
def Config.loadPegoutScheduler (config : Config) (db : Db) : Scheduler :=
  match db.pegoutMgrTip with
  | some latest => Scheduler.new config.confWindow db.getTrackedTxs latest
  | none => Scheduler.new config.confWindow [] config.fallbackCheckpoint

/-- The server a database starts as. -/
def Config.start (config : Config) (db : Db) : Server :=
  ⟨db, config.loadPegoutScheduler db, none⟩

/-! ## Requests -/

/-- `rpc::PendingPegout`. -/
structure RpcPendingPegout where
  pegoutId : List UInt8
  spk : ScriptBuf
  amount : BitVec 64
  height : BitVec 64
  timestamp : BitVec 64
  deriving DecidableEq, Repr

/-- `rpc::FinalizedPegout`. -/
structure RpcFinalizedPegout where
  id : List UInt8
  botanixBlockHeight : BitVec 64
  botanixBlockTimestamp : BitVec 64
  deriving DecidableEq, Repr

inductive Request where
  | newConsensusCheckpoint (checkpoint : BlockHash) (pegins : List RpcUtxo)
      (pendingPegouts : List RpcPendingPegout)
  | abortSigning
  | getRound1SigningPackage (psbt : Psbt) (commit : Nat → SigningNonces × SigningCommitments)
  | getRound2SigningPackage (psbt : Psbt)
  | getPsbt (sessionId : List UInt8) (checkpoint : BlockHash) (feeRate : FeeRate)
  | newRound1SigningPackage (sessionId : List UInt8) (frostId : Identifier) (psbt : Psbt)
  | newRound2SigningPackage (sessionId : List UInt8) (psbt : Psbt)
  | finalizeSigning (sessionId : List UInt8)
  | resetAllUtxos (utxos : List RpcUtxo)
  | resetWalletState (finalizedPegoutIds : List RpcFinalizedPegout)
  | restart

inductive Reply where
  | empty
  | psbt (psbt : Psbt)
  deriving DecidableEq

/-- The errors of the requests, by where they come from. -/
inductive Status where
  | sync (e : SyncError)
  | round1 (e : SigningRound1Error)
  | round2 (e : SigningRound2Error)
  | coordinator (e : CoordinatorError)
  | extractTx (e : ExtractTxError)
  | rpc (e : RpcError)
  | badUtxo (msg : String)
  | badPegoutSpk (spk : ScriptBuf)
  | badPegoutId (bytes : List UInt8)
  | alreadyInSigningSession
  | notInSigningSession
  | tooManyPegouts
  | missingKeyPackage
  | failedToBroadcastTx
  deriving DecidableEq, Repr

/-- A request with the node it meets and a bound for the loops the node decides. -/
structure Input where
  request : Request
  bitcoind : Bitcoind
  fuel : Nat

/-! ## Parts of the handlers -/

section handlers
variable (config : Config) (bitcoind : Bitcoind)

/-- A handler on the database. -/
def onDb {α ε : Type} (err : ε → Status) (x : Handler Db ε α) : Handler Exec Status α :=
  Handler.zoom (·.server.db) (fun db e => { e with server := { e.server with db := db } }) err x

/-- A handler of the scheduler. -/
def onScheduler {α : Type} (x : Handler SyncState SyncError α) : Handler Exec Status α :=
  Handler.zoom (fun e => ⟨e.server.db, e.server.scheduler, e.calls⟩)
    (fun s e => ⟨{ e.server with db := s.db, scheduler := s.scheduler }, s.calls⟩) .sync x

def getServer : Handler Exec Status Server := do return (← Handler.get).server

def updateServerDb (f : Db → Db) : Handler Exec Status Unit :=
  Handler.update fun e => { e with server := { e.server with db := f e.server.db } }

def setNonces (nonces : Option SessionNonces) : Handler Exec Status Unit :=
  Handler.update fun e => { e with server := { e.server with frostRound1Nonces := nonces } }

/-- A call to the node outside the scheduler. -/
def askNode {α : Type} (f : View → α) : Handler Exec Status α := fun e =>
  (.ok (f (bitcoind e.calls)), { e with calls := e.calls + 1 })

/-- A call made for the metrics only, whose error still ends the request. -/
def telemetryCall {α : Type} (f : View → Except RpcError α) : Handler Exec Status Unit := do
  if config.telemetry then
    let r ← askNode bitcoind f
    let _ ← Handler.lift (Outcome.ofExcept r .rpc)

/-- `sync_pegout_scheduler`. -/
def syncPegoutScheduler (fuel : Nat) (checkpoint : BlockHash) : Handler Exec Status Unit := do
  onScheduler (syncUntil config.btc config.lib bitcoind fuel checkpoint)
  let lastFinalized := (← getServer).scheduler.lastFinalized
  updateServerDb (·.storePegoutMgrFinalizedBlock lastFinalized)

/-- The script of the change, when the key package gives one. -/
def Config.changeSpk (db : Db) : Option ScriptBuf :=
  db.publicKeyPackage.bind (changeScript config.btc config.lib)

/-- `add_tracked_tx`: in memory, then in the database. -/
def addTrackedTx (tx : Transaction) (targets : List PegoutRequest) (timestamp : Nat) :
    Handler Exec Status Unit := do
  let server ← getServer
  let (tracked, scheduler) ← Handler.lift
    (server.scheduler.addTx config.btc (config.changeSpk server.db) tx targets timestamp)
  Handler.update fun e => { e with server := { e.server with scheduler := scheduler } }
  updateServerDb (·.storeTrackedTx tracked)

/-- `get_available_utxos`: the coins no tracked transaction spends, and the inputs those
spend. -/
def getAvailableUtxos (db : Db) : FinMap OutPoint Utxo × List OutPoint :=
  let trackedInputs := db.getTrackedTxs.flatMap Tx.inputs
  (db.utxos.filter fun op _ => !trackedInputs.contains op, trackedInputs)

/-- One pegout of a checkpoint request. -/
def parsePegout (p : RpcPendingPegout) : Outcome Status PegoutRequest := do
  ensure (config.isAddressScript p.spk = true) (.badPegoutSpk p.spk)
  let id ← ofOption (PegoutId.fromBytes p.pegoutId) (.badPegoutId p.pegoutId)
  pure ⟨id, p.spk, p.amount, p.height, some p.timestamp⟩

/-! ## The handlers -/

/-- The pegouts of a checkpoint request, after the synchronization and the deposits. -/
def storePegouts (pendingPegouts : List RpcPendingPegout) : Handler Exec Status Unit := do
  let server ← getServer
  let (available, trackedInputs) := getAvailableUtxos server.db
  if available.entries.isEmpty && trackedInputs.isEmpty then pure ()
  else
    let pegouts ← Handler.lift (pendingPegouts.mapM (parsePegout config))
    let broadcasted := server.db.finalizedIds ++ server.scheduler.trackedPegoutRequestIds
    updateServerDb (·.storePendingPegouts (pegouts.filter fun p => !broadcasted.contains p.id))

/-- `new_consensus_checkpoint`. -/
def serveNewConsensusCheckpoint (fuel : Nat) (checkpoint : BlockHash) (pegins : List RpcUtxo)
    (pendingPegouts : List RpcPendingPegout) : Handler Exec Status Reply := do
  syncPegoutScheduler config bitcoind fuel checkpoint
  let utxos ← Handler.lift (pegins.mapM fun p => Outcome.ofExcept (Utxo.tryFrom p) .badUtxo)
  updateServerDb (·.storeUtxos utxos)
  Handler.lift (assertUtxosFit (← getServer).db)
  telemetryCall config bitcoind (·.blockHeight checkpoint)
  storePegouts config pendingPegouts
  pure .empty

/-- `get_round1_signing_package`. -/
def serveRound1 (psbt : Psbt) (commit : Nat → SigningNonces × SigningCommitments) :
    Handler Exec Status Reply := do
  if (← getServer).frostRound1Nonces.isSome then Handler.fail .alreadyInSigningSession
  else
    let (psbt, nonces) ← onDb .round1
      (getRound1SigningPackage config.btc config.lib config.minSigners config.identifier psbt commit)
    setNonces (some nonces)
    pure (.psbt psbt)

/-- What follows the signature in round two: the transaction is tracked with those of its
pegouts that are pending here. -/
def trackSigned (psbt : Psbt) : Handler Exec Status Unit := do
  let tx ← Handler.expect (match psbt.extractTx with | .ok tx => some tx | _ => none)
  Handler.lift (ensure (psbt.outputs.length ≤ upperPegoutBound + 1) .tooManyPegouts)
  let ids ← Handler.lift (psbt.parsedPegoutIds (.round2 .failedToDeserializePegoutId))
  let pending := (← getServer).db.getPendingPegouts
  let now ← askNode bitcoind (·.now)
  addTrackedTx config tx (pending.filter fun p => ids.contains p.id) now
  if !config.isCoordinator then
    updateServerDb (·.clearPendingPegouts)

/-- `get_round2_signing_package`. -/
def serveRound2 (psbt : Psbt) : Handler Exec Status Reply := do
  match (← getServer).frostRound1Nonces with
  | none => Handler.fail .notInSigningSession
  | some nonces =>
    let signed ← onDb .round2
      (getRound2SigningPackage config.btc config.lib config.minSigners config.identifier psbt nonces)
    setNonces none
    trackSigned config bitcoind signed
    pure (.psbt signed)

/-- The outputs of the oldest pending pegouts. -/
def coordPendingPegouts (db : Db) : List (TxOut × PegoutId) :=
  ((db.getPendingPegouts.insertionSort fun a b => a.botanixHeight.toNat ≤ b.botanixHeight.toNat).take
    upperPegoutBound).map fun p => (⟨p.value, p.spk⟩, p.id)

/-- `get_psbt`. -/
def servePsbt (fuel : Nat) (sessionId : List UInt8) (checkpoint : BlockHash) (feeRate : FeeRate) :
    Handler Exec Status Reply := do
  syncPegoutScheduler config bitcoind fuel checkpoint
  let db := (← getServer).db
  let key ← Handler.lift (ofOption db.keyPackage .missingKeyPackage)
  let script ← Handler.lift
    (ofOption (changeScript config.btc config.lib key.verifyingKey) .missingKeyPackage)
  let psbt ← onDb .coordinator (makeTx config.btc config.lib config.minSigners config.makeTx
    feeRate script db.getTrackedTxs fuel (coordPendingPegouts db))
  onDb .coordinator (updatePsbt config.lib sessionId psbt)
  pure (.psbt psbt)

/-- `handle_invalid_inputs`: coins of the transaction that are spent leave the wallet. -/
def handleInvalidInputs (tx : Transaction) : Handler Exec Status Unit :=
  tx.inputs.forM fun op => do
    if op ∈ (← getServer).db.utxos then
      let unspent ← askNode bitcoind (·.txOut op)
      if !(← Handler.lift (Outcome.ofExcept unspent .rpc)) then
        updateServerDb (·.removeUtxo op)

/-- `handle_broadcast_error`: the transaction is forgotten, its pegouts are not made
pending. -/
def handleBroadcastError (e : RpcError) (tx : Transaction) : Handler Exec Status Unit := do
  match e with
  | .alreadyInChain => pure ()
  | _ =>
    if e = .inputsMissingOrSpent then handleInvalidInputs bitcoind tx
    onScheduler (unTrackTx (config.btc.computeTxid tx))
    Handler.fail .failedToBroadcastTx

/-- `finalize_signing`. -/
def serveFinalizeSigning (sessionId : List UInt8) : Handler Exec Status Reply := do
  let psbt ← Handler.lift
    ((finalizePsbt config.lib (← getServer).db sessionId).mapErr .coordinator)
  let tx ← Handler.lift (psbt.extractTx.mapErr .extractTx)
  match ← askNode bitcoind (·.sendRawTransaction tx) with
  | .ok _ => pure ()
  | .error e => handleBroadcastError config bitcoind e tx
  telemetryCall config bitcoind (·.bestBlockHash)
  let ids ← Handler.expect (psbt.pegoutIds.mapM PegoutId.fromBytes)
  updateServerDb (·.removePendingPegout ids)
  pure (.psbt psbt)

/-- `reset_all_utxos`. -/
def serveResetAllUtxos (utxos : List RpcUtxo) : Handler Exec Status Reply := do
  let utxos ← Handler.lift (utxos.mapM fun u => Outcome.ofExcept (Utxo.tryFrom u) .badUtxo)
  updateServerDb (·.resetUtxos utxos)
  pure .empty

/-- `reset_wallet_state`. -/
def serveResetWalletState (pegouts : List RpcFinalizedPegout) : Handler Exec Status Reply := do
  let pegouts ← Handler.lift (pegouts.mapM fun p => do
    let id ← ofOption (PegoutId.fromBytes p.id) (.badPegoutId p.id)
    pure (⟨id, p.botanixBlockHeight, some p.botanixBlockTimestamp⟩ : FinalizedPegout))
  updateServerDb (·.resetFinalizedPegoutIds pegouts)
  pure .empty

/-- The handler of a request. -/
def Request.serve (fuel : Nat) : Request → Handler Exec Status Reply
  | .newConsensusCheckpoint checkpoint pegins pendingPegouts =>
    serveNewConsensusCheckpoint config bitcoind fuel checkpoint pegins pendingPegouts
  | .abortSigning => do setNonces none; pure .empty
  | .getRound1SigningPackage psbt commit => serveRound1 config psbt commit
  | .getRound2SigningPackage psbt => serveRound2 config bitcoind psbt
  | .getPsbt sessionId checkpoint feeRate =>
    servePsbt config bitcoind fuel sessionId checkpoint feeRate
  | .newRound1SigningPackage sessionId frostId psbt => do
    onDb .coordinator
      (addRound1Signing config.btc config.lib config.minSigners sessionId frostId psbt)
    pure .empty
  | .newRound2SigningPackage sessionId psbt => do
    onDb .coordinator (addRound2Signing config.btc config.lib config.minSigners sessionId psbt)
    pure .empty
  | .finalizeSigning sessionId => serveFinalizeSigning config bitcoind sessionId
  | .resetAllUtxos utxos => serveResetAllUtxos utxos
  | .resetWalletState pegouts => serveResetWalletState pegouts
  | .restart => Handler.lift .panic

end handlers

/-- One request: the outcome and the next state. -/
def Config.step (config : Config) (server : Server) (input : Input) :
    Outcome Status Reply × Server :=
  match input.request.serve config input.bitcoind input.fuel ⟨server, 0⟩ with
  | (.panic, e) => (.panic, config.start e.server.db)
  | (outcome, e) => (outcome, e.server)

/-! ## A small federation

The first of two signers, with its keys and nothing else in its tables, and transactions
that pay a pegout from one coin.  Transaction ids are their double SHA-256, tabulated. -/

/-- The payment of 90,000 satoshis from a coin of 100,000. -/
def payment (coin : OutPoint) : Transaction :=
  ⟨2, 0, [⟨coin, [], enableRbfNoLocktime, []⟩], [⟨90000, p2tr 9⟩]⟩

def firstCoin : OutPoint := ⟨0xa, 0⟩

def secondCoin : OutPoint := ⟨0xb, 0⟩

def federationBitcoin : BitcoinLib where
  blockHash _ := 0
  computeTxid tx :=
    if tx.stripped = payment firstCoin then
      0xf4f51b465477e4f506d7febbaaea8ca3581cf372f38193cc69d40e39df29c615
    else if tx.stripped = payment secondCoin then
      0xc9d75816ac54ddc3f76c2cb2f70c740460afa36a7354d0d70af03e87443e47a7
    else 0
  extractMatches _ := .error .noTransactions
  isOnCurve _ := true

def firstSigner : Config where
  btc := federationBitcoin
  lib := fixedLengthSigning
  minSigners := 2
  identifier := 1
  isCoordinator := false
  confWindow := 6
  fallbackCheckpoint := 0
  telemetry := false
  isAddressScript := isP2tr
  makeTx := ⟨true, fun required optionals _ _ _ =>
    .ok ((required ++ optionals).map (·.outpoint)), []⟩

/-- The tables after key generation. -/
def freshDb : Db :=
  ⟨∅, ∅, ∅, ∅, none, ∅, some ⟨1, .point ⟨false, 1⟩⟩, some (.point ⟨false, 1⟩), []⟩

def samplePegoutId : PegoutId := ⟨0xb0, 0⟩

/-- The PSBT of a payment, with the commitments of some signers. -/
def paymentPsbt (coin : OutPoint) (commitments : List (Identifier × SigningCommitments)) : Psbt where
  unsignedTx := payment coin
  inputs := [commitments.foldl
    (fun input x => input.setSigningCommitment fixedLengthSigning x.1 x.2)
    { PsbtInput.empty with witnessUtxo := some ⟨100000, p2tr 7⟩ }]
  outputs := [PsbtOutput.empty.setPegoutId samplePegoutId.asBytes]

/-- A pair of nonces with their commitments. -/
def noncePair (k : BitVec 256) : SigningNonces × SigningCommitments :=
  (⟨k, k + 1⟩, ⟨⟨false, k⟩, ⟨false, k + 1⟩⟩)

/-- The PSBT of a payment with the commitments of both signers, the first's from `k`. -/
def committedPsbt (coin : OutPoint) (k : BitVec 256) : Psbt :=
  paymentPsbt coin [(1, (noncePair k).2), (2, (noncePair 100).2)]

/-- A node that cannot be reached. -/
def unreachable : Bitcoind := fun _ =>
  ⟨fun _ => .error .other, .error .other, .error .other, fun _ => .error .other,
    fun _ => .error .other, fun _ => .error .other, fun _ => .error .other, fun _ => .error .other,
    fun _ => .error .other, 0⟩

end Macbeth
