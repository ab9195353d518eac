import Macbeth.BtcServer.Moves
import Macbeth.Lib.Run

/-!
# The requests as moves

Each handler is taken apart into the moves of `Move`, so that a property every move keeps
is kept by every request: `Stable.serve`, and for one step of the machine `Stable.step`.
-/

namespace Macbeth

open Outcome Handler

/-- The requests a server has served, the newest first. -/
abbrev ServerHistory := History Server Input (Outcome Status Reply)

/-- The property in a phase, as one of a request in progress. -/
def Stage.During (P : Stage → Prop) (phase : Phase) (e : Exec) : Prop := P (e.server.stage phase)

/-- The property in some phase. -/
def Stage.After (P : Stage → Prop) (e : Exec) : Prop := ∃ phase, Stage.During P phase e

/-- The state after a request that ended, by how it ended. -/
theorem step_cases {config : Config} {server : Server} {input : Input} {Q : Reply → Exec → Prop}
    {E : Exec → Prop}
    (h : Triple (· = ⟨server, 0⟩) (input.request.serve config input.bitcoind input.fuel) Q E) :
    (∃ reply e, (fire config.step server input).output = .ok reply ∧ Q reply e ∧
      (config.step server input).2 = e.server) ∨
    (∃ err e, (fire config.step server input).output = .err err ∧ E e ∧
      (config.step server input).2 = e.server) ∨
    (∃ e, (fire config.step server input).output = .panic ∧ E e ∧
      (config.step server input).2 = config.start e.server.db) := by
  have hrun := h ⟨server, 0⟩ rfl
  unfold fire Config.step
  revert hrun
  rcases input.request.serve config input.bitcoind input.fuel ⟨server, 0⟩ with
    ⟨reply | err | _, e⟩ <;> intro hrun
  · exact .inl ⟨reply, e, rfl, hrun, rfl⟩
  · exact .inr (.inl ⟨err, e, rfl, hrun, rfl⟩)
  · exact .inr (.inr ⟨e, rfl, hrun, rfl⟩)

/-- The session's PSBT, during the request that finalizes it. -/
def Stage.Finalizing (config : Config) (P : Stage → Prop) (sessionId : List UInt8)
    (psbt : Psbt) (phase : Phase) (e : Exec) : Prop :=
  finalizePsbt config.lib e.server.db sessionId = .ok psbt ∧ Stage.During P phase e

namespace Stable

open Stage

variable {config : Config} {input : Input} {P : Stage → Prop} {phase : Phase}

/-! ## Steps every handler is made of -/

theorem during_after : ∀ e, During P phase e → After P e := fun _ h => ⟨phase, h⟩

theorem getServer : Triple (During P phase) getServer
    (fun server e => e.server = server ∧ During P phase e) (After P) :=
  fun _ h => ⟨rfl, h⟩

variable {α : Type}

theorem lift {x : Outcome Status α} :
    Triple (During P phase) (Handler.lift x) (fun a e => x = .ok a ∧ During P phase e) (After P) :=
  Triple.lift_eq during_after

theorem askNode (bitcoind : Bitcoind) (f : View → α) :
    Triple (During P phase) (askNode bitcoind f) (fun _ => During P phase) (After P) :=
  fun _ h => h

theorem telemetryCall (bitcoind : Bitcoind) (f : View → Except RpcError α) :
    Triple (During P phase) (telemetryCall config bitcoind f) (fun _ => During P phase)
      (After P) := by
  refine Triple.ite (fun _ => ?_) fun _ => Triple.pure fun _ h => h
  refine Triple.bind (askNode bitcoind f) fun r => Triple.bind lift fun _ => ?_
  exact Triple.pure fun _ h => h.2

theorem onScheduler {x : Handler SyncState SyncError α} {phase' : Phase}
    (h : ∀ nonces, Triple (At P nonces phase) x (fun _ => At P nonces phase') (Anyhow P nonces)) :
    Triple (During P phase) (onScheduler x) (fun _ => During P phase') (After P) :=
  Triple.zoom fun e he => (h e.server.frostRound1Nonces).conseq (fun _ heq => heq ▸ he)
    (fun _ _ => id) fun _ => id

variable (hP : Stable config input P)
include hP

/-- The tables after a failed validation. -/
theorem afterCheck {e : Exec} {db : Db} (he : During P phase e) (h : e.server.db.AfterCheck db) :
    After P { e with server := { e.server with db := db } } := by
  obtain rfl | ⟨id, hid, rfl⟩ := h
  · exact ⟨phase, he⟩
  · exact ⟨phase, hP _ _ (.dropFinalized hid) he⟩

/-- A handler that on success leaves the tables as they were. -/
theorem onDb {ε : Type} {err : ε → Status} {x : Handler Db ε α} {F : α → Db → Prop}
    (h : ∀ db, Triple (· = db) x (fun a db' => F a db ∧ db' = db) db.AfterCheck) :
    Triple (During P phase) (onDb err x) (fun a e => F a e.server.db ∧ During P phase e)
      (After P) := by
  refine Triple.zoom fun e he => (h e.server.db).conseq (fun _ => id) (fun a db hdb => ?_)
    fun db hdb => afterCheck hP he hdb
  obtain ⟨ha, rfl⟩ := hdb
  exact ⟨ha, he⟩

/-- A handler that on success has changed the table of sessions. -/
theorem onDb_psbts {ε : Type} {err : ε → Status} {x : Handler Db ε α}
    (hreq : ∀ sessionId, input.request ≠ .finalizeSigning sessionId)
    (h : ∀ db, Triple (· = db) x (fun _ => db.OnlyPsbts) db.AfterCheck) :
    Triple (During P phase) (Macbeth.onDb err x) (fun _ => During P phase) (After P) := by
  refine Triple.zoom fun e he => (h e.server.db).conseq (fun _ => id) (fun a db hdb => ?_)
    fun db hdb => afterCheck hP he hdb
  obtain ⟨psbts, rfl⟩ := hdb
  exact hP _ _ (.savePsbts psbts hreq) he

theorem syncPegoutScheduler (hsync : input.request.syncs) (fuel : Nat) (checkpoint : BlockHash) :
    Triple (During P .searching) (syncPegoutScheduler config input.bitcoind fuel checkpoint)
      (fun _ => During P .following) (After P) := by
  refine Triple.bind (onScheduler fun _ => syncUntil hP hsync fuel checkpoint) fun _ => ?_
  refine Triple.bind getServer fun server => ?_
  refine Triple.update fun e he => ?_
  obtain ⟨rfl, he⟩ := he
  exact hP _ _ .saveTip he

/-! ## Checkpoints -/

variable {checkpoint : BlockHash}

theorem storePegouts {pegins : List RpcUtxo} {pending : List RpcPendingPegout}
    (hreq : input.request = .newConsensusCheckpoint checkpoint pegins pending) :
    Triple (During P phase) (storePegouts config pending) (fun _ => During P phase) (After P) := by
  refine Triple.bind getServer fun server => ?_
  refine Triple.ite (fun _ => Triple.pure fun _ h => h.2) fun _ => ?_
  refine Triple.bind (Triple.lift_eq fun e he => ⟨phase, he.2⟩) fun pegouts =>
    Triple.of_fact fun hpegouts => Triple.update fun e he => ?_
  obtain ⟨rfl, he⟩ := he
  exact hP _ _ (.storePegouts hreq hpegouts) he

theorem serveNewConsensusCheckpoint (fuel : Nat) {pegins : List RpcUtxo}
    {pending : List RpcPendingPegout}
    (hreq : input.request = .newConsensusCheckpoint checkpoint pegins pending) :
    Triple (During P .searching)
      (serveNewConsensusCheckpoint config input.bitcoind fuel checkpoint pegins pending)
      (fun _ => During P .following) (After P) := by
  have hsync : input.request.syncs := by rw [hreq]; trivial
  refine Triple.bind (syncPegoutScheduler hP hsync fuel checkpoint) fun _ => ?_
  refine Triple.bind lift fun utxos => Triple.of_fact fun _ => ?_
  refine Triple.bind (Triple.update (T := During P .following)
    fun e he => hP _ _ (.storeUtxos utxos) he) fun _ => ?_
  refine Triple.bind getServer fun server => ?_
  refine Triple.bind (Triple.lift_eq fun e he => ⟨_, he.2⟩) fun _ => Triple.of_fact fun _ => ?_
  refine Triple.bind ((telemetryCall input.bitcoind _).conseq (fun _ h => h.2) (fun _ _ => id)
    fun _ => id) fun _ => ?_
  exact Triple.bind (storePegouts hP hreq) fun _ => Triple.pure fun _ h => h

/-! ## Signing -/

theorem setNonces (hsigns : input.request.signs) (nonces : Option SessionNonces) :
    Triple (During P phase) (setNonces nonces) (fun _ => During P phase) (After P) :=
  Triple.update fun _ he => hP _ _ (.setNonces nonces hsigns) he

variable {psbt : Psbt}

theorem serveRound1 {commit : Nat → SigningNonces × SigningCommitments}
    (hreq : input.request = .getRound1SigningPackage psbt commit) :
    Triple (During P phase) (serveRound1 config psbt commit) (fun _ => During P phase)
      (After P) := by
  have hsigns : input.request.signs := by rw [hreq]; trivial
  refine Triple.bind getServer fun server => Triple.ite (fun _ => Triple.fail fun e he => ⟨_, he.2⟩)
    fun _ => ?_
  refine Triple.bind ((onDb hP fun _ => getRound1SigningPackage_spec commit).conseq (fun _ h => h.2)
    (fun _ _ => id) fun _ => id) fun x => Triple.of_fact fun _ => ?_
  exact Triple.bind (setNonces hP hsigns _) fun _ => Triple.pure fun _ h => h

theorem addTrackedTx {tx : Transaction} {ids : List PegoutId} {server : Server}
    (hreq : input.request = .getRound2SigningPackage psbt) (htx : psbt.extractTx = .ok tx)
    (hids : psbt.pegoutIds.mapM PegoutId.fromBytes = some ids) (timestamp : Nat) :
    Triple (fun e => e.server = server ∧ During P phase e)
      (addTrackedTx config tx (server.db.getPendingPegouts.filter fun p => ids.contains p.id)
        timestamp)
      (fun _ => During P phase) (After P) := by
  intro e he
  obtain ⟨rfl, he⟩ := he
  cases hadd : (e.server.scheduler.addTx config.btc (config.changeSpk e.server.db) tx
      (e.server.db.getPendingPegouts.filter fun p => ids.contains p.id) timestamp :
      Outcome Status _) with
  | ok x =>
    obtain ⟨htxid, htracked, hreqs, hscheduler⟩ := Scheduler.addTx_eq_ok hadd
    simp only [Macbeth.addTrackedTx, Macbeth.getServer, updateServerDb, bind_run, get_run, pure_run,
      lift_run, update_run, hadd, hscheduler]
    exact hP _ _ (.track hreq htx hids htxid htracked hreqs) he
  | err _ =>
    simp only [Macbeth.addTrackedTx, Macbeth.getServer, bind_run, get_run, pure_run, lift_run, hadd]
    exact during_after _ he
  | panic =>
    simp only [Macbeth.addTrackedTx, Macbeth.getServer, bind_run, get_run, pure_run, lift_run, hadd]
    exact during_after _ he

theorem trackSigned {signed : Psbt} (hreq : input.request = .getRound2SigningPackage psbt)
    (htx : signed.extractTx = psbt.extractTx) (houtputs : signed.outputs = psbt.outputs) :
    Triple (During P phase) (trackSigned config input.bitcoind signed) (fun _ => During P phase)
      (After P) := by
  refine Triple.bind (Triple.lift_eq during_after) fun tx => Triple.of_fact fun hextract => ?_
  have hextract : psbt.extractTx = .ok tx := by
    rw [← htx]
    revert hextract
    cases signed.extractTx <;> simp
  refine Triple.bind lift fun _ => Triple.of_fact fun _ => ?_
  refine Triple.bind lift fun ids => Triple.of_fact fun hids => ?_
  have hids : psbt.pegoutIds.mapM PegoutId.fromBytes = some ids := by
    rw [Psbt.parsedPegoutIds, Psbt.pegoutIds, houtputs] at hids
    exact mapM_ofOption_eq_ok.mp hids
  refine Triple.bind getServer fun server => ?_
  refine Triple.bind (Q := fun _ (e : Exec) => e.server = server ∧ During P phase e) (fun _ h => h)
    fun now => ?_
  refine Triple.bind (addTrackedTx hP hreq hextract hids now) fun _ => ?_
  refine Triple.ite (fun hcoordinator => Triple.update fun e he => ?_) fun _ => Triple.pure fun _ h => h
  exact hP _ _ (.clearPending hreq (by simpa using hcoordinator)) he

theorem serveRound2 (hreq : input.request = .getRound2SigningPackage psbt) :
    Triple (During P phase) (serveRound2 config input.bitcoind psbt) (fun _ => During P phase)
      (After P) := by
  have hsigns : input.request.signs := by rw [hreq]; trivial
  refine Triple.bind getServer fun server => ?_
  cases server.frostRound1Nonces with
  | none => exact Triple.fail fun e he => ⟨_, he.2⟩
  | some nonces =>
    refine Triple.bind ((onDb hP fun _ => getRound2SigningPackage_spec nonces).conseq
      (fun _ h => h.2) (fun _ _ => id) fun _ => id) fun signed => ?_
    refine Triple.bind (Q := fun _ (e : Exec) => (∃ db, psbt.SignedAs config.lib config.identifier db
      nonces signed) ∧ During P phase e) ?_ fun _ => Triple.of_fact fun ⟨db, hsigned⟩ => ?_
    · exact Triple.update fun e he => ⟨⟨_, he.1⟩, hP _ _ (.setNonces none hsigns) he.2⟩
    · exact Triple.bind (trackSigned hP hreq hsigned.extractTx hsigned.outputs) fun _ =>
        Triple.pure fun _ h => h

/-! ## The coordinator -/

variable {sessionId : List UInt8}

theorem servePsbt (fuel : Nat) {feeRate : FeeRate}
    (hreq : input.request = .getPsbt sessionId checkpoint feeRate) :
    Triple (During P .searching)
      (servePsbt config input.bitcoind fuel sessionId checkpoint feeRate)
      (fun _ => During P .following) (After P) := by
  have hsync : input.request.syncs := by rw [hreq]; trivial
  refine Triple.bind (syncPegoutScheduler hP hsync fuel checkpoint) fun _ => ?_
  refine Triple.bind getServer fun server => ?_
  refine Triple.bind (Triple.lift_eq fun e he => ⟨_, he.2⟩) fun key => Triple.of_fact fun _ => ?_
  refine Triple.bind (Triple.lift_eq fun e he => ⟨_, he.2⟩) fun script => Triple.of_fact fun _ => ?_
  refine Triple.bind ((onDb (F := fun _ _ => True) hP fun db => (makeTx_spec config.makeTx feeRate
    script _ fuel _).conseq (fun _ => id) (fun _ _ h => ⟨trivial, h⟩) fun _ => id).conseq
    (fun _ h => h.2) (fun _ _ => id) fun _ => id) fun psbt => Triple.of_fact fun _ => ?_
  refine Triple.bind (onDb_psbts hP (by rw [hreq]; nofun) fun _ => updatePsbt_spec sessionId psbt)
    fun _ => Triple.pure fun _ h => h

omit hP in
/-- The removal of spent coins keeps what the removal of one keeps. -/
theorem handleInvalidInputs {R : Exec → Prop} (hR : ∀ e, R e → After P e)
    (hcalls : ∀ e n, R e → R { e with calls := n })
    (hremove : ∀ e op, R e → R { e with server := { e.server with db := e.server.db.removeUtxo op } })
    (tx : Transaction) :
    Triple R (handleInvalidInputs input.bitcoind tx) (fun _ => R) (After P) := by
  refine (Triple.forM fun op _ => ?_)
  refine Triple.bind (Q := fun _ => R) (fun _ h => h) fun server => ?_
  refine Triple.ite (fun _ => ?_) fun _ => Triple.pure fun _ h => h
  refine Triple.bind (Q := fun _ => R) (fun e h => hcalls e _ h) fun unspent => ?_
  refine Triple.bind (Triple.lift_eq hR) fun found => Triple.of_fact fun _ => ?_
  exact Triple.ite (fun _ => Triple.update fun e h => hremove e op h) fun _ => Triple.pure fun _ h => h

theorem handleBroadcastError {tx : Transaction} {e : RpcError}
    (hreq : input.request = .finalizeSigning sessionId) (htx : psbt.extractTx = .ok tx)
    (hrefused : (input.bitcoind 0).sendRawTransaction tx = .error e) :
    Triple (Finalizing config P sessionId psbt phase)
      (handleBroadcastError config input.bitcoind e tx)
      (fun _ x => e = .alreadyInChain ∧ Finalizing config P sessionId psbt phase x) (After P) := by
  by_cases hchain : e = .alreadyInChain
  · subst hchain
    exact Triple.pure fun _ h => ⟨rfl, h⟩
  · have huntrack : Triple (Finalizing config P sessionId psbt phase)
        (Macbeth.onScheduler (unTrackTx (config.btc.computeTxid tx)) >>= fun _ =>
          Handler.fail .failedToBroadcastTx : Handler Exec Status Unit)
        (fun _ x => e = .alreadyInChain ∧ Finalizing config P sessionId psbt phase x)
        (After P) := by
      refine Triple.bind (Q := fun _ => After P) (fun x hx => ?_) fun _ => Triple.fail fun _ h => h
      cases hrow : x.server.scheduler.txs.lookup (config.btc.computeTxid tx) with
      | none =>
        simp only [Macbeth.onScheduler, Handler.zoom, unTrackTx, bind_run, get_run, Handler.expect,
          lift_run, hrow, Outcome.mapErr]
        exact ⟨phase, hx.2⟩
      | some row =>
        simp only [Macbeth.onScheduler, Handler.zoom, unTrackTx, updateScheduler, updateDb, bind_run,
          get_run, update_run, Handler.expect, lift_run, hrow, Outcome.mapErr]
        exact ⟨phase, hP _ _ (.untrackRefused hreq hx.1 htx (fun h => hchain (h e hrefused)) hrow) hx.2⟩
    have hinvalid : Triple (Finalizing config P sessionId psbt phase)
        (Macbeth.handleInvalidInputs input.bitcoind tx)
        (fun _ => Finalizing config P sessionId psbt phase) (After P) :=
      handleInvalidInputs (fun _ h => ⟨phase, h.2⟩) (fun _ _ h => h)
        (fun x op h => ⟨h.1, hP _ _ (.removeSpent op hreq) h.2⟩) tx
    cases e with
    | alreadyInChain => exact absurd rfl hchain
    | inputsMissingOrSpent => exact Triple.bind hinvalid fun _ => huntrack
    | transactionNotInMempool => exact huntrack
    | other => exact huntrack

theorem serveFinalizeSigning (hreq : input.request = .finalizeSigning sessionId) :
    Triple (fun e => e.calls = 0 ∧ During P phase e)
      (serveFinalizeSigning config input.bitcoind sessionId) (fun _ => During P phase)
      (After P) := by
  refine Triple.bind (Q := fun server (e : Exec) => e.calls = 0 ∧ e.server = server ∧
    During P phase e) (fun _ h => ⟨h.1, rfl, h.2⟩) fun server => ?_
  refine Triple.bind (Triple.lift_eq fun e h => ⟨_, h.2.2⟩) fun psbt => Triple.of_fact fun hpsbt => ?_
  refine Triple.bind (Triple.lift_eq fun e h => ⟨_, h.2.2⟩) fun tx => Triple.of_fact fun htx => ?_
  have htx := mapErr_eq_ok.mp htx
  refine Triple.bind (Q := fun r e => (input.bitcoind 0).sendRawTransaction tx = r ∧
    Finalizing config P sessionId psbt phase e) (fun e h => ?_) fun r => Triple.of_fact fun hr => ?_
  · obtain ⟨hcalls, rfl, h⟩ := h
    exact ⟨by rw [hcalls], mapErr_eq_ok.mp hpsbt, h⟩
  have hrest (haccepts : Accepts input.bitcoind tx) :
      Triple (Finalizing config P sessionId psbt phase) (do
      Macbeth.telemetryCall config input.bitcoind (·.bestBlockHash)
      let ids ← Handler.expect (psbt.pegoutIds.mapM PegoutId.fromBytes)
      updateServerDb (·.removePendingPegout ids)
      pure (Reply.psbt psbt)) (fun _ => During P phase) (After P) := by
    refine Triple.bind ((telemetryCall (P := fun st =>
      finalizePsbt config.lib st.db sessionId = .ok psbt ∧ P st) input.bitcoind _).conseq
      (fun _ h => h) (fun _ _ h => h) fun _ ⟨ph, h⟩ => ⟨ph, h.2⟩) fun _ => ?_
    refine Triple.bind (Triple.expect (Q := fun ids e => psbt.pegoutIds.mapM PegoutId.fromBytes =
      some ids ∧ Finalizing config P sessionId psbt phase e) (fun ids hids e he => ⟨hids, he⟩)
      fun e he => ⟨_, he.2⟩) fun ids => Triple.of_fact fun hids => ?_
    refine Triple.bind (Triple.update (T := During P phase) fun e he => ?_) fun _ =>
      Triple.pure fun _ h => h
    exact hP _ _ (.removePending hreq he.1 htx haccepts hids) he.2
  cases r with
  | ok _ => exact hrest fun e he => by rw [hr] at he; cases he
  | error e =>
    refine Triple.bind (handleBroadcastError hP hreq htx hr) fun _ => Triple.of_fact fun hchain => ?_
    exact hrest fun e' he' => by rw [hr] at he'; cases he'; exact hchain

/-! ## Every request -/

/-- A stable property is kept by every request, however it ends. -/
theorem serve : Triple (fun e => e.calls = 0 ∧ During P .searching e)
    (input.request.serve config input.bitcoind input.fuel) (fun _ => After P) (After P) := by
  cases hreq : input.request with
  | newConsensusCheckpoint checkpoint pegins pending =>
    exact (serveNewConsensusCheckpoint hP input.fuel hreq).conseq (fun _ h => h.2)
      (fun _ => during_after) fun _ h => h
  | abortSigning =>
    have hsigns : input.request.signs := by rw [hreq]; trivial
    exact Triple.bind ((setNonces hP hsigns none).conseq (fun _ h => h.2) (fun _ _ h => h)
      fun _ h => h) fun _ => Triple.pure during_after
  | getRound1SigningPackage psbt commit =>
    exact (serveRound1 hP hreq).conseq (fun _ h => h.2) (fun _ => during_after) fun _ h => h
  | getRound2SigningPackage psbt =>
    exact (serveRound2 hP hreq).conseq (fun _ h => h.2) (fun _ => during_after) fun _ h => h
  | getPsbt sessionId checkpoint feeRate =>
    exact (servePsbt hP input.fuel hreq).conseq (fun _ h => h.2) (fun _ => during_after)
      fun _ h => h
  | newRound1SigningPackage sessionId frostId psbt =>
    exact Triple.bind ((onDb_psbts hP (by rw [hreq]; nofun) fun _ =>
      addRound1Signing_spec sessionId frostId psbt).conseq (fun _ h => h.2) (fun _ _ h => h)
      fun _ h => h) fun _ => Triple.pure during_after
  | newRound2SigningPackage sessionId psbt =>
    exact Triple.bind ((onDb_psbts hP (by rw [hreq]; nofun) fun _ =>
      addRound2Signing_spec sessionId psbt).conseq (fun _ h => h.2) (fun _ _ h => h)
      fun _ h => h) fun _ => Triple.pure during_after
  | finalizeSigning sessionId =>
    exact (serveFinalizeSigning hP hreq).conseq (fun _ h => h) (fun _ => during_after) fun _ h => h
  | resetAllUtxos utxos =>
    refine Triple.bind (Triple.lift_eq fun e h => during_after e h.2) fun utxos =>
      Triple.of_fact fun _ => ?_
    exact Triple.bind (Triple.update (T := During P .searching) fun e he =>
      hP _ _ (.resetUtxos utxos hreq) he.2) fun _ => Triple.pure during_after
  | resetWalletState pegouts =>
    refine Triple.bind (Triple.lift_eq fun e h => during_after e h.2) fun pegouts =>
      Triple.of_fact fun _ => ?_
    exact Triple.bind (Triple.update (T := During P .searching) fun e he =>
      hP _ _ (.resetFinalized pegouts hreq) he.2) fun _ => Triple.pure during_after
  | restart => exact fun e he => during_after e he.2

/-- After a step the property holds of the state the request left, from whose tables the
server starts again if it panicked. -/
theorem step {server : Server} (h : P (server.stage .searching)) :
    ∃ server' phase, P (server'.stage phase) ∧
      ((config.step server input).1 ≠ .panic ∧ (config.step server input).2 = server' ∨
        (config.step server input).1 = .panic ∧
          (config.step server input).2 = config.start server'.db) := by
  have hserve := serve hP ⟨server, 0⟩ ⟨rfl, h⟩
  unfold Config.step
  revert hserve
  rcases input.request.serve config input.bitcoind input.fuel ⟨server, 0⟩ with ⟨_ | _ | _, e⟩ <;>
    rintro ⟨phase, he⟩
  · exact ⟨e.server, phase, he, .inl ⟨nofun, rfl⟩⟩
  · exact ⟨e.server, phase, he, .inl ⟨nofun, rfl⟩⟩
  · exact ⟨e.server, phase, he, .inr ⟨rfl, rfl⟩⟩

end Stable

/-! ## The tables after round two -/

/-- The row round two stores: with those of the pegouts that are pending. -/
structure RowOf (config : Config) (db : Db) (psbt : Psbt) (tx : Transaction) (row : Tx) : Prop where
  txid : row.txid = config.btc.computeTxid tx
  tx : row.tx = tx
  pegoutRequests :
    row.pegoutRequests = db.getPendingPegouts.filter fun p => psbt.paidIds.contains p.id

/-- What a successful round two does: the transaction is tracked, and a signer that is not
the coordinator has no pegouts pending any more. -/
def TracksSigned (config : Config) (psbt : Psbt) (server server' : Server) : Prop :=
  psbt.Passes server.db ∧ ∃ tx row, psbt.extractTx = .ok tx ∧ RowOf config server.db psbt tx row ∧
    server'.scheduler = server.scheduler.trackTx row ∧
    (server'.db = server.db.storeTrackedTx row ∧ config.isCoordinator = true ∨
      server'.db = (server.db.storeTrackedTx row).clearPendingPegouts ∧
        config.isCoordinator = false)

/-- The tables and the scheduler of a request in progress are those of a server. -/
def Exec.Same (server : Server) (e : Exec) : Prop :=
  e.server.db = server.db ∧ e.server.scheduler = server.scheduler

section round2
variable {config : Config} {bitcoind : Bitcoind} {psbt signed : Psbt} {server : Server}

theorem trackSigned_tables (hpasses : psbt.Passes server.db)
    (htx : signed.extractTx = psbt.extractTx) (houtputs : signed.outputs = psbt.outputs) :
    Triple (Exec.Same server) (trackSigned config bitcoind signed)
      (fun _ e => TracksSigned config psbt server e.server) (Exec.Same server) := by
  refine Triple.bind (Triple.lift_eq fun _ h => h) fun tx => Triple.of_fact fun hextract => ?_
  have hextract : psbt.extractTx = .ok tx := by
    rw [← htx]
    revert hextract
    cases signed.extractTx <;> simp
  refine Triple.bind (Triple.lift_eq fun _ h => h) fun _ => Triple.of_fact fun _ => ?_
  refine Triple.bind (Triple.lift_eq fun _ h => h) fun ids => Triple.of_fact fun hids => ?_
  have hids : psbt.paidIds = ids := by
    rw [Psbt.parsedPegoutIds, Psbt.pegoutIds, houtputs] at hids
    exact Psbt.paidIds_eq (mapM_ofOption_eq_ok.mp hids)
  subst hids
  refine Triple.bind (Q := fun s (e : Exec) => s.db = server.db ∧ Exec.Same server e)
    (fun _ h => ⟨h.1, h⟩) fun s => Triple.of_fact fun hs => ?_
  rw [hs]
  refine Triple.bind (Q := fun _ => Exec.Same server) (fun _ h => h) fun now => ?_
  refine Triple.bind (Q := fun _ (e : Exec) => ∃ row, RowOf config server.db psbt tx row ∧
    e.server.scheduler = server.scheduler.trackTx row ∧
    e.server.db = server.db.storeTrackedTx row) (fun e he => ?_) fun _ => ?_
  · simp only [addTrackedTx, getServer, bind_run, get_run, pure_run, lift_run, he.1, he.2]
    cases hadd : (server.scheduler.addTx config.btc (config.changeSpk server.db) tx
        (server.db.getPendingPegouts.filter fun p => psbt.paidIds.contains p.id) now :
        Outcome Status _) with
    | ok x =>
      obtain ⟨htxid, htracked, hreqs, hscheduler⟩ := Scheduler.addTx_eq_ok hadd
      simp only [updateServerDb, update_run, he.1, hscheduler]
      exact ⟨x.1, ⟨htxid, htracked, hreqs⟩, rfl, rfl⟩
    | err _ => exact he
    | panic => exact he
  · refine Triple.ite (fun hcoordinator => ?_) fun hcoordinator => ?_
    · refine Triple.update fun e he => ?_
      obtain ⟨row, hrow, hscheduler, hdb⟩ := he
      exact ⟨hpasses, tx, row, hextract, hrow, hscheduler,
        .inr ⟨by rw [hdb], by simpa using hcoordinator⟩⟩
    · refine Triple.pure fun e he => ?_
      obtain ⟨row, hrow, hscheduler, hdb⟩ := he
      exact ⟨hpasses, tx, row, hextract, hrow, hscheduler, .inl ⟨hdb, by simpa using hcoordinator⟩⟩

/-- Round two tracks what it signs, or leaves at most one finalized pegout less pending. -/
theorem serveRound2_tables :
    Triple (Exec.Same server) (serveRound2 config bitcoind psbt)
      (fun _ e => TracksSigned config psbt server e.server)
      fun e => server.db.AfterCheck e.server.db ∧ e.server.scheduler = server.scheduler := by
  refine Triple.bind (Q := fun _ => Exec.Same server) (fun _ h => h) fun s => ?_
  cases s.frostRound1Nonces with
  | none => exact Triple.fail fun _ h => ⟨.inl h.1, h.2⟩
  | some nonces =>
    refine Triple.bind (Q := fun signed e => psbt.SignedAs config.lib config.identifier server.db
      nonces signed ∧ Exec.Same server e) (Triple.zoom fun e he => ?_) fun signed =>
        Triple.of_fact fun hsigned => ?_
    · rw [he.1]
      exact (getRound2SigningPackage_spec nonces).conseq (fun _ h => h)
        (fun _ _ h => ⟨h.1, h.2, he.2⟩) fun _ h => ⟨h, he.2⟩
    · refine Triple.bind (Q := fun _ => Exec.Same server) (fun _ h => h) fun _ => ?_
      exact Triple.bind ((trackSigned_tables hsigned.passes hsigned.extractTx hsigned.outputs).conseq
        (fun _ h => h) (fun _ _ h => h) fun _ h => ⟨.inl h.1, h.2⟩) fun _ => Triple.pure fun _ h => h

/-- The same as a step of the machine. -/
theorem serve_round2 {input : Input} (hreq : input.request = .getRound2SigningPackage psbt) :
    Triple (· = ⟨server, 0⟩) (input.request.serve config input.bitcoind input.fuel)
      (fun _ e => TracksSigned config psbt server e.server)
      fun e => server.db.AfterCheck e.server.db ∧ e.server.scheduler = server.scheduler := by
  rw [hreq]
  exact serveRound2_tables.conseq (fun _ h => h ▸ ⟨rfl, rfl⟩) (fun _ _ h => h) fun _ h => h

end round2

end Macbeth
