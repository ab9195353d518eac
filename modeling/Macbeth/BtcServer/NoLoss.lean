import Macbeth.BtcServer.Consistency
import Macbeth.BtcServer.Node

/-!
# No pegout is lost on the coordinator

A pegout the coordinator has taken in is pending, listed by a tracked transaction, or final,
until its final record is pruned.  Rolling back a block and dropping a transaction from the
mempool make its pegouts pending again; the source says the caller of `un_track_tx` has to.
Four places forget pegouts: a checkpoint request that returns early because the wallet has
no coins, a second round for a transaction that has a row already, the end of a session
whose broadcast succeeds without a row or fails with one, and the finalization of a block
that spends outputs of a tracked transaction.

In every run that avoids these, whatever else happens in it, nothing is lost.
-/

namespace Macbeth

open Handler Stage List Option FinMap AList Outcome

/-! ## Statement -/

/-- The ids in a checkpoint request. -/
def requestedIds (pending : List RpcPendingPegout) : List PegoutId :=
  pending.filterMap fun p => PegoutId.fromBytes p.pegoutId

/-- The pegouts a request that was served brought. -/
def accepted (t : Transition Server Input (Outcome Status Reply)) : List PegoutId :=
  match t.input.request, t.output with
  | .newConsensusCheckpoint _ _ pending, .ok _ => requestedIds pending
  | _, _ => []

/-- The pegouts whose final records a request pruned. -/
def pruned (t : Transition Server Input (Outcome Status Reply)) : List PegoutId :=
  t.post.db.pruneLog.drop t.pre.db.pruneLog.length

/-- The pegouts taken in and not pruned since. -/
def Owed : ServerHistory → PegoutId → Prop
  | [], _ => False
  | t :: h, x => x ∈ accepted t ∨ Owed h x ∧ x ∉ pruned t

namespace Db

/-- A tracked transaction delivers the pegout. -/
def Tracked (db : Db) (x : PegoutId) : Prop :=
  ∃ txid row, db.trackedTxs.lookup txid = some row ∧ x ∈ row.pegoutIds

/-- The pegout is in one of the three tables. -/
def Covered (db : Db) (x : PegoutId) : Prop :=
  x ∈ db.pendingPegouts ∨ db.Tracked x ∨ x ∈ db.finalizedPegoutIds

/-- The pegout is in one of the tables also without the row of a transaction. -/
def CoveredBut (db : Db) (txid : Txid) (x : PegoutId) : Prop :=
  x ∈ db.pendingPegouts ∨
    (∃ txid' row, txid' ≠ txid ∧ db.trackedTxs.lookup txid' = some row ∧ x ∈ row.pegoutIds) ∨
    x ∈ db.finalizedPegoutIds

end Db

/-- What the end of a session must not meet: pegouts that leave the pending ones without
being tracked, and a refused transaction whose row alone holds its pegouts. -/
structure Stage.SessionKept (config : Config) (bitcoind : Bitcoind) (sessionId : List UInt8)
    (c : Stage) : Prop where
  paid : ∀ psbt tx, finalizePsbt config.lib c.db sessionId = .ok psbt → psbt.extractTx = .ok tx →
    Accepts bitcoind tx → ∀ x ∈ psbt.paidIds, c.db.Tracked x ∨ x ∈ c.db.finalizedPegoutIds
  refused : ∀ psbt tx row, finalizePsbt config.lib c.db sessionId = .ok psbt →
    psbt.extractTx = .ok tx → ¬ Accepts bitcoind tx →
    c.scheduler.txs.lookup (config.btc.computeTxid tx) = some row →
    ∀ x ∈ row.pegoutIds, c.db.CoveredBut (config.btc.computeTxid tx) x

/-- A coin that no tracked transaction spends. -/
def Stage.IdleCoin (c : Stage) : Prop := ∃ op ∈ c.db.utxos, ¬ c.Watches op

/-- What a request must not meet. -/
def KeepsPegouts (config : Config) (server : Server) (input : Input) : Prop :=
  match input.request with
  | .newConsensusCheckpoint _ pegins pending =>
    (server.stage .searching).NoChained ∧
      (pending = [] ∨ pegins ≠ [] ∨ (server.stage .searching).IdleCoin)
  | .getPsbt .. => (server.stage .searching).NoChained
  | .getRound2SigningPackage psbt => ∀ tx row, psbt.extractTx = .ok tx →
    server.db.trackedTxs.lookup (config.btc.computeTxid tx) = some row →
    ∀ x ∈ row.pegoutIds, server.db.CoveredBut (config.btc.computeTxid tx) x
  | .finalizeSigning sessionId =>
    (server.stage .searching).SessionKept config input.bitcoind sessionId
  | .resetWalletState _ => False
  | _ => True

/-! ## The tables -/

/-- Every pegout that is owed is covered, or its pruning was logged after an earlier log. -/
structure Covers (owed : PegoutId → Prop) (before : List PegoutId) (db : Db) : Prop where
  log : before <+: db.pruneLog
  covered : ∀ x, owed x → db.Covered x ∨ x ∈ db.pruneLog.drop before.length

section tables
variable {owed : PegoutId → Prop} {before : List PegoutId} {db db' : Db}

/-- A change that covers what was covered, or prunes it. -/
theorem Covers.prune (h : Covers owed before db) (hlog : db.pruneLog <+: db'.pruneLog)
    (hcovered : ∀ x, db.Covered x → db'.Covered x ∨ x ∈ db'.pruneLog.drop db.pruneLog.length) :
    Covers owed before db' := by
  refine ⟨h.log.trans hlog, fun x hx => ?_⟩
  obtain hx | hx := h.covered x hx
  · refine (hcovered x hx).imp_right fun hx => ?_
    exact (drop_subset_drop_left _ h.log.length_le) hx
  · exact .inr ((hlog.drop _).subset hx)

/-- A change that prunes nothing. -/
theorem Covers.mono (h : Covers owed before db) (hlog : db'.pruneLog = db.pruneLog)
    (hcovered : ∀ x, db.Covered x → db'.Covered x) : Covers owed before db' :=
  h.prune (hlog ▸ prefix_rfl) fun x hx => .inl (hcovered x hx)

/-- A row may go when its pegouts are covered without it. -/
theorem Db.CoveredBut.covered {txid : Txid} {x : PegoutId} (h : db.CoveredBut txid x) :
    (db.removeTrackedTx txid).Covered x := by
  obtain hx | ⟨t, row, hne, hrow, hx⟩ | hx := h
  · exact .inl hx
  · refine .inr (.inl ⟨t, row, ?_, hx⟩)
    rwa [removeTrackedTx, lookup_erase_eq, if_neg hne]
  · exact .inr (.inr hx)

/-- What is covered is so without a row, or listed by it. -/
theorem Db.Covered.cases (txid : Txid) {x : PegoutId} (h : db.Covered x) :
    db.CoveredBut txid x ∨ ∃ row, db.trackedTxs.lookup txid = some row ∧ x ∈ row.pegoutIds := by
  obtain hx | ⟨t, row, hrow, hx⟩ | hx := h
  · exact .inl (.inl hx)
  · by_cases heq : t = txid
    · exact .inr ⟨row, heq ▸ hrow, hx⟩
    · exact .inl (.inr (.inl ⟨t, row, heq, hrow, hx⟩))
  · exact .inl (.inr (.inr hx))

theorem Covers.erase {txid : Txid} (h : Covers owed before db)
    (hrow : ∀ row, db.trackedTxs.lookup txid = some row →
      ∀ x ∈ row.pegoutIds, db.CoveredBut txid x) : Covers owed before (db.removeTrackedTx txid) := by
  refine h.mono rfl fun x hx => ?_
  obtain hx | ⟨row, hlookup, hid⟩ := hx.cases txid
  · exact hx.covered
  · exact (hrow row hlookup x hid).covered

/-- More pending pegouts cover more. -/
theorem Covers.store (h : Covers owed before db) (reqs : List PegoutRequest) :
    Covers owed before (db.storePendingPegouts reqs) := by
  refine h.mono (by simp) fun x hx => ?_
  obtain hx | ⟨txid, row, hrow, hx⟩ | hx := hx
  · exact .inl (Db.mem_pending_store.mpr (.inr hx))
  · exact .inr (.inl ⟨txid, row, by simpa using hrow, hx⟩)
  · exact .inr (.inr (by simpa using hx))

/-- A row that goes with its pegouts pending again. -/
theorem Covers.untrack {txid : Txid} {row : Tx} (h : Covers owed before db)
    (hrow : db.trackedTxs.lookup txid = some row) :
    Covers owed before ((db.removeTrackedTx txid).storePendingPegouts row.pegoutRequests) := by
  refine h.mono (by simp [Db.removeTrackedTx]) fun x hx => ?_
  obtain hx | ⟨row', hlookup, hid⟩ := hx.cases txid
  · obtain hx | ⟨t, row', hlookup, hx⟩ | hx := hx.covered
    · exact .inl (Db.mem_pending_store.mpr (.inr hx))
    · exact .inr (.inl ⟨t, row', by simpa using hlookup, hx⟩)
    · exact .inr (.inr (by simpa using hx))
  · rw [hrow] at hlookup
    obtain rfl := some.inj hlookup
    exact .inl (Db.mem_pending_store.mpr (.inl hid))

/-- A row that goes with its pegouts final. -/
theorem Covers.finalize {txid : Txid} {row : Tx} (h : Covers owed before db)
    (hrow : db.trackedTxs.lookup txid = some row) (now : Nat) :
    Covers owed before ((db.finalizePegouts row.pegoutRequests now).removeTrackedTx txid) := by
  refine h.prune Db.pruneLog_finalizePegouts fun x hx => ?_
  obtain (hx | ⟨t, row', hne, hlookup, hx⟩ | hx) | ⟨row', hlookup, hid⟩ := hx.cases txid
  · exact .inl (.inl (by simpa [Db.removeTrackedTx] using hx))
  · refine .inl (.inr (.inl ⟨t, row', ?_, hx⟩))
    simpa [Db.removeTrackedTx, lookup_erase_eq, hne] using hlookup
  · exact (Db.mem_finalizePegouts (.inr hx)).imp_left fun hx => .inr (.inr hx)
  · rw [hrow] at hlookup
    obtain rfl := some.inj hlookup
    exact (Db.mem_finalizePegouts (.inl hid)).imp_left fun hx => .inr (.inr hx)

/-- Pegouts that are tracked or final need not be pending. -/
theorem Covers.removePending {ids : List PegoutId} (h : Covers owed before db)
    (hids : ∀ x ∈ ids, db.Tracked x ∨ x ∈ db.finalizedPegoutIds) :
    Covers owed before (db.removePendingPegout ids) := by
  refine h.mono rfl fun x hx => ?_
  by_cases hid : x ∈ ids
  · exact .inr (hids x hid)
  · exact hx.imp_left fun hx => mem_eraseAll.mpr ⟨hid, hx⟩

end tables

/-! ## One move -/

/-- No move from here loses a pegout. -/
structure Stage.LosesNothing (config : Config) (input : Input) (c : Stage) : Prop where
  spent : ∀ b inputs op row, c.phase = .finalizing b inputs → op ∈ inputs →
    c.scheduler.txs.lookup op.txid = some row → row.pegoutRequests = []
  session : ∀ sessionId, input.request = .finalizeSigning sessionId →
    c.SessionKept config input.bitcoind sessionId
  noRound2 : ∀ psbt, input.request ≠ .getRound2SigningPackage psbt
  noReset : ∀ pegouts, input.request ≠ .resetWalletState pegouts

section moves
variable {config : Config} {input : Input} {c c' : Stage} {owed : PegoutId → Prop}
  {before : List PegoutId}

theorem Move.covers (hmove : Move config input c c') (hcons : c.Consistent)
    (hkeeps : c.LosesNothing config input) (h : Covers owed before c.db) :
    Covers owed before c'.db := by
  cases hmove with
  | untrack _ _ hrow => exact h.untrack (hcons.memory _ _ hrow)
  | dropUnconfirmed _ _ _ _ hrow => exact h.untrack (hcons.memory _ _ hrow)
  | dropParent hphase hop hmem =>
    obtain ⟨row, hrow⟩ := mem_iff_lookup.mp hmem
    refine h.erase fun row' hrow' x hx => ?_
    rw [hcons.memory _ _ hrow] at hrow'
    rw [← some.inj hrow', Tx.pegoutIds, hkeeps.spent _ _ _ _ hphase hop hrow] at hx
    cases hx
  | finalizeTx _ _ _ hrow => exact h.finalize (hcons.memory _ _ hrow) _
  | finalizeMissing hphase htxid hmissing =>
    -- a transaction that is not in memory has no row either
    refine h.erase fun row hrow => ?_
    obtain hmem | hmem := hcons.relevant _ (.inr ⟨_, hphase⟩) _ htxid
    · exact absurd hmem hmissing
    · exact absurd (mem_iff_lookup.mpr ⟨row, hrow⟩) hmem
  | untrackRefused hreq hpsbt htx hrefused hrow =>
    refine h.erase fun row' hrow' => ?_
    rw [hcons.memory _ _ hrow] at hrow'
    rw [← some.inj hrow']
    exact (hkeeps.session _ hreq).refused _ _ _ hpsbt htx hrefused hrow
  | removePending hreq hpsbt htx haccepts hids =>
    refine h.removePending fun x hx => ?_
    rw [← Psbt.paidIds_eq hids] at hx
    exact (hkeeps.session _ hreq).paid _ _ hpsbt htx haccepts x hx
  | dropFinalized hid =>
    refine h.removePending fun x hx => .inr ?_
    rwa [mem_singleton.mp hx]
  | storePegouts => exact h.store _
  | track hreq => exact absurd hreq (hkeeps.noRound2 _)
  | clearPending hreq => exact absurd hreq (hkeeps.noRound2 _)
  | resetFinalized _ hreq => exact absurd hreq (hkeeps.noReset _)
  | _ => exact h.mono rfl fun _ hx => hx

/-- The end of a session keeps its condition: it either removes the pending pegouts or the
row, as the node decides. -/
theorem stable_sessionKept {sessionId : List UInt8}
    (hreq : input.request = .finalizeSigning sessionId) :
    Stable config input fun c =>
      c.phase = .searching ∧ c.SessionKept config input.bitcoind sessionId := by
  intro c c' hmove ⟨hphase, hkept⟩
  have hsync : ¬ input.request.syncs := by rw [hreq]; exact id
  refine ⟨stable_searching config hsync c c' hmove hphase, ?_⟩
  have hsame : c'.scheduler.txs = c.scheduler.txs →
      (∀ x, c.db.Tracked x ∨ x ∈ c.db.finalizedPegoutIds →
        c'.db.Tracked x ∨ x ∈ c'.db.finalizedPegoutIds) →
      (∀ txid x, (∃ psbt tx, finalizePsbt config.lib c.db sessionId = .ok psbt ∧
        psbt.extractTx = .ok tx ∧ ¬ Accepts input.bitcoind tx) →
        c.db.CoveredBut txid x → c'.db.CoveredBut txid x) →
      c'.SessionKept config input.bitcoind sessionId := by
    intro htxs hpaid hbut
    constructor
    · rw [hmove.finalizePsbt_eq hreq]
      intro psbt tx hpsbt htx haccepts x hx
      exact hpaid x (hkept.paid psbt tx hpsbt htx haccepts x hx)
    · rw [hmove.finalizePsbt_eq hreq, htxs]
      intro psbt tx row hpsbt htx hrefused hrow x hx
      exact hbut _ x ⟨psbt, tx, hpsbt, htx, hrefused⟩
        (hkept.refused psbt tx row hpsbt htx hrefused hrow x hx)
  have hpsbtEq := hmove.finalizePsbt_eq hreq
  -- the session and the transaction are those of the request
  have hunique : ∀ {sessionId' psbt psbt' tx tx'}, input.request = .finalizeSigning sessionId' →
      finalizePsbt config.lib c.db sessionId' = .ok psbt → psbt.extractTx = .ok tx →
      finalizePsbt config.lib c.db sessionId = .ok psbt' → psbt'.extractTx = .ok tx' → tx = tx' := by
    intro sessionId' psbt psbt' tx tx' hreq' hpsbt htx hpsbt' htx'
    rw [hreq] at hreq'
    cases hreq'
    rw [hpsbt] at hpsbt'
    cases hpsbt'
    rw [htx] at htx'
    exact ok.inj htx'
  cases hmove with
  | rollBack _ h => exact absurd h hsync
  | follow _ h => exact absurd h hsync
  | addBlock _ h => exact absurd h hsync
  | dropUnconfirmed _ _ h => exact absurd h hsync
  | untrack h => rw [hphase] at h; cases h
  | dropParent h => rw [hphase] at h; cases h
  | finalizeTx _ h => rw [hphase] at h; cases h
  | finalizeMissing h => rw [hphase] at h; cases h
  | storePegouts h => rw [hreq] at h; cases h
  | track h => rw [hreq] at h; cases h
  | clearPending h => rw [hreq] at h; cases h
  | resetFinalized _ h => rw [hreq] at h; cases h
  | untrackRefused hreq' hpsbt htx hrefused hrow =>
    constructor
    · rw [hpsbtEq]
      intro psbt' tx' hpsbt' htx' haccepts
      rw [← hunique hreq' hpsbt htx hpsbt' htx'] at haccepts
      exact absurd haccepts hrefused
    · rw [hpsbtEq]
      intro psbt' tx' row' hpsbt' htx' _ hrow'
      rw [← hunique hreq' hpsbt htx hpsbt' htx', Scheduler.forget, lookup_erase] at hrow'
      cases hrow'
  | removePending hreq' hpsbt htx haccepts =>
    refine hsame rfl (fun _ => id) ?_
    rintro txid x ⟨psbt', tx', hpsbt', htx', hrefused⟩
    rw [← hunique hreq' hpsbt htx hpsbt' htx'] at hrefused
    exact absurd haccepts hrefused
  | @dropFinalized y hid =>
    refine hsame rfl (fun _ => id) fun txid x _ hx => ?_
    by_cases heq : x = y
    · exact .inr (.inr (heq ▸ hid))
    · exact hx.imp_left fun hx => mem_eraseAll.mpr ⟨by simpa using heq, hx⟩
  | _ => exact hsame rfl (fun _ => id) fun _ _ _ => id

theorem stable_covers {side : Stage → Prop} (hside : Stable config input side)
    (hkeeps : ∀ c, side c → c.LosesNothing config input) :
    Stable config input fun c => c.Consistent ∧ side c ∧ Covers owed before c.db :=
  fun c c' hmove ⟨hcons, hs, h⟩ => ⟨stable_consistent c c' hmove hcons, hside c c' hmove hs,
    hmove.covers hcons (hkeeps c hs) h⟩

end moves

/-! ## One request -/

section requests
variable {config : Config} {input : Input} {server : Server} {owed : PegoutId → Prop}
  {before : List PegoutId}

theorem noChained_of_keeps (hkeeps : KeepsPegouts config server input)
    (hsync : input.request.syncs) : (server.stage .searching).NoChained := by
  unfold KeepsPegouts at hkeeps
  revert hkeeps hsync
  cases input.request with
  | newConsensusCheckpoint => exact fun hkeeps _ => hkeeps.1
  | getPsbt => exact fun hkeeps _ => hkeeps
  | _ => exact fun _ hsync => hsync.elim

/-- Other requests than round two keep what is owed covered. -/
theorem covers_step (hkeeps : KeepsPegouts config server input)
    (hreq : ∀ psbt, input.request ≠ .getRound2SigningPackage psbt)
    (hcons : (server.stage .searching).Consistent) (h : Covers owed before server.db) :
    Covers owed before (config.step server input).2.db := by
  have hreset : ∀ pegouts, input.request ≠ .resetWalletState pegouts := by
    intro pegouts hreq'
    rw [KeepsPegouts, hreq'] at hkeeps
    exact hkeeps
  by_cases hsync : input.request.syncs
  · refine (hcons.step (stable_covers (stable_noChained hsync) fun c hc => ?_)
      (noChained_of_keeps hkeeps hsync) h).2
    refine ⟨fun b inputs op row hphase hop => ?_, fun sessionId hreq' => ?_, hreq, hreset⟩
    · exact hc op (.inr (.inr (.inr ⟨b, inputs, hphase, .inr hop⟩))) row
    · rw [hreq'] at hsync
      exact hsync.elim
  · by_cases hsession : ∃ sessionId, input.request = .finalizeSigning sessionId
    · obtain ⟨sessionId, hreq'⟩ := hsession
      rw [KeepsPegouts, hreq'] at hkeeps
      refine (hcons.step (stable_covers (stable_sessionKept hreq') fun c hc => ?_)
        ⟨rfl, hkeeps⟩ h).2
      refine ⟨fun b inputs op row hphase => ?_, fun sessionId' hreq'' => ?_, hreq, hreset⟩
      · rw [hc.1] at hphase
        cases hphase
      · rw [hreq'] at hreq''
        cases hreq''
        exact hc.2
    · refine (hcons.step (stable_covers (stable_searching config hsync) fun c hc => ?_) rfl h).2
      refine ⟨fun b inputs op row hphase => ?_, fun sessionId hreq' => ?_, hreq, hreset⟩
      · rw [hc] at hphase
        cases hphase
      · exact absurd ⟨sessionId, hreq'⟩ hsession

/-- A new row covers what the row it replaces listed. -/
theorem Covers.track {db : Db} {row : Tx} (h : Covers owed before db)
    (hrow : ∀ row', db.trackedTxs.lookup row.txid = some row' →
      ∀ x ∈ row'.pegoutIds, db.CoveredBut row.txid x) : Covers owed before (db.storeTrackedTx row) := by
  refine h.mono rfl fun x hx => ?_
  have hbut : db.CoveredBut row.txid x := by
    obtain hx | ⟨row', hlookup, hid⟩ := hx.cases row.txid
    · exact hx
    · exact hrow row' hlookup x hid
  obtain hx | ⟨t, row', hne, hlookup, hx⟩ | hx := hbut
  · exact .inl hx
  · refine .inr (.inl ⟨t, row', ?_, hx⟩)
    rwa [Db.storeTrackedTx, lookup_insert_eq, if_neg hne]
  · exact .inr (.inr hx)

theorem Covers.afterCheck {db db' : Db} (h : Covers owed before db) (hcheck : db.AfterCheck db') :
    Covers owed before db' := by
  obtain rfl | ⟨id, hid, rfl⟩ := hcheck
  · exact h
  · refine h.removePending fun x hx => .inr ?_
    rwa [mem_singleton.mp hx]

/-- Round two of the coordinator keeps what is owed covered. -/
theorem covers_round2 {psbt : Psbt} (hcoord : config.isCoordinator = true)
    (hreq : input.request = .getRound2SigningPackage psbt)
    (hkeeps : KeepsPegouts config server input) (h : Covers owed before server.db) :
    Covers owed before (config.step server input).2.db := by
  rw [KeepsPegouts, hreq] at hkeeps
  obtain ⟨reply, e, -, htracks, hstep⟩ | ⟨err, e, -, hcheck, hstep⟩ | ⟨e, -, hcheck, hstep⟩ :=
    step_cases (serve_round2 hreq)
  · obtain ⟨-, tx, row, htx, hrow, -, ⟨hdb, -⟩ | ⟨-, hnot⟩⟩ := htracks
    · rw [hstep, hdb]
      refine h.track ?_
      rw [hrow.txid]
      exact fun row' => hkeeps tx row' htx
    · rw [hcoord] at hnot
      cases hnot
  · rw [hstep]
    exact h.afterCheck hcheck.1
  · rw [hstep]
    exact h.afterCheck hcheck.1

end requests

/-! ## Checkpoints -/

section checkpoints
variable {config : Config} {input : Input}

/-- A synchronization does not spend a coin that is not watched. -/
theorem stable_idleCoin (hsync : input.request.syncs) : Stable config input IdleCoin := by
  intro c c' hmove ⟨op, hmem, hidle⟩
  refine ⟨op, ?_, fun h => hidle (hmove.watches_of_watches hsync h)⟩
  cases hmove with
  | @spendCoin b inputs op' hphase hop =>
    refine mem_erase.mpr ⟨fun heq => hidle ?_, hmem⟩
    exact .inr (.inr (.inr ⟨b, inputs, hphase, .inr (heq ▸ hop)⟩))
  | storeUtxos => exact mem_insertNewAll.mpr (.inr hmem)
  | resetUtxos _ hreq => rw [hreq] at hsync; exact hsync.elim
  | removeSpent _ hreq => rw [hreq] at hsync; exact hsync.elim
  | untrack => simpa [Stage.untrack, Db.removeTrackedTx] using hmem
  | dropUnconfirmed => simpa [Stage.untrack, Db.removeTrackedTx] using hmem
  | finalizeTx => simpa [Stage.dropTx, Db.removeTrackedTx] using hmem
  | storePegouts => simpa using hmem
  | _ => exact hmem

/-- With a coin in the wallet, spent by a tracked transaction or not, a checkpoint request
does not return early. -/
theorem getAvailableUtxos_ne {db : Db} {op : OutPoint} (h : op ∈ db.utxos) :
    ((getAvailableUtxos db).1.entries.isEmpty && (getAvailableUtxos db).2.isEmpty) = false := by
  rw [Bool.and_eq_false_iff]
  by_cases hop : op ∈ (getAvailableUtxos db).2
  · right
    rw [isEmpty_eq_false_iff]
    exact ne_nil_of_mem hop
  · left
    obtain ⟨utxo, hlookup⟩ := mem_iff_lookup.mp h
    have hmem : op ∈ (getAvailableUtxos db).1 :=
      mem_filter_of_lookup hlookup (by simpa [getAvailableUtxos] using hop)
    rw [isEmpty_eq_false_iff]
    intro hnil
    rw [AList.mem_keys, AList.keys, hnil] at hmem
    cases hmem

theorem id_of_parsePegout {p : RpcPendingPegout} {req : PegoutRequest}
    (h : parsePegout config p = .ok req) : PegoutId.fromBytes p.pegoutId = some req.id := by
  obtain ⟨-, -, h⟩ := bind_eq_ok.mp h
  obtain ⟨id, hid, h⟩ := bind_eq_ok.mp h
  cases h
  exact ofOption_eq_ok.mp hid

/-- The parsed pegouts have the ids of the request. -/
theorem mem_ids_of_parse {pending : List RpcPendingPegout} {pegouts : List PegoutRequest}
    (h : pending.mapM (parsePegout config) = .ok pegouts) {x : PegoutId}
    (hx : x ∈ requestedIds pending) : x ∈ pegouts.map (·.id) := by
  have hall := mapM_eq_ok.mp h
  clear h
  induction hall with
  | nil => cases hx
  | @cons p req ps reqs hp hps ih =>
    have hhead : requestedIds (p :: ps) = req.id :: requestedIds ps :=
      filterMap_cons_some (id_of_parsePegout hp)
    rw [hhead] at hx
    rw [map_cons]
    rcases mem_cons.mp hx with rfl | hx
    · exact mem_cons_self
    · exact mem_cons_of_mem _ (ih hx)

/-- What a checkpoint request stores, with what it leaves out because it is tracked or
final, covers the request. -/
theorem covered_of_storePegouts {server : Server} {phase : Phase}
    (hcons : (server.stage phase).Consistent) {pegouts : List PegoutRequest} {x : PegoutId}
    (hx : x ∈ pegouts.map (·.id)) :
    (server.db.storePendingPegouts (pegouts.filter fun p => !(server.db.finalizedIds ++
      server.scheduler.trackedPegoutRequestIds).contains p.id)).Covered x := by
  obtain ⟨req, hreq, rfl⟩ := mem_map.mp hx
  by_cases hknown : req.id ∈ server.db.finalizedIds ++ server.scheduler.trackedPegoutRequestIds
  · rcases mem_append.mp hknown with hfinal | htracked
    · refine .inr (.inr ?_)
      rwa [Db.storePendingPegouts_finalizedPegoutIds]
    · obtain ⟨row, hrow, hid⟩ := mem_flatMap.mp htracked
      obtain ⟨txid, hlookup⟩ := mem_values.mp hrow
      refine .inr (.inl ⟨txid, row, ?_, hid⟩)
      rw [Db.storePendingPegouts_trackedTxs]
      exact hcons.memory txid row hlookup
  · refine .inl (Db.mem_pending_store.mpr (.inl (mem_map.mpr ⟨req, ?_, rfl⟩)))
    rw [mem_filter, Bool.not_eq_true', ← Bool.not_eq_true, contains_iff_mem]
    exact ⟨hreq, hknown⟩

/-- A checkpoint request that is served covers its pegouts. -/
theorem covered_of_checkpoint {server : Server} {checkpoint : BlockHash} {pegins : List RpcUtxo}
    {pending : List RpcPendingPegout}
    (hreq : input.request = .newConsensusCheckpoint checkpoint pegins pending)
    (hcons : (server.stage .searching).Consistent)
    (hcoin : pegins ≠ [] ∨ (server.stage .searching).IdleCoin) :
    Triple (· = ⟨server, 0⟩) (input.request.serve config input.bitcoind input.fuel)
      (fun _ e => ∀ x ∈ requestedIds pending, e.server.db.Covered x) fun _ => True := by
  have hsync : input.request.syncs := by rw [hreq]; trivial
  have hP : Stable config input fun c => c.Consistent ∧ (pegins ≠ [] ∨ c.IdleCoin) :=
    fun c c' hmove hc => ⟨stable_consistent c c' hmove hc.1,
      hc.2.imp_right (stable_idleCoin hsync c c' hmove)⟩
  -- after the deposits there is a coin
  let P : Stage → Prop := fun c => c.Consistent ∧ ∃ op, op ∈ c.db.utxos
  rw [hreq]
  refine Triple.bind ((Stable.syncPegoutScheduler hP hsync input.fuel checkpoint).conseq
    (fun _ h => h ▸ ⟨hcons, hcoin⟩) (fun _ _ => id) fun _ _ => trivial) fun _ => ?_
  refine Triple.bind (Triple.lift_eq fun _ _ => trivial) fun utxos => Triple.of_fact fun hutxos => ?_
  refine Triple.bind (Triple.update (T := During P .following) fun e he => ?_) fun _ => ?_
  · have hstable : Stable config input Consistent := stable_consistent
    refine ⟨hstable _ _ (.storeUtxos utxos) he.1, ?_⟩
    obtain hpegins | ⟨op, hop, -⟩ := he.2
    · have hall := mapM_eq_ok.mp hutxos
      cases hall with
      | nil => exact absurd rfl hpegins
      | @cons _ utxo => exact ⟨utxo.outpoint, mem_insertNewAll.mpr (.inl mem_cons_self)⟩
    · exact ⟨op, mem_insertNewAll.mpr (.inr hop)⟩
  refine Triple.bind (Q := fun _ => During P .following) (fun _ h => h) fun _ => ?_
  refine Triple.bind (Triple.lift_eq fun _ _ => trivial) fun _ => Triple.of_fact fun _ => ?_
  refine Triple.bind ((Stable.telemetryCall input.bitcoind _).conseq (fun _ => id) (fun _ _ => id)
    fun _ _ => trivial) fun _ => ?_
  refine Triple.bind (Triple.bind (Q := fun s (e : Exec) => e.server = s ∧ During P .following e)
    (fun _ h => ⟨rfl, h⟩) fun s => Triple.ite (fun hearly => ?_) fun _ => ?_) fun _ =>
      Triple.pure (P := fun e => ∀ x ∈ requestedIds pending, e.server.db.Covered x) fun _ h => h
  · refine Triple.pure fun e he => ?_
    obtain ⟨rfl, -, op, hop⟩ := he
    exact nomatch hearly.symm.trans (getAvailableUtxos_ne hop)
  · refine Triple.bind (Triple.lift_eq fun _ _ => trivial) fun pegouts =>
      Triple.of_fact fun hpegouts => Triple.update fun e he x hx => ?_
    obtain ⟨rfl, hcons, -⟩ := he
    exact covered_of_storePegouts hcons (mem_ids_of_parse hpegouts hx)

end checkpoints

/-! ## Runs -/

section runs
variable {config : Config}

/-- The invariant: memory and tables agree, and what is owed is covered. -/
structure NothingLost (h : ServerHistory) (server : Server) : Prop where
  consistent : (server.stage .searching).Consistent
  covered : ∀ x, Owed h x → server.db.Covered x

/-- What a served request brought is covered after it. -/
theorem covered_of_accepted {server : Server} {input : Input}
    (hcons : (server.stage .searching).Consistent) (hkeeps : KeepsPegouts config server input)
    {x : PegoutId} (hx : x ∈ accepted (fire config.step server input)) :
    (config.step server input).2.db.Covered x := by
  cases hreq : input.request with
  | newConsensusCheckpoint checkpoint pegins pending =>
    rw [KeepsPegouts, hreq] at hkeeps
    obtain ⟨-, rfl | hcoin⟩ := hkeeps
    · simp only [accepted, fire, hreq] at hx
      split at hx
      · simp_all [requestedIds]
      · cases hx
    · obtain ⟨reply, e, hout, hcovered, hstep⟩ | ⟨err, e, hout, -⟩ | ⟨e, hout, -⟩ :=
        step_cases (covered_of_checkpoint hreq hcons hcoin)
      · rw [hstep]
        simp only [accepted, fire] at hout hx
        rw [hreq, hout] at hx
        exact hcovered x hx
      · simp only [accepted, fire] at hout hx
        rw [hreq, hout] at hx
        cases hx
      · simp only [accepted, fire] at hout hx
        rw [hreq, hout] at hx
        cases hx
  | _ =>
    simp only [accepted, fire, hreq] at hx
    cases hx

theorem nothingLost_step {h : ServerHistory} {server : Server} {input : Input}
    (hcoord : config.isCoordinator = true) (hi : NothingLost h server)
    (hkeeps : KeepsPegouts config server input) :
    NothingLost (fire config.step server input :: h) (config.step server input).2 := by
  have hbefore : Covers (Owed h) server.db.pruneLog server.db :=
    ⟨prefix_rfl, fun x hx => .inl (hi.covered x hx)⟩
  have hafter : Covers (Owed h) server.db.pruneLog (config.step server input).2.db := by
    by_cases hround2 : ∃ psbt, input.request = .getRound2SigningPackage psbt
    · obtain ⟨psbt, hreq⟩ := hround2
      exact covers_round2 hcoord hreq hkeeps hbefore
    · exact covers_step hkeeps (fun psbt h => hround2 ⟨psbt, h⟩) hi.consistent hbefore
  refine ⟨hi.consistent.next input, fun x hx => ?_⟩
  obtain hx | ⟨hx, hpruned⟩ := hx
  · exact covered_of_accepted hi.consistent hkeeps hx
  · exact (hafter.covered x hx).resolve_right hpruned

/-- In every run of the coordinator whose requests keep the pegouts, each pegout that was
taken in is pending, tracked or final until it is pruned. -/
theorem owed_covered (config : Config) (hcoord : config.isCoordinator = true) {db : Db}
    (hkeyed : db.Keyed) {h : ServerHistory} {server : Server}
    (hrun : Run config.step (config.start db) h server)
    (hmeets : Meets (fun _ => KeepsPegouts config) h) : ∀ x, Owed h x → server.db.Covered x :=
  (hrun.invariant (I := NothingLost) ⟨consistent_start config hkeyed, nofun⟩
    (fun _ _ _ _ hi hkeeps => nothingLost_step hcoord hi hkeeps) hmeets).covered

end runs

/-! ## A pegout that is forgotten -/

/-- A coordinator that starts at the first block of the sample chain. -/
def youngCoordinator : Config :=
  { firstSigner with
    btc := minedBitcoin
    isCoordinator := true
    fallbackCheckpoint := genesisHash }

/-- A checkpoint at the first block that brings one pegout. -/
def pegoutCheckpoint : Input :=
  ⟨.newConsensusCheckpoint genesisHash []
    [⟨samplePegoutId.asBytes, p2tr 9, 90000, 1, 1700000000⟩], youngNode.steady minedBitcoin, 3⟩

/-- A coordinator whose wallet is empty answers the checkpoint and stores nothing. -/
theorem pegout_forgotten :
    ∃ h server, Run youngCoordinator.step (youngCoordinator.start freshDb) h server ∧
      ¬ ∀ x, Owed h x → server.db.Covered x := by
  refine ⟨_, _, Run.play [pegoutCheckpoint], fun hcovered => ?_⟩
  have howed : samplePegoutId ∈
      accepted (fire youngCoordinator.step (youngCoordinator.start freshDb) pegoutCheckpoint) := by
    decide +kernel
  have hempty : let db := (youngCoordinator.step (youngCoordinator.start freshDb) pegoutCheckpoint).2.db
      db.pendingPegouts.keys = [] ∧ db.trackedTxs.keys = [] ∧ db.finalizedPegoutIds.keys = [] := by
    decide +kernel
  obtain hx | ⟨txid, row, hrow, -⟩ | hx := hcovered samplePegoutId (.inl howed)
  · exact List.not_mem_nil (hempty.1 ▸ AList.mem_keys.mp hx)
  · have hmem := AList.mem_keys.mp (FinMap.mem_iff_lookup.mpr ⟨row, hrow⟩)
    exact List.not_mem_nil (hempty.2.1 ▸ hmem)
  · exact List.not_mem_nil (hempty.2.2 ▸ AList.mem_keys.mp hx)

/-- The tables with one coin. -/
def fundedDb : Db := freshDb.storeUtxos [⟨firstCoin, ⟨100000, p2tr 7⟩, none, 0⟩]

/-- With a coin in the wallet the pegout of the same request is kept. -/
theorem pegout_kept :
    let run := play youngCoordinator.step (youngCoordinator.start fundedDb) [pegoutCheckpoint]
    Owed run.1 samplePegoutId ∧ run.2.db.Covered samplePegoutId := by
  have howed : samplePegoutId ∈
      accepted (fire youngCoordinator.step (youngCoordinator.start fundedDb) pegoutCheckpoint) := by
    decide +kernel
  have hwatches : ∀ op, ¬ ((youngCoordinator.start fundedDb).stage .searching).Watches op := by
    rintro op (h | ⟨b, hb, h⟩ | ⟨txid, row, hrow, -⟩ | ⟨b, inputs, hphase, -⟩)
    · exact notMem_empty _ h
    · obtain rfl := mem_singleton.mp hb
      exact not_mem_nil h
    · cases hrow
    · cases hphase
  refine ⟨.inl howed, owed_covered youngCoordinator rfl
    ⟨keyedBy_empty, keyedBy_empty⟩ (Run.play [pegoutCheckpoint]) ⟨?_, trivial⟩ _
    (.inl howed)⟩
  exact ⟨fun op hop => absurd hop (hwatches op), .inr (.inr ⟨firstCoin, by decide +kernel,
    hwatches firstCoin⟩)⟩

end Macbeth
