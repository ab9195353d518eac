import Macbeth.BtcServer.Consistency

/-!
# A pegout is paid once

Two transactions a signer has signed for one pegout must spend a common coin, so that not
both can confirm.  Before it signs, the signer looks for tracked transactions that deliver
one of the pegouts.  The rows it finds are not all it signed: a row lists only those
pegouts that were pending when it was stored, a row can be overwritten, and rows go when
their block is rolled back, when the mempool or the node lose the transaction, and when an
output of it is spent.

In every run that avoids these, whatever else happens in it, each signed pegout stays with
its row until it is final, and no pegout is paid twice.
-/

namespace Macbeth

open Handler Stage List FinMap Outcome

/-! ## Statement -/

/-- The PSBTs the signer has signed. -/
def released : ServerHistory → List Psbt
  | [] => []
  | t :: h =>
    match t.input.request, t.output with
    | .getRound2SigningPackage psbt, .ok _ => psbt :: released h
    | _, _ => released h

/-- Two PSBTs that pay a common pegout spend a common coin. -/
def Psbt.Conflicts (p q : Psbt) : Prop :=
  ∀ x ∈ p.paidIds, x ∈ q.paidIds → ∃ op ∈ p.unsignedTx.inputs, op ∈ q.unsignedTx.inputs

/-- All pegouts of the PSBT are pending and none was pruned before, and a row of the same
transaction lists no others. -/
structure Psbt.Trackable (config : Config) (db : Db) (psbt : Psbt) : Prop where
  pending : ∀ x ∈ psbt.paidIds, x ∈ db.pendingPegouts
  notPruned : ∀ x ∈ psbt.paidIds, x ∉ db.pruneLog
  sameRow : ∀ tx row, psbt.extractTx = .ok tx →
    db.trackedTxs.lookup (config.btc.computeTxid tx) = some row →
    row.inputs = psbt.unsignedTx.inputs ∧ ∀ x ∈ row.pegoutIds, x ∈ psbt.paidIds

/-- The transactions of a block that are tracked deliver nothing. -/
def Stage.Idle (c : Stage) (b : BlockInfo) : Prop :=
  ∀ txid ∈ b.relevantTxs, ∀ row, c.scheduler.txs.lookup txid = some row → row.pegoutRequests = []

/-- The search for the fork is not over. -/
def Phase.Early : Phase → Prop
  | .searching | .rollingBack _ => True
  | _ => False

/-- No transaction that delivers a pegout is rolled back or lost by the mempool. -/
structure Stage.Settled (bitcoind : Bitcoind) (c : Stage) : Prop where
  inChain : c.phase.Early → ∀ b ∈ c.scheduler.lastBlocks, ∀ n info,
    (bitcoind n).blockHeaderInfo b.hash = .ok info → info.confirmations ≤ 0 → c.Idle b
  rollingBack : ∀ b, c.phase = .rollingBack b → c.Idle b
  inMempool : ∀ n txid row, c.scheduler.txs.lookup txid = some row →
    (bitcoind n).mempoolEntry txid = .error .transactionNotInMempool → row.pegoutRequests = []

/-- A transaction the node refuses delivers nothing. -/
def RefusedIdle (config : Config) (bitcoind : Bitcoind) (sessionId : List UInt8) (c : Stage) :
    Prop :=
  ∀ psbt tx row, finalizePsbt config.lib c.db sessionId = .ok psbt → psbt.extractTx = .ok tx →
    ¬ Accepts bitcoind tx → c.scheduler.txs.lookup (config.btc.computeTxid tx) = some row →
    row.pegoutRequests = []

/-- What a request must not meet. -/
def KeepsRows (config : Config) (server : Server) (input : Input) : Prop :=
  match input.request with
  | .getRound2SigningPackage psbt => psbt.Trackable config server.db
  | .newConsensusCheckpoint .. | .getPsbt .. =>
    (server.stage .searching).NoChained ∧ (server.stage .searching).Settled input.bitcoind
  | .finalizeSigning sessionId =>
    RefusedIdle config input.bitcoind sessionId (server.stage .searching)
  | .resetWalletState _ => False
  | _ => True

/-! ## Signed pegouts stay accounted for -/

/-- A pegout of a signed PSBT is listed by a tracked transaction with its inputs, or is
final. -/
def Accounted (db : Db) (p : Psbt) (x : PegoutId) : Prop :=
  (∃ txid row, db.trackedTxs.lookup txid = some row ∧ row.inputs = p.unsignedTx.inputs ∧
    x ∈ row.pegoutIds) ∨ x ∈ db.finalizedPegoutIds ∨ x ∈ db.pruneLog

/-- All pegouts of the signed PSBTs are. -/
def AllAccounted (signed : List Psbt) (db : Db) : Prop :=
  ∀ p ∈ signed, ∀ x ∈ p.paidIds, Accounted db p x

section accounted
variable {signed : List Psbt} {db db' : Db}

/-- A change that keeps the rows that deliver something, and what is final. -/
theorem AllAccounted.mono (h : AllAccounted signed db)
    (hrows : ∀ txid row, db.trackedTxs.lookup txid = some row → row.pegoutRequests ≠ [] →
      db'.trackedTxs.lookup txid = some row)
    (hfinal : ∀ x, x ∈ db.finalizedPegoutIds ∨ x ∈ db.pruneLog →
      x ∈ db'.finalizedPegoutIds ∨ x ∈ db'.pruneLog) : AllAccounted signed db' := by
  intro p hp x hx
  obtain ⟨txid, row, hrow, hinputs, hid⟩ | hx := h p hp x hx
  · refine .inl ⟨txid, row, hrows txid row hrow fun hnil => ?_, hinputs, hid⟩
    simp [Tx.pegoutIds, hnil] at hid
  · exact .inr (hfinal x hx)

/-- A row that delivers nothing may go. -/
theorem AllAccounted.erase {txid : Txid} (h : AllAccounted signed db)
    (hrow : ∀ row, db.trackedTxs.lookup txid = some row → row.pegoutRequests = []) :
    AllAccounted signed (db.removeTrackedTx txid) := by
  refine h.mono (fun t row hlookup hne => ?_) fun _ hx => hx
  rw [Db.removeTrackedTx, lookup_erase_eq, if_neg]
  · exact hlookup
  · intro heq
    exact hne (hrow row (heq ▸ hlookup))

/-- A row may go when its pegouts become final. -/
theorem AllAccounted.finalize {txid : Txid} {row : Tx} (h : AllAccounted signed db)
    (hrow : db.trackedTxs.lookup txid = some row) (now : Nat) :
    AllAccounted signed ((db.finalizePegouts row.pegoutRequests now).removeTrackedTx txid) := by
  intro p hp x hx
  obtain ⟨t, row', hrow', hinputs, hid⟩ | hx := h p hp x hx
  · by_cases heq : t = txid
    · rw [heq, hrow] at hrow'
      obtain rfl := Option.some.inj hrow'
      exact .inr ((Db.mem_finalizePegouts (.inl hid)).imp_right mem_of_mem_drop)
    · refine .inl ⟨t, row', ?_, hinputs, hid⟩
      simpa [Db.removeTrackedTx, lookup_erase_eq, heq] using hrow'
  · refine .inr ?_
    obtain hx | hx := hx
    · exact (Db.mem_finalizePegouts (.inr hx)).imp_right mem_of_mem_drop
    · exact .inr (Db.pruneLog_finalizePegouts.subset hx)

end accounted

/-! ## One move -/

/-- No move from here loses a row that delivers something. -/
structure Stage.Spares (config : Config) (input : Input) (c : Stage) : Prop where
  rolledBack : ∀ b, c.phase = .rollingBack b → c.Idle b
  dropped : input.request.syncs → ∀ n txid row, c.scheduler.txs.lookup txid = some row →
    (input.bitcoind n).mempoolEntry txid = .error .transactionNotInMempool →
    row.pegoutRequests = []
  spent : ∀ b inputs op row, c.phase = .finalizing b inputs → op ∈ inputs →
    c.scheduler.txs.lookup op.txid = some row → row.pegoutRequests = []
  refused : ∀ sessionId, input.request = .finalizeSigning sessionId →
    RefusedIdle config input.bitcoind sessionId c
  noRound2 : ∀ psbt, input.request ≠ .getRound2SigningPackage psbt
  noReset : ∀ pegouts, input.request ≠ .resetWalletState pegouts

section moves
variable {config : Config} {input : Input} {c c' : Stage} {signed : List Psbt}

theorem Move.accounted (hmove : Move config input c c') (hcons : c.Consistent)
    (hspares : c.Spares config input) (h : AllAccounted signed c.db) :
    AllAccounted signed c'.db := by
  -- a row of the table that is also in memory is the same row
  have htable : ∀ {txid row}, c.scheduler.txs.lookup txid = some row → row.pegoutRequests = [] →
      ∀ row', c.db.trackedTxs.lookup txid = some row' → row'.pegoutRequests = [] := by
    intro txid row hrow hnil row' hrow'
    rw [hcons.memory txid row hrow] at hrow'
    rwa [← Option.some.inj hrow']
  have hpending : ∀ {db : Db} (reqs : List PegoutRequest), AllAccounted signed db →
      AllAccounted signed (db.storePendingPegouts reqs) := fun reqs h =>
    h.mono (fun txid row hrow _ => by simpa using hrow) fun x hx => by simpa using hx
  cases hmove with
  | untrack hphase htxid hrow =>
    exact hpending _ (h.erase (htable hrow (hspares.rolledBack _ hphase _ htxid _ hrow)))
  | dropUnconfirmed m n hsync hphase hrow _ hentry =>
    exact hpending _ (h.erase (htable hrow (hspares.dropped hsync n _ _ hrow hentry)))
  | dropParent hphase hop hmem =>
    obtain ⟨row, hrow⟩ := mem_iff_lookup.mp hmem
    exact h.erase (htable hrow (hspares.spent _ _ _ _ hphase hop hrow))
  | finalizeTx _ hphase htxid hrow => exact h.finalize (hcons.memory _ _ hrow) _
  | finalizeMissing hphase htxid hmissing =>
    refine h.erase fun row hrow => ?_
    obtain hmem | hmem := hcons.relevant _ (.inr ⟨_, hphase⟩) _ htxid
    · exact absurd hmem hmissing
    · exact absurd (mem_iff_lookup.mpr ⟨row, hrow⟩) hmem
  | untrackRefused hreq hpsbt htx hrefused hrow =>
    exact h.erase (htable hrow (hspares.refused _ hreq _ _ _ hpsbt htx hrefused hrow))
  | track hreq => exact absurd hreq (hspares.noRound2 _)
  | resetFinalized _ hreq => exact absurd hreq (hspares.noReset _)
  | storePegouts => exact hpending _ h
  | _ => exact h.mono (fun _ _ hrow _ => hrow) fun _ hx => hx

/-! ## The conditions along a request -/

theorem Idle.mono {b : BlockInfo} (h : c.Idle b)
    (hshrink : ∀ txid row, c'.scheduler.txs.lookup txid = some row →
      c.scheduler.txs.lookup txid = some row) : c'.Idle b :=
  fun txid htxid row hrow => h txid htxid row (hshrink txid row hrow)

theorem stable_settled (hsync : input.request.syncs) :
    Stable config input (Settled input.bitcoind) := by
  intro c c' hmove h
  have hshrink : ∀ txid row, c'.scheduler.txs.lookup txid = some row →
      c.scheduler.txs.lookup txid = some row := fun _ _ => hmove.lookup_of_lookup hsync.ne_round2
  refine ⟨fun hearly b hb n info hinfo hconf => Idle.mono ?_ hshrink,
    fun b hphase => Idle.mono ?_ hshrink,
    fun n txid row hrow => h.inMempool n txid row (hshrink txid row hrow)⟩
  · -- a block that can still be rolled back could be before the move
    have hbefore : c.phase.Early ∧ b ∈ c.scheduler.lastBlocks := by
      cases hmove with
      | rollBack _ _ hphase => exact ⟨by rw [hphase]; trivial, mem_of_mem_dropLast hb⟩
      | rolledBack hphase => exact ⟨by rw [hphase]; trivial, hb⟩
      | follow => exact hearly.elim
      | addBlock _ _ hphase => rw [hphase] at hearly; exact hearly.elim
      | popBlock => exact hearly.elim
      | collectInputs => exact hearly.elim
      | finalized => exact hearly.elim
      | track hreq => exact absurd hreq (hsync.ne_round2 _)
      | _ => exact ⟨hearly, hb⟩
    exact h.inChain hbefore.1 b hbefore.2 n info hinfo hconf
  · cases hmove with
    | rollBack n _ hphase' hlast hinfo hconf =>
      cases hphase
      exact h.inChain (by rw [hphase']; trivial) _ (mem_of_getLast? hlast) n _ hinfo hconf
    | rolledBack => cases hphase
    | follow => cases hphase
    | popBlock => cases hphase
    | collectInputs => cases hphase
    | finalized => cases hphase
    | _ => exact h.rollingBack b hphase

theorem spares_of_sync (hsync : input.request.syncs) (hchained : c.NoChained)
    (hsettled : c.Settled input.bitcoind) : c.Spares config input where
  rolledBack := hsettled.rollingBack
  dropped _ := hsettled.inMempool
  spent b inputs op row hphase hop :=
    hchained op (.inr (.inr (.inr ⟨b, inputs, hphase, .inr hop⟩))) row
  refused sessionId hreq := by rw [hreq] at hsync; exact hsync.elim
  noRound2 := hsync.ne_round2
  noReset _ hreq := by rw [hreq] at hsync; exact hsync

theorem stable_refusedIdle {sessionId : List UInt8}
    (hreq : input.request = .finalizeSigning sessionId) :
    Stable config input (RefusedIdle config input.bitcoind sessionId) := by
  intro c c' hmove h psbt tx row hpsbt htx hrefused hrow
  rw [hmove.finalizePsbt_eq hreq] at hpsbt
  exact h psbt tx row hpsbt htx hrefused (hmove.lookup_of_lookup (by rw [hreq]; nofun) hrow)

theorem stable_accounted {side : Stage → Prop} (hside : Stable config input side)
    (hspares : ∀ c, side c → c.Spares config input) :
    Stable config input fun c => c.Consistent ∧ side c ∧ AllAccounted signed c.db :=
  fun c c' hmove ⟨hcons, hs, h⟩ => ⟨stable_consistent c c' hmove hcons, hside c c' hmove hs,
    hmove.accounted hcons (hspares c hs) h⟩

end moves

/-! ## One request -/

section requests
variable {config : Config} {input : Input} {server : Server} {signed : List Psbt}

/-- Other requests than round two keep the signed pegouts accounted for. -/
theorem accounted_step (hkeeps : KeepsRows config server input)
    (hreq : ∀ psbt, input.request ≠ .getRound2SigningPackage psbt)
    (hcons : (server.stage .searching).Consistent) (h : AllAccounted signed server.db) :
    ((config.step server input).2.stage .searching).Consistent ∧
      AllAccounted signed (config.step server input).2.db := by
  by_cases hsync : input.request.syncs
  · have hquiet : (server.stage .searching).NoChained ∧
        (server.stage .searching).Settled input.bitcoind := by
      unfold KeepsRows at hkeeps
      revert hkeeps hsync
      cases input.request <;> intro hkeeps hsync <;> first | exact hkeeps | exact hsync.elim
    have hside : Stable config input fun c => c.NoChained ∧ c.Settled input.bitcoind :=
      fun c c' hmove hc => ⟨stable_noChained hsync c c' hmove hc.1,
        stable_settled hsync c c' hmove hc.2⟩
    exact hcons.step (stable_accounted hside fun c hc => spares_of_sync hsync hc.1 hc.2) hquiet h
  · have hreset : ∀ pegouts, input.request ≠ .resetWalletState pegouts := by
      intro pegouts hreq'
      rw [KeepsRows, hreq'] at hkeeps
      exact hkeeps
    -- outside of a synchronization only a refused broadcast can lose a row
    have hspares : ∀ c : Stage, c.phase = .searching →
        (∀ sessionId, input.request = .finalizeSigning sessionId →
          RefusedIdle config input.bitcoind sessionId c) → c.Spares config input := by
      intro c hphase hrefused
      refine ⟨fun b hb => ?_, fun h => absurd h hsync, fun b inputs op row hb => ?_,
        hrefused, hreq, hreset⟩
      · rw [hphase] at hb; cases hb
      · rw [hphase] at hb; cases hb
    have hside : Stable config input fun c => c.phase = .searching ∧
        ∀ sessionId, input.request = .finalizeSigning sessionId →
          RefusedIdle config input.bitcoind sessionId c :=
      fun c c' hmove hc => ⟨stable_searching config hsync c c' hmove hc.1, fun sessionId hreq' =>
        stable_refusedIdle hreq' c c' hmove (hc.2 sessionId hreq')⟩
    refine hcons.step (stable_accounted hside fun c hc => hspares c hc.1 hc.2)
      ⟨rfl, fun sessionId hreq' => ?_⟩ h
    rw [KeepsRows, hreq'] at hkeeps
    exact hkeeps

/-- What the search for conflicting inputs has found. -/
theorem inputs_of_hasConflictingInput {db : Db} {psbt : Psbt} (h : hasConflictingInput db psbt = .ok ())
    {txid : Txid} {row : Tx} (hrow : db.trackedTxs.lookup txid = some row) {x : PegoutId}
    (hx : x ∈ psbt.paidIds) (hid : x ∈ row.pegoutIds) :
    ∃ op ∈ psbt.unsignedTx.inputs, op ∈ row.inputs := by
  obtain ⟨ids, hids, hloop⟩ := bind_eq_ok.mp h
  obtain rfl := Psbt.paidIds_eq (mapM_ofOption_eq_ok.mp hids)
  have hcheck := forM_eq_ok.mp hloop row (mem_values.mpr ⟨txid, hrow⟩)
  rw [if_pos (any_eq_true.mpr ⟨x, hid, contains_iff_mem.mpr hx⟩)] at hcheck
  obtain ⟨op, hop, hmem⟩ := any_eq_true.mp (ensure_eq_ok.mp hcheck)
  exact ⟨op, contains_iff_mem.mp hmem, hop⟩

/-- A PSBT that passes the checks conflicts with every signed one that is accounted for. -/
theorem conflicts_of_passes {db : Db} {psbt q : Psbt} (hpasses : psbt.Passes db)
    (hpruned : ∀ x ∈ psbt.paidIds, x ∉ db.pruneLog) (hq : ∀ x ∈ q.paidIds, Accounted db q x) :
    psbt.Conflicts q := by
  intro x hx hxq
  obtain ⟨txid, row, hrow, hinputs, hid⟩ | hfinal | hlog := hq x hxq
  · rw [← hinputs]
    exact inputs_of_hasConflictingInput hpasses.conflicts hrow hx hid
  · obtain ⟨ids, hids, -⟩ := bind_eq_ok.mp hpasses.conflicts
    have hids := mapM_ofOption_eq_ok.mp hids
    exact absurd hfinal (hpasses.unpaid ids hids x (Psbt.paidIds_eq hids ▸ hx))
  · exact absurd hlog (hpruned x hx)

/-- The row of a signed PSBT lists all its pegouts when all are pending. -/
theorem mem_pegoutIds_of_pending {db : Db} {psbt : Psbt} {tx : Transaction} {row : Tx}
    (hkeyed : db.Keyed) (hrow : RowOf config db psbt tx row) {x : PegoutId} (hx : x ∈ psbt.paidIds)
    (hpending : x ∈ db.pendingPegouts) : x ∈ row.pegoutIds := by
  obtain ⟨req, hreq⟩ := mem_iff_lookup.mp hpending
  have hid : req.id = x := hkeyed.pending x req hreq
  refine mem_map.mpr ⟨req, ?_, hid⟩
  rw [hrow.pegoutRequests, mem_filter, hid]
  exact ⟨mem_values.mpr ⟨x, hreq⟩, contains_iff_mem.mpr hx⟩

/-- Round two keeps the signed pegouts accounted for, with those it signs. -/
theorem accounted_track {db : Db} {psbt : Psbt} {tx : Transaction} {row : Tx}
    (hkeyed : db.Keyed) (htrackable : psbt.Trackable config db) (htx : psbt.extractTx = .ok tx)
    (hrow : RowOf config db psbt tx row) (h : AllAccounted signed db) :
    AllAccounted (psbt :: signed) (db.storeTrackedTx row) := by
  have hinputs : row.inputs = psbt.unsignedTx.inputs := by
    rw [Tx.inputs, hrow.tx, (Psbt.inputs_of_extractTx htx).1]
  have hlists : ∀ x ∈ psbt.paidIds, x ∈ row.pegoutIds := fun x hx =>
    mem_pegoutIds_of_pending hkeyed hrow hx (htrackable.pending x hx)
  have hnew : (db.storeTrackedTx row).trackedTxs.lookup row.txid = some row :=
    AList.lookup_insert ..
  intro p hp x hx
  rcases mem_cons.mp hp with rfl | hp
  · exact .inl ⟨row.txid, row, hnew, hinputs, hlists x hx⟩
  · obtain ⟨txid, row', hrow', hinputs', hid⟩ | hfinal := h p hp x hx
    · by_cases heq : txid = row.txid
      · -- the row was replaced by one with its inputs and pegouts
        rw [heq, hrow.txid] at hrow'
        obtain ⟨hsame, hids⟩ := htrackable.sameRow tx row' htx hrow'
        exact .inl ⟨row.txid, row, hnew, by rw [hinputs, ← hsame, hinputs'], hlists x (hids x hid)⟩
      · refine .inl ⟨txid, row', ?_, hinputs', hid⟩
        rw [Db.storeTrackedTx, lookup_insert_eq, if_neg heq]
        exact hrow'
    · exact .inr hfinal

/-- A failed validation does not touch what is accounted for. -/
theorem AllAccounted.afterCheck {db db' : Db} (h : AllAccounted signed db)
    (hcheck : db.AfterCheck db') : AllAccounted signed db' := by
  obtain rfl | ⟨id, -, rfl⟩ := hcheck
  · exact h
  · exact h.mono (fun _ _ hrow _ => hrow) fun _ hx => hx

end requests

/-! ## Runs -/

section runs
variable {config : Config}

/-- The invariant: memory and tables agree, every signed pegout is accounted for, and the
signed PSBTs conflict pairwise where they pay the same. -/
structure PaysOnce (h : ServerHistory) (server : Server) : Prop where
  consistent : (server.stage .searching).Consistent
  accounted : AllAccounted (released h) server.db
  conflicts : (released h).Pairwise Psbt.Conflicts

theorem released_cons {t : Transition Server Input (Outcome Status Reply)}
    {h : ServerHistory}
    (hreq : ∀ psbt, t.input.request ≠ .getRound2SigningPackage psbt) :
    released (t :: h) = released h := by
  obtain ⟨pre, ⟨request, bitcoind, fuel⟩, output, post⟩ := t
  cases request <;> first | rfl | exact absurd rfl (hreq _)

theorem paysOnce_round2 {h : ServerHistory} {server : Server}
    {input : Input} {psbt : Psbt} (hreq : input.request = .getRound2SigningPackage psbt)
    (htrackable : psbt.Trackable config server.db) (hi : PaysOnce h server) :
    PaysOnce (fire config.step server input :: h) (config.step server input).2 := by
  suffices hsuff : AllAccounted (released (fire config.step server input :: h))
      (config.step server input).2.db ∧
      (released (fire config.step server input :: h)).Pairwise Psbt.Conflicts from
    ⟨hi.consistent.next input, hsuff.1, hsuff.2⟩
  obtain ⟨reply, e, hout, htracks, hstep⟩ | ⟨err, e, hout, hcheck, hstep⟩ |
    ⟨e, hout, hcheck, hstep⟩ := step_cases (serve_round2 hreq)
  · have hreleased : released (fire config.step server input :: h) = psbt :: released h := by
      simp only [released, fire] at hout ⊢
      rw [hreq, hout]
    obtain ⟨hpasses, tx, row, htx, hrow, -, hdb⟩ := htracks
    have haccounted := accounted_track hi.consistent.keyed htrackable htx hrow hi.accounted
    rw [hreleased, hstep]
    refine ⟨?_, pairwise_cons.mpr ⟨fun q hq => ?_, hi.conflicts⟩⟩
    · obtain ⟨hdb, -⟩ | ⟨hdb, -⟩ := hdb
      · rwa [hdb]
      · rw [hdb]
        exact haccounted.mono (fun _ _ hrow _ => hrow) fun _ hx => hx
    · exact conflicts_of_passes hpasses htrackable.notPruned (hi.accounted q hq)
  · have hreleased : released (fire config.step server input :: h) = released h := by
      simp only [released, fire] at hout ⊢
      rw [hreq, hout]
    rw [hreleased, hstep]
    exact ⟨hi.accounted.afterCheck hcheck.1, hi.conflicts⟩
  · have hreleased : released (fire config.step server input :: h) = released h := by
      simp only [released, fire] at hout ⊢
      rw [hreq, hout]
    rw [hreleased, hstep]
    exact ⟨hi.accounted.afterCheck hcheck.1, hi.conflicts⟩

/-- In every run whose requests keep the rows of what was signed, two signed PSBTs that pay
a common pegout spend a common coin. -/
theorem released_conflict (config : Config) {db : Db} (hkeyed : db.Keyed)
    {h : ServerHistory} {server : Server}
    (hrun : Run config.step (config.start db) h server)
    (hmeets : Meets (fun _ => KeepsRows config) h) : (released h).Pairwise Psbt.Conflicts := by
  refine (hrun.invariant (I := PaysOnce) ⟨consistent_start config hkeyed, nofun, .nil⟩
    (fun h server input _ hi hkeeps => ?_) hmeets).conflicts
  by_cases hround2 : ∃ psbt, input.request = .getRound2SigningPackage psbt
  · obtain ⟨psbt, hreq⟩ := hround2
    rw [KeepsRows, hreq] at hkeeps
    exact paysOnce_round2 hreq hkeeps hi
  · have hreq : ∀ psbt, input.request ≠ .getRound2SigningPackage psbt := fun psbt h =>
      hround2 ⟨psbt, h⟩
    have hreleased : released (fire config.step server input :: h) = released h := released_cons hreq
    obtain ⟨hcons, haccounted⟩ := accounted_step hkeeps hreq hi.consistent hi.accounted
    exact ⟨hcons, hreleased ▸ haccounted, hreleased ▸ hi.conflicts⟩

end runs

/-! ## A pegout that is signed twice -/

/-- A signing session for the payment from a coin, the second round first. -/
def signPayment (coin : OutPoint) (k : BitVec 256) : List Input :=
  [⟨.getRound2SigningPackage (committedPsbt coin k), unreachable, 0⟩,
    ⟨.getRound1SigningPackage (paymentPsbt coin []) fun _ => noncePair k, unreachable, 0⟩]

/-- Two sessions on the same signer. -/
def signTwice (config : Config) (db : Db) (coin : OutPoint) :
    ServerHistory × Server :=
  play config.step (config.start db) (signPayment coin 20 ++ signPayment firstCoin 10)

/-- A signer for which the pegout is not pending signs two payments of it that have no coin
in common. -/
theorem pegout_signed_twice :
    ∃ h server, Run firstSigner.step (firstSigner.start freshDb) h server ∧
      ¬ (released h).Pairwise Psbt.Conflicts := by
  refine ⟨_, _, Run.play (signPayment secondCoin 20 ++ signPayment firstCoin 10), fun hpairs => ?_⟩
  have hreleased : (released (signTwice firstSigner freshDb secondCoin).1).map
      (fun p => (p.paidIds, p.unsignedTx.inputs)) =
      [([samplePegoutId], [secondCoin]), ([samplePegoutId], [firstCoin])] := by decide +kernel
  have hpairs : ((released (signTwice firstSigner freshDb secondCoin).1).map
      (fun p => (p.paidIds, p.unsignedTx.inputs))).Pairwise
      fun p q => ∀ x ∈ p.1, x ∈ q.1 → ∃ op ∈ p.2, op ∈ q.2 := pairwise_map.mpr hpairs
  rw [hreleased] at hpairs
  revert hpairs
  decide

/-- The coordinator with the pegout pending. -/
def coordinator : Config := { firstSigner with isCoordinator := true }

def pendingDb : Db :=
  freshDb.storePendingPegouts [⟨samplePegoutId, p2tr 9, 90000, 1, some 1700000000⟩]

/-- A session for the payment from the first coin meets the condition. -/
theorem paymentPsbt_trackable {db : Db} (k : BitVec 256) (hk : k = 10 ∨ k = 20)
    (hpending : samplePegoutId ∈ db.pendingPegouts) (hlog : db.pruneLog = [])
    (hrow : (db.trackedTxs.lookup (coordinator.btc.computeTxid (payment firstCoin))).all (fun row =>
      row.inputs = [firstCoin] ∧ row.pegoutIds = [samplePegoutId]) = true) :
    (committedPsbt firstCoin k).Trackable coordinator db := by
  have hids : (committedPsbt firstCoin k).paidIds = [samplePegoutId] := by
    rcases hk with rfl | rfl <;> decide +kernel
  have hextract : (committedPsbt firstCoin k).extractTx = .ok (payment firstCoin) := by
    rcases hk with rfl | rfl <;> decide +kernel
  refine ⟨?_, ?_, fun tx row htx hlookup => ?_⟩
  · rw [hids]
    exact forall_mem_singleton.mpr hpending
  · rw [hlog]
    exact fun _ _ => not_mem_nil
  · obtain rfl : payment firstCoin = tx := ok.inj (hextract.symm.trans htx)
    rw [hlookup] at hrow
    obtain ⟨hinputs, hrowIds⟩ := of_decide_eq_true hrow
    refine ⟨hinputs, ?_⟩
    rw [hids, hrowIds]
    exact fun _ h => h

/-- With the pegout pending, both sessions for one coin succeed and their transactions
conflict. -/
theorem pegout_signed_for_one_coin :
    (released (signTwice coordinator pendingDb firstCoin).1).length = 2 ∧
      (released (signTwice coordinator pendingDb firstCoin).1).Pairwise Psbt.Conflicts := by
  have hkeyed : pendingDb.Keyed :=
    ⟨keyedBy_empty, (keyedBy_empty : FinMap.KeyedBy PegoutRequest.id ∅).insert _⟩
  refine ⟨by decide +kernel, released_conflict coordinator hkeyed
    (Run.play (signPayment firstCoin 20 ++ signPayment firstCoin 10)) ⟨?_, trivial, ?_, trivial, trivial⟩⟩
  · exact paymentPsbt_trackable 20 (.inr rfl) (by decide +kernel) (by decide +kernel)
      (by decide +kernel)
  · exact paymentPsbt_trackable 10 (.inl rfl) (by decide +kernel) (by decide +kernel)
      (by decide +kernel)

end Macbeth
