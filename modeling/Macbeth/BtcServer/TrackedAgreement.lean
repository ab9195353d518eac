import Macbeth.BtcServer.DoublePayment

/-!
# Both copies of the tracked transactions

The scheduler follows the chain with the transactions it has in memory; the search for
conflicting inputs reads the table.  Every handler changes both together, so they differ
only through a restart: without a stored tip the scheduler starts with no transactions,
whatever the table holds.  A tip is stored by the first synchronization that succeeds, and
round two does not wait for it.
-/

namespace Macbeth

open Stage FinMap AList

/-- Memory and table hold the same rows. -/
def Server.Agrees (server : Server) : Prop :=
  ∀ txid, server.scheduler.txs.lookup txid = server.db.trackedTxs.lookup txid

/-- A restart loads every row. -/
def Db.Reloads (db : Db) : Prop := db.pegoutMgrTip = none → ∀ txid, txid ∉ db.trackedTxs

/-- Round two finds a stored tip. -/
def TipFirst (db : Db) (input : Input) : Prop :=
  ∀ psbt, input.request = .getRound2SigningPackage psbt → db.pegoutMgrTip.isSome

/-! ## What a restart loads -/

theorem mem_foldl_trackTx : ∀ {txs : List Tx} {s : Scheduler} {txid : Txid},
    (∃ tx ∈ txs, tx.txid = txid) ∨ txid ∈ s.txs → txid ∈ (txs.foldl Scheduler.trackTx s).txs
  | [], _, _, h => h.resolve_left (by simp)
  | tx' :: txs, s, txid, h => by
    refine mem_foldl_trackTx (s := s.trackTx tx') ?_
    obtain ⟨tx, hmem, rfl⟩ | h := h
    · obtain rfl | hmem := List.mem_cons.mp hmem
      · exact .inr (mem_insert _ |>.mpr (.inl rfl))
      · exact .inl ⟨tx, hmem, rfl⟩
    · exact .inr (mem_insert _ |>.mpr (.inr h))

/-- After a restart both copies are the same. -/
theorem agrees_start (config : Config) {db : Db} (hkeyed : db.Keyed) (hreloads : db.Reloads) :
    (config.start db).Agrees := by
  intro txid
  cases hmemory : (config.start db).scheduler.txs.lookup txid with
  | some tx => exact ((consistent_start config hkeyed).memory txid tx hmemory).symm
  | none =>
    -- a row of the table would have been loaded
    symm
    by_contra hrow
    obtain ⟨tx, hrow⟩ := Option.ne_none_iff_exists'.mp hrow
    refine lookup_eq_none.mp hmemory ?_
    show txid ∈ (config.loadPegoutScheduler db).txs
    unfold Config.loadPegoutScheduler
    cases htip : db.pegoutMgrTip with
    | none => exact absurd (mem_iff_lookup.mpr ⟨tx, hrow⟩) (hreloads htip txid)
    | some tip =>
      have hid : tx.txid = txid := hkeyed.tracked txid tx hrow
      exact mem_foldl_trackTx (.inl ⟨tx, mem_values.mpr ⟨txid, hrow⟩, hid⟩)

/-! ## One move -/

/-- The copies agree, and a restart would not change that. -/
structure Stage.BothCopies (input : Input) (c : Stage) : Prop where
  agrees : ∀ txid, c.scheduler.txs.lookup txid = c.db.trackedTxs.lookup txid
  keyed : c.db.Keyed
  reloads : c.db.Reloads
  tipFirst : TipFirst c.db input

namespace Stage.BothCopies

variable {input : Input} {c c' : Stage}

/-- A change of other parts. -/
theorem frame (h : c.BothCopies input) (hkeyed : c'.db.Keyed)
    (htxs : c'.scheduler.txs = c.scheduler.txs) (htracked : c'.db.trackedTxs = c.db.trackedTxs)
    (htip : c'.db.pegoutMgrTip = c.db.pegoutMgrTip) : c'.BothCopies input where
  agrees := by rw [htxs, htracked]; exact h.agrees
  keyed := hkeyed
  reloads := by rw [Db.Reloads, htip, htracked]; exact h.reloads
  tipFirst := by rw [TipFirst, htip]; exact h.tipFirst

/-- A row that goes from both. -/
theorem erase {txid : Txid} (h : c.BothCopies input) (hkeyed : c'.db.Keyed)
    (htxs : ∀ t, c'.scheduler.txs.lookup t = if t = txid then none else c.scheduler.txs.lookup t)
    (htracked : c'.db.trackedTxs = c.db.trackedTxs.erase txid)
    (htip : c'.db.pegoutMgrTip = c.db.pegoutMgrTip) : c'.BothCopies input where
  agrees t := by rw [htxs, htracked, lookup_erase_eq, h.agrees]
  keyed := hkeyed
  reloads := by
    intro hnone t ht
    rw [htracked, mem_erase] at ht
    exact h.reloads (htip ▸ hnone) t ht.2
  tipFirst := by rw [TipFirst, htip]; exact h.tipFirst

end Stage.BothCopies

namespace Db

@[simp] theorem storePendingPegouts_pegoutMgrTip (db : Db) (reqs : List PegoutRequest) :
    (db.storePendingPegouts reqs).pegoutMgrTip = db.pegoutMgrTip := by
  unfold storePendingPegouts; split <;> rfl

@[simp] theorem finalizePegouts_pegoutMgrTip (db : Db) (requests : List PegoutRequest) (now : Nat) :
    (db.finalizePegouts requests now).pegoutMgrTip = db.pegoutMgrTip := by
  unfold finalizePegouts; split <;> rfl

end Db

theorem stable_bothCopies {config : Config} {input : Input} :
    Stable config input fun c => c.Consistent ∧ c.BothCopies input := by
  intro c c' hmove hboth
  obtain ⟨hcons, h⟩ := hboth
  have hcons' := stable_consistent c c' hmove hcons
  refine ⟨hcons', ?_⟩
  have hkeyed := hcons'.keyed
  clear hcons'
  cases hmove with
  | untrack =>
    refine h.erase hkeyed (fun t => lookup_erase_eq ..) ?_ ?_ <;>
      simp [Stage.untrack, Db.removeTrackedTx]
  | dropUnconfirmed =>
    refine h.erase hkeyed (fun t => lookup_erase_eq ..) ?_ ?_ <;>
      simp [Stage.untrack, Db.removeTrackedTx]
  | dropParent => exact h.erase hkeyed (fun t => lookup_erase_eq ..) rfl rfl
  | finalizeTx =>
    refine h.erase hkeyed (fun t => lookup_erase_eq ..) ?_ ?_ <;>
      simp [Stage.dropTx, Db.removeTrackedTx]
  | @finalizeMissing _ _ txid _ _ hmissing =>
    refine h.erase hkeyed (fun t => ?_) rfl rfl
    by_cases heq : t = txid
    · rw [if_pos heq, heq]
      exact lookup_eq_none.mpr hmissing
    · rw [if_neg heq]
  | untrackRefused => exact h.erase hkeyed (fun t => lookup_erase_eq ..) rfl rfl
  | storePegouts => exact h.frame hkeyed rfl (by simp) (by simp)
  | saveTip => exact ⟨h.agrees, hkeyed, fun hnone => absurd hnone (Option.some_ne_none _), fun _ _ => rfl⟩
  | track hreq =>
    have htip := h.tipFirst _ hreq
    refine ⟨fun t => ?_, hkeyed, fun hnone => ?_, h.tipFirst⟩
    · simp only [Scheduler.trackTx, Db.storeTrackedTx, lookup_insert_eq, h.agrees]
    · have hnone : c.db.pegoutMgrTip = none := hnone
      simp [hnone] at htip
  | _ => exact h.frame hkeyed rfl rfl rfl

/-! ## Runs -/

/-- What holds between requests. -/
structure Server.Mirrors (server : Server) : Prop where
  consistent : (server.stage .searching).Consistent
  agrees : server.Agrees
  reloads : server.db.Reloads

theorem mirrors_start (config : Config) {db : Db} (hkeyed : db.Keyed) (hreloads : db.Reloads) :
    (config.start db).Mirrors :=
  ⟨consistent_start config hkeyed, agrees_start config hkeyed hreloads, hreloads⟩

theorem Server.Mirrors.step {config : Config} {server : Server} {input : Input}
    (h : server.Mirrors) (htip : TipFirst server.db input) :
    (config.step server input).2.Mirrors := by
  have hboth : (server.stage .searching).BothCopies input :=
    ⟨h.agrees, h.consistent.keyed, h.reloads, htip⟩
  obtain ⟨server', phase, ⟨hcons, hboth⟩, ⟨-, hstep⟩ | ⟨-, hstep⟩⟩ :=
    stable_bothCopies.step ⟨h.consistent, hboth⟩
  · rw [hstep]
    exact ⟨hcons.searching, hboth.agrees, hboth.reloads⟩
  · rw [hstep]
    exact mirrors_start config hcons.keyed hboth.reloads

/-- In every run in which round two is served only with a stored tip, memory and table list
the same transactions after every request, with the same rows. -/
theorem tracked_copies_agree (config : Config) {db : Db} (hkeyed : db.Keyed)
    (hreloads : db.Reloads) {h : ServerHistory} {server : Server}
    (hrun : Run config.step (config.start db) h server)
    (hmeets : Meets (fun _ server => TipFirst server.db) h) :
    (∀ txid, txid ∈ server.scheduler.txs ↔ txid ∈ server.db.trackedTxs) ∧ server.Agrees := by
  have hmirrors : server.Mirrors :=
    hrun.invariant (I := fun _ server => server.Mirrors) (mirrors_start config hkeyed hreloads)
      (fun _ _ _ _ hi htip => hi.step htip) hmeets
  refine ⟨fun txid => ?_, hmirrors.agrees⟩
  rw [mem_iff_lookup, mem_iff_lookup, hmirrors.agrees]

/-! ## A restart before the first synchronization -/

/-- A signed payment, then a restart; the newest first. -/
def signThenRestart : List Input :=
  ⟨.restart, unreachable, 0⟩ :: signPayment firstCoin 10

/-- The server after it. -/
def restarted (db : Db) : Server :=
  (play firstSigner.step (firstSigner.start db) signThenRestart).2

/-- With a stored tip both copies keep the payment. -/
theorem payment_reloaded :
    (restarted { freshDb with pegoutMgrTip := some 0 }).db.trackedTxs.keys =
        [firstSigner.btc.computeTxid (payment firstCoin)] ∧
      ∀ txid, txid ∈ (restarted { freshDb with pegoutMgrTip := some 0 }).scheduler.txs ↔
        txid ∈ (restarted { freshDb with pegoutMgrTip := some 0 }).db.trackedTxs := by
  refine ⟨by decide +kernel, (tracked_copies_agree firstSigner
    ⟨keyedBy_empty, keyedBy_empty⟩ (fun h => absurd h (by decide))
    (Run.play signThenRestart) ⟨nofun, fun _ _ => ?_, nofun, trivial⟩).1⟩
  decide +kernel

/-- Without one the table has the payment and memory has not. -/
theorem payment_not_reloaded :
    ∃ h server, Run firstSigner.step (firstSigner.start freshDb) h server ∧
      firstSigner.btc.computeTxid (payment firstCoin) ∈ server.db.trackedTxs ∧
      firstSigner.btc.computeTxid (payment firstCoin) ∉ server.scheduler.txs := by
  have hrun : Run firstSigner.step (firstSigner.start freshDb) _ (restarted freshDb) :=
    Run.play signThenRestart
  exact ⟨_, _, hrun, by decide +kernel, by decide +kernel⟩

/-- In every run, whatever is requested and the node answers, across panics and restarts: what is
in memory is in the table with the same row, rows are stored under their own ids, and what a
followed block names is in memory or not tracked at all. -/
theorem memory_within_table {config : Config} {db : Db} (hkeyed : db.Keyed) {h : ServerHistory}
    {server : Server} (hrun : Run config.step (config.start db) h server) :
    (∀ txid tx, server.scheduler.txs.lookup txid = some tx →
      server.db.trackedTxs.lookup txid = some tx) ∧ server.db.Keyed ∧
    ∀ b ∈ server.scheduler.lastBlocks, ∀ txid ∈ b.relevantTxs,
      txid ∈ server.scheduler.txs ∨ txid ∉ server.db.trackedTxs := by
  have hcons : (server.stage .searching).Consistent :=
    hrun.always (I := fun s => (s.stage .searching).Consistent) (consistent_start config hkeyed)
      fun _ input hcons => hcons.next input
  exact ⟨hcons.memory, hcons.keyed, fun b hb => hcons.relevant b (.inl hb)⟩

theorem restarted_within_table : (restarted freshDb).db.Keyed :=
  (memory_within_table ⟨keyedBy_empty, keyedBy_empty⟩ (Run.play signThenRestart)).2.1

end Macbeth
