import Macbeth.BtcServer.RequestMoves

/-!
# Memory and tables agree

The scheduler keeps the tracked transactions in memory and in the database, and the blocks
it follows name them by their ids.  Whatever the requests are, and across restarts, a row
in memory is the row of the table, and a transaction that a followed block names is in
memory or in neither.
-/

namespace Macbeth

open Outcome List FinMap

/-- Rows are stored under their own ids. -/
structure Db.Keyed (db : Db) : Prop where
  tracked : db.trackedTxs.KeyedBy (·.txid)
  pending : db.pendingPegouts.KeyedBy (·.id)

/-- The blocks whose transactions are still to be dealt with. -/
def Stage.Holds (c : Stage) (b : BlockInfo) : Prop :=
  b ∈ c.scheduler.lastBlocks ∨ ∃ inputs, c.phase = .finalizing b inputs

variable {c : Stage}

/-- Outside of a finalization only the followed blocks are left. -/
theorem Stage.Holds.mem {b : BlockInfo} (h : c.Holds b)
    (hphase : ∀ b inputs, c.phase ≠ .finalizing b inputs) : b ∈ c.scheduler.lastBlocks := by
  obtain h | ⟨inputs, h⟩ := h
  · exact h
  · exact absurd h (hphase b inputs)

/-- Memory and tables agree. -/
structure Stage.Consistent (c : Stage) : Prop where
  memory : ∀ txid tx, c.scheduler.txs.lookup txid = some tx → c.db.trackedTxs.lookup txid = some tx
  keyed : c.db.Keyed
  relevant : ∀ b, c.Holds b → ∀ txid ∈ b.relevantTxs,
    txid ∈ c.scheduler.txs ∨ txid ∉ c.db.trackedTxs

namespace Stage.Consistent

variable {c c' : Stage}

/-- A change of other parts, with no new blocks. -/
theorem frame (h : c.Consistent) (htxs : c'.scheduler.txs = c.scheduler.txs)
    (htracked : c'.db.trackedTxs = c.db.trackedTxs)
    (hpending : c.db.pendingPegouts.KeyedBy (·.id) → c'.db.pendingPegouts.KeyedBy (·.id))
    (hblocks : ∀ b, c'.Holds b → c.Holds b) : c'.Consistent where
  memory := by rw [htxs, htracked]; exact h.memory
  keyed := ⟨by rw [htracked]; exact h.keyed.tracked, hpending h.keyed.pending⟩
  relevant b hb := by rw [htxs, htracked]; exact h.relevant b (hblocks b hb)

/-- A row that goes from both. -/
theorem erase {txid : Txid} (h : c.Consistent)
    (htxs : ∀ t, c'.scheduler.txs.lookup t = if t = txid then none else c.scheduler.txs.lookup t)
    (htracked : ∀ t, c'.db.trackedTxs.lookup t =
      if t = txid then none else c.db.trackedTxs.lookup t)
    (hpending : c.db.pendingPegouts.KeyedBy (·.id) → c'.db.pendingPegouts.KeyedBy (·.id))
    (hblocks : ∀ b, c'.Holds b → c.Holds b) : c'.Consistent where
  memory t tx hlookup := by
    rw [htxs] at hlookup
    rw [htracked]
    by_cases heq : t = txid
    · rw [if_pos heq] at hlookup
      cases hlookup
    · rw [if_neg heq] at hlookup ⊢
      exact h.memory t tx hlookup
  keyed := by
    refine ⟨fun t tx hlookup => ?_, hpending h.keyed.pending⟩
    rw [htracked] at hlookup
    by_cases heq : t = txid
    · rw [if_pos heq] at hlookup
      cases hlookup
    · rw [if_neg heq] at hlookup
      exact h.keyed.tracked t tx hlookup
  relevant b hb t ht := by
    rw [mem_iff_lookup, mem_iff_lookup, htxs, htracked]
    by_cases heq : t = txid
    · simp [heq]
    · simp only [if_neg heq, ← mem_iff_lookup]
      exact h.relevant b (hblocks b hb) t ht

/-- A row that is new in both. -/
theorem track {tracked : Tx} (h : c.Consistent) :
    Consistent { c with
      db := c.db.storeTrackedTx tracked
      scheduler := c.scheduler.trackTx tracked } where
  memory t tx hlookup := by
    simp only [Scheduler.trackTx, Db.storeTrackedTx, lookup_insert_eq] at hlookup ⊢
    by_cases heq : t = tracked.txid
    · rwa [if_pos heq] at hlookup ⊢
    · rw [if_neg heq] at hlookup ⊢
      exact h.memory t tx hlookup
  keyed := ⟨h.keyed.tracked.insert tracked, h.keyed.pending⟩
  relevant b hb t ht := by
    simp only [Scheduler.trackTx, Db.storeTrackedTx, AList.mem_insert]
    have := h.relevant b hb t ht
    tauto

/-- A block that names what is in memory. -/
theorem addBlock {b : BlockInfo} (h : c.Consistent)
    (hrelevant : ∀ txid ∈ b.relevantTxs, txid ∈ c.scheduler.txs) :
    Consistent { c with
      scheduler := { c.scheduler with lastBlocks := c.scheduler.lastBlocks ++ [b] } } where
  memory := h.memory
  keyed := h.keyed
  relevant b' hb' t ht := by
    obtain hb' | hb' := hb'
    · rcases mem_append.mp hb' with hb' | hb'
      · exact h.relevant b' (.inl hb') t ht
      · rw [mem_singleton.mp hb'] at ht
        exact .inl (hrelevant t ht)
    · exact h.relevant b' (.inr hb') t ht

end Stage.Consistent

/-- Storing requests keeps them under their ids. -/
theorem Db.keyedBy_storePendingPegouts (db : Db) (h : db.pendingPegouts.KeyedBy (·.id))
    (reqs : List PegoutRequest) : (db.storePendingPegouts reqs).pendingPegouts.KeyedBy (·.id) := by
  unfold storePendingPegouts
  split
  · exact h
  · exact h.insert _
  · exact h.insertNewAll

section moves
variable {config : Config} {input : Input}

open Stage

/-- No move brings memory and tables apart. -/
theorem stable_consistent : Stable config input Consistent := by
  intro c c' hmove h
  cases hmove with
  | rollBack =>
    exact h.frame rfl rfl id fun b hb =>
      .inl (mem_of_mem_dropLast (hb.mem fun _ _ h => by cases h))
  | untrack =>
    refine h.erase (fun t => lookup_erase_eq ..) (fun t => ?_)
      (fun h => Db.keyedBy_storePendingPegouts (c.db.removeTrackedTx _) h _) fun _ hb => hb
    simp [Stage.untrack, Db.removeTrackedTx, lookup_erase_eq]
  | dropUnconfirmed =>
    refine h.erase (fun t => lookup_erase_eq ..) (fun t => ?_)
      (fun h => Db.keyedBy_storePendingPegouts (c.db.removeTrackedTx _) h _) fun _ hb => hb
    simp [Stage.untrack, Db.removeTrackedTx, lookup_erase_eq]
  | rolledBack => exact h.frame rfl rfl id fun b hb => .inl (hb.mem fun _ _ h => by cases h)
  | follow => exact h.frame rfl rfl id fun b hb => .inl (hb.mem fun _ _ h => by cases h)
  | addBlock =>
    exact h.addBlock fun txid htxid => by simpa using (mem_filter.mp htxid).2
  | popBlock _ hblocks =>
    refine h.frame rfl rfl id fun b hb => ?_
    rcases hb with hb | ⟨_, hb⟩
    · exact .inl (hblocks ▸ mem_cons_of_mem _ hb)
    · cases hb
      exact .inl (hblocks ▸ mem_cons_self)
  | collectInputs hphase =>
    refine h.frame rfl rfl id fun b hb => ?_
    obtain hb | ⟨_, hb⟩ := hb
    · exact .inl hb
    · cases hb
      exact .inr ⟨_, hphase⟩
  | dropParent =>
    exact h.erase (fun t => lookup_erase_eq ..) (fun t => lookup_erase_eq ..) id
      fun _ hb => hb
  | finalizeTx =>
    refine h.erase (fun t => lookup_erase_eq ..) (fun t => ?_) (fun h => ?_) fun _ hb => hb
    · simp [Stage.dropTx, Db.removeTrackedTx, lookup_erase_eq]
    · simpa [Stage.dropTx, Db.removeTrackedTx] using h
  | @finalizeMissing _ _ txid _ _ hmissing =>
    refine h.erase (fun t => ?_) (fun t => lookup_erase_eq ..) id fun _ hb => hb
    by_cases heq : t = txid
    · rw [if_pos heq, heq]
      exact AList.lookup_eq_none.mpr hmissing
    · rw [if_neg heq]
  | finalized => exact h.frame rfl rfl id fun b hb => .inl (hb.mem fun _ _ h => by cases h)
  | track => exact h.track
  | untrackRefused =>
    exact h.erase (fun t => lookup_erase_eq ..) (fun t => lookup_erase_eq ..) id
      fun _ hb => hb
  | storePegouts =>
    exact h.frame rfl (Db.storePendingPegouts_trackedTxs _ _)
      (fun h => Db.keyedBy_storePendingPegouts c.db h _) fun _ hb => hb
  | dropFinalized => exact h.frame rfl rfl FinMap.KeyedBy.eraseAll fun _ hb => hb
  | removePending => exact h.frame rfl rfl FinMap.KeyedBy.eraseAll fun _ hb => hb
  | clearPending => exact h.frame rfl rfl (fun _ => keyedBy_empty) fun _ hb => hb
  | _ => exact h.frame rfl rfl id fun _ hb => hb

end moves

/-! ## Inputs that tracked transactions created -/

/-- The outpoints that are dropped when a block is finalized, now or later. -/
def Stage.Watches (c : Stage) (op : OutPoint) : Prop :=
  op ∈ c.scheduler.txsByInput ∨ (∃ b ∈ c.scheduler.lastBlocks, op ∈ b.relevantInputs) ∨
    (∃ txid row, c.scheduler.txs.lookup txid = some row ∧ op ∈ row.inputs) ∨
    ∃ b inputs, c.phase = .finalizing b inputs ∧ (op ∈ b.relevantInputs ∨ op ∈ inputs)

/-- None of them is an output of a tracked transaction that delivers pegouts.  Finalizing
a block forgets the transactions that created the inputs it spends. -/
def Stage.NoChained (c : Stage) : Prop :=
  ∀ op, c.Watches op → ∀ row, c.scheduler.txs.lookup op.txid = some row → row.pegoutRequests = []

theorem Request.syncs.ne_round2 {request : Request} (h : request.syncs) (psbt : Psbt) :
    request ≠ .getRound2SigningPackage psbt := by
  rintro rfl
  exact h

variable {config : Config} {input : Input} {c' : Stage}

/-- Only round two adds to the memory. -/
theorem Move.lookup_of_lookup (hreq : ∀ psbt, input.request ≠ .getRound2SigningPackage psbt)
    (hmove : Move config input c c') {txid : Txid} {row : Tx}
    (h : c'.scheduler.txs.lookup txid = some row) : c.scheduler.txs.lookup txid = some row := by
  cases hmove with
  | untrack => exact lookup_of_lookup_erase h
  | dropUnconfirmed => exact lookup_of_lookup_erase h
  | dropParent => exact lookup_of_lookup_erase h
  | finalizeTx => exact lookup_of_lookup_erase h
  | untrackRefused => exact lookup_of_lookup_erase h
  | track hreq' => exact absurd hreq' (hreq _)
  | _ => exact h

/-- The session's PSBT does not change while it is finalized. -/
theorem Move.finalizePsbt_eq {sessionId : List UInt8}
    (hreq : input.request = .finalizeSigning sessionId) (hmove : Move config input c c') :
    finalizePsbt config.lib c'.db sessionId = finalizePsbt config.lib c.db sessionId := by
  suffices hsame : c'.db.psbts = c.db.psbts ∧ c'.db.publicKeyPackage = c.db.publicKeyPackage by
    rw [finalizePsbt, finalizePsbt, hsame.1, hsame.2]
  cases hmove with
  | untrack => simp [Stage.untrack, Db.removeTrackedTx]
  | dropUnconfirmed => simp [Stage.untrack, Db.removeTrackedTx]
  | storePegouts => simp
  | finalizeTx => simp [Stage.dropTx, Db.removeTrackedTx]
  | savePsbts _ hne => exact absurd hreq (hne sessionId)
  | _ => exact ⟨rfl, rfl⟩

/-- What is watched after a move of a synchronization was watched before. -/
theorem Move.watches_of_watches (hsync : input.request.syncs) (hmove : Move config input c c')
    {op : OutPoint} (hop : c'.Watches op) : c.Watches op := by
  obtain hop | ⟨b, hb, hop⟩ | ⟨txid, row', hrow', hop⟩ | ⟨b, inputs, hphase, hop⟩ := hop
  · left
    cases hmove with
    | untrack => exact (mem_eraseAll.mp hop).2
    | dropUnconfirmed => exact (mem_eraseAll.mp hop).2
    | untrackRefused => exact (mem_eraseAll.mp hop).2
    | track hreq => rw [hreq] at hsync; exact hsync.elim
    | _ => exact hop
  · cases hmove with
    | rollBack => exact .inr (.inl ⟨b, mem_of_mem_dropLast hb, hop⟩)
    | addBlock =>
      rcases mem_append.mp hb with hb | hb
      · exact .inr (.inl ⟨b, hb, hop⟩)
      · rw [mem_singleton.mp hb] at hop
        obtain ⟨tx, -, hop⟩ := mem_flatMap.mp hop
        exact .inl (by simpa using (mem_filter.mp hop).2)
    | popBlock _ hblocks => exact .inr (.inl ⟨b, hblocks ▸ mem_cons_of_mem _ hb, hop⟩)
    | track hreq => rw [hreq] at hsync; exact hsync.elim
    | _ => exact .inr (.inl ⟨b, hb, hop⟩)
  · exact .inr (.inr (.inl ⟨txid, row', hmove.lookup_of_lookup hsync.ne_round2 hrow', hop⟩))
  · cases hmove with
    | popBlock _ hblocks =>
      cases hphase
      exact .inr (.inl ⟨b, hblocks ▸ mem_cons_self, hop.resolve_right not_mem_nil⟩)
    | collectInputs hphase' =>
      cases hphase
      obtain hop | hop := hop
      · exact .inr (.inr (.inr ⟨_, _, hphase', .inl hop⟩))
      · rcases mem_append.mp (mem_dedup.mp hop) with hop | hop
        · exact .inr (.inr (.inr ⟨_, _, hphase', .inl hop⟩))
        · obtain ⟨txid, -, hop⟩ := mem_flatMap.mp hop
          cases hrow' : c.scheduler.txs.lookup txid with
          | none => simp [hrow'] at hop
          | some row' => exact .inr (.inr (.inl ⟨txid, row', hrow', by simpa [hrow'] using hop⟩))
    | rollBack => cases hphase
    | rolledBack => cases hphase
    | follow => cases hphase
    | finalized => cases hphase
    | _ => exact .inr (.inr (.inr ⟨b, inputs, hphase, hop⟩))

theorem stable_noChained (hsync : input.request.syncs) :
    Stable config input Stage.NoChained := fun _ _ hmove h op hop row hrow =>
  h op (hmove.watches_of_watches hsync hop) row (hmove.lookup_of_lookup hsync.ne_round2 hrow)

/-! ## Runs -/

namespace Stage

variable {server : Server}

/-- At the start of a request no block is half finalized. -/
theorem Consistent.searching {phase : Phase} (h : (server.stage phase).Consistent) :
    (server.stage .searching).Consistent :=
  h.frame rfl rfl id fun _ hb => .inl (hb.mem fun _ _ h => by cases h)

/-- What `PegoutScheduler::new` has in memory. -/
theorem lookup_foldl_trackTx : ∀ {txs : List Tx} {s : Scheduler} {txid : Txid} {tx : Tx},
    (txs.foldl Scheduler.trackTx s).txs.lookup txid = some tx →
      (tx ∈ txs ∧ tx.txid = txid) ∨ s.txs.lookup txid = some tx
  | [], _, _, _, h => .inr h
  | tx' :: txs, s, txid, tx, h => by
    obtain ⟨hmem, hid⟩ | h := lookup_foldl_trackTx (foldl_cons .. ▸ h)
    · exact .inl ⟨mem_cons_of_mem _ hmem, hid⟩
    · simp only [Scheduler.trackTx, lookup_insert_eq] at h
      by_cases heq : txid = tx'.txid
      · rw [if_pos heq] at h
        obtain rfl := Option.some.inj h
        exact .inl ⟨mem_cons_self, heq.symm⟩
      · rw [if_neg heq] at h
        exact .inr h

theorem lastBlocks_foldl_trackTx : ∀ (txs : List Tx) (s : Scheduler),
    (txs.foldl Scheduler.trackTx s).lastBlocks = s.lastBlocks
  | [], _ => rfl
  | tx :: txs, s => lastBlocks_foldl_trackTx txs (s.trackTx tx)

/-- A restart follows the stored tip only. -/
theorem lastBlocks_start (config : Config) (db : Db) :
    ∃ hash, (config.start db).scheduler.lastBlocks = [⟨hash, [], []⟩] := by
  show ∃ hash, (config.loadPegoutScheduler db).lastBlocks = [⟨hash, [], []⟩]
  unfold Config.loadPegoutScheduler
  split <;> exact ⟨_, lastBlocks_foldl_trackTx _ _⟩

/-- A restart loads the rows of the table, or none. -/
theorem consistent_start (config : Config) {db : Db} (hkeyed : db.Keyed) :
    ((config.start db).stage .searching).Consistent := by
  have hmemory : ∀ txid tx, (config.loadPegoutScheduler db).txs.lookup txid = some tx →
      db.trackedTxs.lookup txid = some tx := by
    intro txid tx h
    unfold Config.loadPegoutScheduler at h
    cases htip : db.pegoutMgrTip with
    | none => simp [htip, Scheduler.new] at h
    | some tip =>
      rw [htip] at h
      obtain ⟨hmem, rfl⟩ | h := lookup_foldl_trackTx h
      · obtain ⟨txid', hlookup⟩ := mem_values.mp hmem
        have hid : tx.txid = txid' := hkeyed.tracked txid' tx hlookup
        rwa [hid]
      · cases h
  refine ⟨hmemory, hkeyed, fun b hb txid htxid => ?_⟩
  obtain ⟨hash, hblocks⟩ := lastBlocks_start config db
  obtain hb | ⟨_, hb⟩ := hb
  · have hb : b ∈ (config.start db).scheduler.lastBlocks := hb
    rw [hblocks, mem_singleton] at hb
    subst hb
    cases htxid
  · cases hb

/-- The rule for invariants of the tables: kept by every move, next to consistency and a
condition on the request that the moves keep as well. -/
theorem Consistent.step {config : Config} {input : Input} {side : Stage → Prop} {R : Db → Prop}
    (hstable : Stable config input fun c => c.Consistent ∧ side c ∧ R c.db)
    (hcons : (server.stage .searching).Consistent) (hside : side (server.stage .searching))
    (hR : R server.db) :
    ((config.step server input).2.stage .searching).Consistent ∧
      R (config.step server input).2.db := by
  obtain ⟨server', phase, ⟨hcons, -, hR⟩, ⟨-, hstep⟩ | ⟨-, hstep⟩⟩ :=
    hstable.step ⟨hcons, hside, hR⟩
  · rw [hstep]
    exact ⟨hcons.searching, hR⟩
  · rw [hstep]
    exact ⟨consistent_start config hcons.keyed, hR⟩

/-- Memory and tables agree after every request. -/
theorem Consistent.next {config : Config} (input : Input)
    (hcons : (server.stage .searching).Consistent) :
    ((config.step server input).2.stage .searching).Consistent := by
  obtain ⟨server', phase, hcons, ⟨-, hstep⟩ | ⟨-, hstep⟩⟩ := stable_consistent.step hcons
  · rw [hstep]
    exact hcons.searching
  · rw [hstep]
    exact consistent_start config hcons.keyed

end Stage

end Macbeth
