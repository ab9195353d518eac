import Macbeth.BtcServer.App
import Macbeth.BtcServer.Node
import Macbeth.BtcServer.SyncFork
import Macbeth.Checkpoint.Window

/-!
# What a synchronization reaches (`sync_until`)

A synchronization to a checkpoint is to end with the checkpoint as the last finalized block, and
never to finalize a block above it.  Against a node that holds still on a chain, what it does
is given by the followed blocks that are in that chain: those above them are rolled back,
the rest of the chain is added, and the oldest are finalized as the window overflows, until
the checkpoint is.

When there is nothing to add it returns without a look at the checkpoint, and a checkpoint
below the oldest followed block is never met.  `syncUntil_meets_target_iff` is that nothing
else can go wrong.
-/

namespace Macbeth

open Handler Outcome List Option Outcome

/-! ## Statement -/

section target
variable (finalize : BlockInfo → Handler SyncState SyncError Unit) (btc : BitcoinLib)
  (bitcoind : Bitcoind)

/-- `sync_until` with the finalization of a block left open. -/
def finalizeOldestWith : Handler SyncState SyncError Unit := do
  let s := (← Handler.get).scheduler
  match s.lastBlocks with
  | oldest :: rest =>
    if s.confWindow < s.lastBlocks.length then
      updateScheduler fun s => { s with lastBlocks := rest }
      finalize oldest
    else pure ()
  | [] => pure ()

def processBlocksWith (checkpoint : BlockHash) : List BlockHash → Handler SyncState SyncError Unit
  | [] => pure ()
  | hash :: rest => do
    if (← Handler.get).scheduler.lastFinalized = checkpoint then pure ()
    else
      let _ ← callNode bitcoind (·.blockHeaderInfo hash)
      let block ← callNode bitcoind (·.block hash)
      addBlock btc block
      finalizeOldestWith finalize
      processBlocksWith checkpoint rest

/-- The part of `sync_until` that follows the search for the blocks. -/
def followWith (checkpoint : BlockHash) (cp : BlockHeaderInfo) (hashes : List BlockHash) :
    Handler SyncState SyncError Unit :=
  if hashes.isEmpty then pure ()
  else do
    processBlocksWith finalize btc bitcoind checkpoint hashes
    trackMempool bitcoind cp
    if (← Handler.get).scheduler.lastFinalized = checkpoint then pure ()
    else Handler.fail .checkPointNotReached

def syncUntilWith (fuel : Nat) (checkpoint : BlockHash) : Handler SyncState SyncError Unit := do
  let cp ← callNode bitcoind (·.blockHeaderInfo checkpoint)
  if ← isSyncing bitcoind then Handler.fail .nodeNotSynced
  else
    let hashes ← blocksToSync bitcoind fuel
    followWith finalize btc bitcoind checkpoint cp hashes

end target

section source
variable (btc : BitcoinLib) (lib : SigningLib) (bitcoind : Bitcoind) (checkpoint : BlockHash)

theorem processBlocksWith_finalizeBlock (hashes : List BlockHash) :
    processBlocksWith (finalizeBlock btc lib bitcoind) btc bitcoind checkpoint hashes =
      processBlocks btc lib bitcoind checkpoint hashes := by
  induction hashes with
  | nil => rfl
  | cons hash rest ih =>
    rw [processBlocksWith, processBlocks, ih]
    rfl

/-- With the source's finalization it is `sync_until`. -/
theorem syncUntilWith_finalizeBlock (fuel : Nat) :
    syncUntilWith (finalizeBlock btc lib bitcoind) btc bitcoind fuel checkpoint =
      syncUntil btc lib bitcoind fuel checkpoint := by
  unfold syncUntilWith followWith syncUntil
  simp only [processBlocksWith_finalizeBlock]

end source

/-! ## The loop over the blocks -/

section loop
variable {btc : BitcoinLib} {lib : SigningLib} {bitcoind : Bitcoind}

section keeps
variable {P : Scheduler → Prop}

theorem storeChange_keeps (spk : Option ScriptBuf) (txid : Txid) :
    Preserves (fun s => P s.scheduler) (storeChange spk txid) := by
  refine Triple.get_bind fun s hs => Triple.bind (Triple.lift (fun _ _ _ h => h ▸ hs)
    fun _ h => h ▸ hs) fun tx => ?_
  cases spk with
  | none => exact Triple.pure fun _ h => h
  | some spk => exact Triple.update fun _ h => h

variable (hP : ∀ s txid, P s → P { s with txs := s.txs.erase txid })
include hP

theorem spendInput_keeps (op : OutPoint) : Preserves (fun s => P s.scheduler) (spendInput op) := by
  refine Triple.get_bind fun s hs => ?_
  by_cases hop : op.txid ∈ s.scheduler.txs
  · rw [if_pos hop]
    rintro _ rfl
    exact hP _ _ hs
  · rw [if_neg hop]
    rintro _ rfl
    exact hs

theorem finalizeTx_keeps (txid : Txid) :
    Preserves (fun s => P s.scheduler) (finalizeTx bitcoind txid) := by
  refine Triple.get_bind fun s hs => ?_
  cases s.scheduler.txs.lookup txid with
  | none => exact Triple.update fun _ h => h ▸ hs
  | some tx =>
    rintro _ rfl
    dsimp only
    by_cases hreqs : tx.pegoutRequests.map FinalizedPegout.ofRequest ≠ []
    · rw [if_pos hreqs]
      exact hP _ _ hs
    · rw [if_neg hreqs]
      exact hP _ _ hs

/-- Of the scheduler, finalizing a block changes the tracked transactions and the last finalized
block. -/
theorem finalizeBlock_keeps (block : BlockInfo) :
    Triple (fun s => P s.scheduler) (finalizeBlock btc lib bitcoind block)
      (fun _ s => ∃ old, P old ∧ s.scheduler = { old with lastFinalized := block.hash })
      fun s => P s.scheduler := by
  refine Triple.get_bind fun s hs => Triple.bind (Triple.expect (fun _ _ _ h => h ▸ hs)
    fun _ h => h ▸ hs) fun pk => ?_
  refine Triple.bind (Triple.forM fun txid _ => storeChange_keeps _ txid) fun _ => ?_
  refine Triple.get_bind fun s hs => Triple.bind ((Triple.forM fun op _ =>
    spendInput_keeps hP op).conseq (fun _ h => h ▸ hs) (fun _ _ => id) fun _ => id) fun _ => ?_
  refine Triple.bind (Triple.forM fun txid _ => finalizeTx_keeps hP txid) fun _ => ?_
  refine Triple.get_bind fun s hs => Triple.bind (Triple.lift (fun _ _ _ h => h ▸ hs)
    fun _ h => h ▸ hs) fun _ => ?_
  exact Triple.update fun s h => ⟨s.scheduler, h, rfl⟩

end keeps

/-- A finalized block is the last finalized one, and the window is as it was. -/
theorem finalizeBlock_window {block : BlockInfo} {s s' : SyncState}
    (h : finalizeBlock btc lib bitcoind block s = (.ok (), s')) :
    s'.scheduler.lastFinalized = block.hash ∧
      s'.scheduler.lastBlocks = s.scheduler.lastBlocks ∧
      s'.scheduler.confWindow = s.scheduler.confWindow := by
  obtain ⟨old, ⟨hblocks, hwindow⟩, hs'⟩ := (finalizeBlock_keeps
    (P := fun x => x.lastBlocks = s.scheduler.lastBlocks ∧ x.confWindow = s.scheduler.confWindow)
    (fun _ _ h => h) block).of_run ⟨rfl, rfl⟩ h
  rw [hs']
  exact ⟨rfl, hblocks, hwindow⟩

variable {chain : BitcoinChain btc} {headers : List Header} {checkpoint : BlockHash}
  {cpHeight start next : Nat} {hash : BlockHash} {rest : List BlockHash} {s : SyncState}

/-- Between two blocks of the loop: the followed blocks are those of the chain from `start` up to
the next one. -/
structure Between (chain : BitcoinChain btc) (start next : Nat) (s : SyncState) : Prop where
  segment : Segment chain start s.scheduler.lastBlocks
  length : start + s.scheduler.lastBlocks.length = next
  nonempty : s.scheduler.lastBlocks ≠ []

section oldest
variable {oldest : BlockInfo} {others : List BlockInfo}

/-- The oldest followed block is the one at the start. -/
theorem Between.hash_oldest (h : Between chain start next s)
    (hblocks : s.scheduler.lastBlocks = oldest :: others) :
    chain.hashes[start]? = some oldest.hash :=
  h.segment 0 oldest (by rw [hblocks]; rfl)

/-- Without it the followed blocks start one block higher. -/
theorem Between.pop {s' : SyncState} (h : Between chain start next s)
    (hblocks : s.scheduler.lastBlocks = oldest :: others) (hlt : start + 1 < next)
    (hothers : s'.scheduler.lastBlocks = others) : Between chain (start + 1) next s' := by
  have hlength := h.length
  rw [hblocks, length_cons] at hlength
  refine ⟨fun j b hb => ?_, ?_, ?_⟩
  · rw [hothers] at hb
    rw [Nat.add_right_comm, Nat.add_assoc]
    exact h.segment (j + 1) b (by rwa [hblocks, getElem?_cons_succ])
  · rw [hothers]
    omega
  · rw [hothers]
    rintro rfl
    simp at hlength
    omega

theorem finalizeOldestWith_cons (finalize : BlockInfo → Handler SyncState SyncError Unit)
    (hblocks : s.scheduler.lastBlocks = oldest :: others) : finalizeOldestWith finalize s =
      if s.scheduler.confWindow < others.length + 1 then
        finalize oldest { s with scheduler := { s.scheduler with lastBlocks := others } }
      else (.ok (), s) := by
  simp only [finalizeOldestWith, bind_run, get_run, hblocks, length_cons]
  by_cases hwindow : s.scheduler.confWindow < others.length + 1
  · rw [if_pos hwindow, if_pos hwindow]
    rfl
  · rw [if_neg hwindow, if_neg hwindow]
    rfl

end oldest

/-- A block that continues the followed ones is added to them. -/
theorem Between.addBlock (h : Between chain start next s) {b : Block}
    (hb : chain.blocks[next]? = some b) : ∃ s₁, addBlock btc b s = (.ok (), s₁) ∧
      Between chain start (next + 1) s₁ ∧ SameTarget s.scheduler s₁.scheduler := by
  obtain hnil | ⟨front, last, hblocks⟩ := eq_nil_or_concat s.scheduler.lastBlocks
  · exact absurd hnil h.nonempty
  rw [concat_eq_append] at hblocks
  have hlength := h.length
  rw [hblocks, length_append, length_singleton] at hlength
  have hlast : chain.hashes[start + front.length]? = some last.hash :=
    h.segment front.length last (by simp [hblocks])
  have hprev : b.header.prevBlockhash = last.hash := by
    rw [chain.hashes_eq, getElem?_map, map_eq_some_iff] at hlast
    obtain ⟨header, hheader, hhash⟩ := hlast
    rw [← hhash]
    refine chain.linked.prev_eq hheader ?_
    rw [show start + front.length + 1 = next by omega, getElem?_map, hb]
    rfl
  have hnext : chain.hashes[next]? = some (btc.blockHash b.header) := by
    rw [BitcoinChain.hashes, getElem?_map, hb]
    rfl
  obtain ⟨s₁, info, hrun, hinfo, hadded, hsame⟩ : ∃ s₁ info,
      Macbeth.addBlock btc b s = (.ok (), s₁) ∧ info.hash = btc.blockHash b.header ∧
      s₁.scheduler.lastBlocks = s.scheduler.lastBlocks ++ [info] ∧
      SameTarget s.scheduler s₁.scheduler := by
    simp only [Macbeth.addBlock, bind_run, get_run, hblocks, getLast?_concat, Handler.expect,
      lift_run, Handler.assert, hprev, if_true, updateScheduler, update_run]
    exact ⟨_, ⟨btc.blockHash b.header, relevantTxs btc s.scheduler b,
      relevantInputs btc s.scheduler b⟩, rfl, rfl, rfl, rfl, rfl⟩
  refine ⟨s₁, hrun, ⟨fun j x hx => ?_, ?_, ?_⟩, hsame⟩
  · rw [hadded] at hx
    obtain hlt | heq | hgt := lt_trichotomy j s.scheduler.lastBlocks.length
    · rw [getElem?_append_left hlt] at hx
      exact h.segment j x hx
    · subst heq
      rw [getElem?_concat_length, some.injEq] at hx
      rw [h.length, hnext, ← hx, hinfo]
    · rw [getElem?_eq_none (by simp; omega)] at hx
      cases hx
  · rw [hadded, length_append, length_singleton, ← Nat.add_assoc, h.length]
  · simp [hadded]

/-- One round of the loop up to the finalization. -/
theorem Between.processBlocksWith_cons (hnode : SteadyOn chain bitcoind)
    (h : Between chain start next s) (hne : s.scheduler.lastFinalized ≠ checkpoint)
    (hdrop : chain.hashes.drop next = hash :: rest) :
    ∃ s₁, Between chain start (next + 1) s₁ ∧ SameTarget s.scheduler s₁.scheduler ∧
      ∀ finalize, processBlocksWith finalize btc bitcoind checkpoint (hash :: rest) s =
        (finalizeOldestWith finalize >>= fun _ =>
          processBlocksWith finalize btc bitcoind checkpoint rest) s₁ := by
  have hnext : chain.hashes[next]? = some hash := by
    rw [← head?_drop, hdrop]
    rfl
  obtain ⟨info, -, hheader⟩ := hnode.callNode_header hnext
  obtain ⟨b, hb, rfl⟩ : ∃ b, chain.blocks[next]? = some b ∧ btc.blockHash b.header = hash := by
    simpa [BitcoinChain.hashes] using hnext
  have hcalled : Between chain start next { s with calls := s.calls + 1 + 1 } :=
    ⟨h.segment, h.length, h.nonempty⟩
  obtain ⟨s₁, hadd, hs₁, hsame⟩ := hcalled.addBlock hb
  refine ⟨s₁, hs₁, hsame, fun finalize => ?_⟩
  have hblock : callNode bitcoind (·.block (btc.blockHash b.header))
      { s with calls := s.calls + 1 } = (.ok b, { s with calls := s.calls + 1 + 1 }) := by
    simp only [callNode, hnode.block _ b (List.mem_of_getElem? hb), Outcome.ofExcept]
  rw [processBlocksWith, bind_run, get_run]
  dsimp only
  rw [if_neg hne, bind_run, hheader]
  dsimp only
  rw [bind_run, hblock]
  dsimp only
  rw [bind_run, hadd]

/-- The loop finalizes nothing above the checkpoint: it has been finalized, the oldest followed
block is not above it, or the window holds all blocks up to the tip. -/
structure Spared (chain : BitcoinChain btc) (cpHeight start next : Nat) (s : SyncState) : Prop
    extends Between chain start next s where
  spared : start ≤ cpHeight ∨
    s.scheduler.lastBlocks.length + (chain.blocks.length - next) ≤ s.scheduler.confWindow

theorem BitcoinChain.CollisionFree.not_above (hfree : chain.CollisionFree headers) {i : Nat}
    (hi : chain.hashes[i]? = some hash) (hle : i ≤ cpHeight) : ¬ chain.Above cpHeight hash := by
  rintro ⟨j, hj, hhash⟩
  have := hfree.height_unique hi hhash
  omega

section agree
variable {finalize : BlockInfo → Handler SyncState SyncError Unit}
  (hfinalize : ∀ block, ¬ chain.Above cpHeight block.hash →
    finalize block = finalizeBlock btc lib bitcoind block)
include hfinalize

/-- One block is finalized in the loop: the same for every way to finalize those above the
checkpoint. -/
theorem Spared.finalizeOldest (hfree : chain.CollisionFree headers)
    (hcp : chain.hashes[cpHeight]? = some checkpoint) (h : Spared chain cpHeight start next s)
    (hlt : start + 1 < next) :
    finalizeOldestWith finalize s = finalizeOldestWith (finalizeBlock btc lib bitcoind) s ∧
      ∀ s', finalizeOldestWith (finalizeBlock btc lib bitcoind) s = (.ok (), s') →
        s'.scheduler.lastFinalized = checkpoint ∨
          ∃ start', Spared chain cpHeight start' next s' := by
  have hlength := h.length
  have hspared := h.spared
  cases hblocks : s.scheduler.lastBlocks with
  | nil => exact absurd hblocks h.nonempty
  | cons oldest others =>
    rw [hblocks, length_cons] at hlength hspared
    simp only [finalizeOldestWith_cons _ hblocks]
    by_cases hwindow : s.scheduler.confWindow < others.length + 1
    · rw [if_pos hwindow, if_pos hwindow]
      have hle : start ≤ cpHeight := by omega
      have holdest := h.hash_oldest hblocks
      rw [hfinalize oldest (hfree.not_above holdest hle)]
      refine ⟨rfl, fun s' hs' => ?_⟩
      obtain ⟨hfinalized, hothers, -⟩ := finalizeBlock_window hs'
      -- the checkpoint itself, or a block below it
      by_cases heq : start = cpHeight
      · left
        rw [hfinalized]
        exact some.inj (holdest.symm.trans (heq ▸ hcp))
      · exact .inr ⟨start + 1, h.pop hblocks hlt hothers, .inl (by omega)⟩
    · rw [if_neg hwindow, if_neg hwindow]
      refine ⟨rfl, fun s' hs' => .inr ⟨start, ?_⟩⟩
      cases hs'
      exact h

/-- So does the whole loop. -/
theorem Spared.processBlocks (hnode : SteadyOn chain bitcoind) (hfree : chain.CollisionFree headers)
    (hcp : chain.hashes[cpHeight]? = some checkpoint) : ∀ {hashes : List BlockHash} {next : Nat}
    {s : SyncState}, chain.hashes.drop next = hashes →
    (s.scheduler.lastFinalized = checkpoint ∨ ∃ start, Spared chain cpHeight start next s) →
    processBlocksWith finalize btc bitcoind checkpoint hashes s =
      processBlocksWith (finalizeBlock btc lib bitcoind) btc bitcoind checkpoint hashes s := by
  intro hashes
  induction hashes with
  | nil => intros; rfl
  | cons hash rest ih =>
    intro next s hdrop hs
    by_cases hdone : s.scheduler.lastFinalized = checkpoint
    · simp [processBlocksWith, bind_run, hdone]
    obtain ⟨start, hs⟩ := hs.resolve_left hdone
    obtain ⟨s₁, hs₁, hsame, hstep⟩ := hs.processBlocksWith_cons hnode hdone hdrop
    have hlen : next < chain.blocks.length := by
      have := congrArg List.length hdrop
      simp only [BitcoinChain.hashes, length_drop, length_map, length_cons] at this
      omega
    have hspared : Spared chain cpHeight start (next + 1) s₁ := by
      refine ⟨hs₁, ?_⟩
      have := hs.spared
      have := hs.length
      have := hs₁.length
      rw [hsame.confWindow]
      omega
    have hpos : 0 < s.scheduler.lastBlocks.length := length_pos_iff.mpr hs.nonempty
    obtain ⟨heq, hafter⟩ := hspared.finalizeOldest hfinalize hfree hcp (by
      have := hs.length
      omega)
    have hrest : chain.hashes.drop (next + 1) = rest := by
      rw [← tail_drop, hdrop]
      rfl
    rw [hstep, hstep, bind_run, bind_run, heq]
    rcases hrun : finalizeOldestWith (finalizeBlock btc lib bitcoind) s₁ with ⟨_ | _ | _, s₂⟩
    · exact ih hrest (hafter s₂ hrun)
    · rfl
    · rfl

end agree

/-- When the window overflows while the oldest followed block is above the checkpoint, that
block is finalized. -/
theorem Between.processBlocks_overflow (hnode : SteadyOn chain bitcoind)
    {finalize : BlockInfo → Handler SyncState SyncError Unit} {e : SyncError}
    (hfail : ∀ block, chain.Above cpHeight block.hash → finalize block = fail e)
    (habove : cpHeight < start) : ∀ {hashes : List BlockHash} {next : Nat} {s : SyncState},
    chain.hashes.drop next = hashes → Between chain start next s →
    s.scheduler.lastFinalized ≠ checkpoint →
    s.scheduler.confWindow < s.scheduler.lastBlocks.length + (chain.blocks.length - next) →
    (hashes = [] → s.scheduler.lastBlocks.length ≤ s.scheduler.confWindow) →
    ∃ s', processBlocksWith finalize btc bitcoind checkpoint hashes s = (.err e, s') := by
  intro hashes
  induction hashes with
  | nil =>
    intro next s hdrop _ _ hover hnil
    have hlen : chain.blocks.length ≤ next := by
      simpa [BitcoinChain.hashes] using drop_eq_nil_iff.mp hdrop
    have := hnil rfl
    omega
  | cons hash rest ih =>
    intro next s hdrop hs hne hover _
    obtain ⟨s₁, hs₁, hsame, hstep⟩ := hs.processBlocksWith_cons hnode hne hdrop
    have hrest : chain.hashes.drop (next + 1) = rest := by
      rw [← tail_drop, hdrop]
      rfl
    rw [hstep, bind_run]
    cases hblocks : s₁.scheduler.lastBlocks with
    | nil => exact absurd hblocks hs₁.nonempty
    | cons oldest others =>
      simp only [finalizeOldestWith_cons _ hblocks]
      by_cases hwindow : s₁.scheduler.confWindow < others.length + 1
      · have holdest : chain.Above cpHeight oldest.hash := ⟨start, habove, hs₁.hash_oldest hblocks⟩
        rw [if_pos hwindow, hfail oldest holdest, fail_run]
        exact ⟨_, rfl⟩
      · rw [if_neg hwindow]
        rw [← length_cons, ← hblocks] at hwindow
        have := hs.length
        have := hs₁.length
        have := hsame.confWindow
        exact ih hrest hs₁ (hsame.lastFinalized ▸ hne) (by omega) (by omega)

end loop

/-! ## The whole call -/

section call
variable {btc : BitcoinLib} {lib : SigningLib} {bitcoind : Bitcoind} {chain : BitcoinChain btc}
  {headers : List Header} {checkpoint : BlockHash} {cpHeight fuel : Nat} {s : SyncState}

/-- The node is not syncing at a call and the three after it. -/
structure NotSyncing (chain : BitcoinChain btc) (bitcoind : Bitcoind) (n : Nat) : Prop where
  downloaded : (bitcoind n).initialBlockDownload = .ok false
  recent : ∀ hash tip, chain.hashes.getLast? = some hash →
    (bitcoind 0).blockHeaderInfo hash = .ok tip →
    (bitcoind (n + 3)).now - tip.time.toNat * nanosPerSec ≤ 60 * 60 * nanosPerSec

theorem isSyncing_cases (hnode : SteadyOn chain bitcoind) (s : SyncState) :
    (NotSyncing chain bitcoind s.calls ∧
      isSyncing bitcoind s = (.ok false, { s with calls := s.calls + 4 })) ∨
    (¬ NotSyncing chain bitcoind s.calls ∧ ∀ s', isSyncing bitcoind s ≠ (.ok false, s')) := by
  obtain ⟨hash, hlast, hbest⟩ := hnode.best (s.calls + 1)
  have hi : chain.hashes[chain.hashes.length - 1]? = some hash := by
    rwa [getLast?_eq_getElem?] at hlast
  obtain ⟨tip, htip, -⟩ := hnode.header _ hash hi
  have hiff : NotSyncing chain bitcoind s.calls ↔
      (bitcoind s.calls).initialBlockDownload = .ok false ∧
        (bitcoind (s.calls + 3)).now - tip.time.toNat * nanosPerSec ≤ 60 * 60 * nanosPerSec := by
    constructor
    · exact fun h => ⟨h.downloaded, h.recent hash tip hlast htip⟩
    · refine fun h => ⟨h.1, fun hash' tip' hlast' htip' => ?_⟩
      obtain rfl := some.inj (hlast.symm.trans hlast')
      obtain rfl := Except.ok.inj (htip.symm.trans htip')
      exact h.2
  rw [hiff]
  simp only [isSyncing, bind_run, callNode]
  cases hdownload : (bitcoind s.calls).initialBlockDownload with
  | error e => simp [Outcome.ofExcept]
  | ok downloading =>
    cases downloading with
    | true => simp [Outcome.ofExcept]
    | false =>
      by_cases hrecent : 60 * 60 * nanosPerSec <
          (bitcoind (s.calls + 3)).now - tip.time.toNat * nanosPerSec
      · simp [Outcome.ofExcept, bind_run, callNode, hbest, hnode.steady, htip, tryNode, hrecent]
        omega
      · simp [Outcome.ofExcept, bind_run, callNode, hbest, hnode.steady, htip, tryNode, hrecent,
          not_lt.mp hrecent]

/-- The search for the blocks either comes to its end, or the call fails there. -/
theorem syncUntilWith_cases (hnode : SteadyOn chain bitcoind) (hfuel : chain.blocks.length ≤ fuel)
    (hcp : chain.hashes[cpHeight]? = some checkpoint) (s : SyncState) :
    (∃ kept dropped height cp s₁, NotSyncing chain bitcoind (s.calls + 1) ∧
      Fork chain s.scheduler kept dropped height ∧ Removable bitcoind s.scheduler dropped ∧
      s₁.scheduler.lastBlocks = kept ∧ SameTarget s.scheduler s₁.scheduler ∧
      (dropped = [] → s₁.SameTables s) ∧ (bitcoind 0).blockHeaderInfo checkpoint = .ok cp ∧
      ∀ finalize, syncUntilWith finalize btc bitcoind fuel checkpoint s =
        followWith finalize btc bitcoind checkpoint cp (chain.hashes.drop (height + 1)) s₁) ∨
    (∃ r, (∀ finalize, syncUntilWith finalize btc bitcoind fuel checkpoint s = r) ∧
      (∀ s', r ≠ (.ok (), s')) ∧ (NotSyncing chain bitcoind (s.calls + 1) →
        ∀ kept dropped height, Fork chain s.scheduler kept dropped height →
          ¬ Removable bitcoind s.scheduler dropped)) := by
  obtain ⟨cp, hanswer, -⟩ := hnode.header _ _ hcp
  have hheader (s : SyncState) : callNode bitcoind (·.blockHeaderInfo checkpoint) s =
      (.ok cp, { s with calls := s.calls + 1 }) := by
    simp only [callNode, hnode.steady, hanswer, Outcome.ofExcept]
  simp only [syncUntilWith, bind_run (callNode _ _), hheader]
  obtain ⟨hsynced, hrun⟩ | ⟨hsyncing, hrun⟩ :=
    isSyncing_cases hnode { s with calls := s.calls + 1 }
  · simp only [bind_run (isSyncing _), hrun, Bool.false_eq_true, if_false]
    obtain ⟨kept, dropped, height, s₁, hblocks, h, hr, hkept, hsame, htables⟩ | ⟨hblocks, hnone⟩ :=
      blocksToSync_cases hnode hfuel { s with calls := s.calls + 1 + 4 }
    · refine .inl ⟨kept, dropped, height, cp, s₁, hsynced, h, hr, hkept, hsame, fun hnil =>
        ⟨(htables hnil).db, (htables hnil).scheduler⟩, hanswer, fun finalize => ?_⟩
      rw [bind_run, hblocks]
    · have hstop := fun finalize => bind_of_not_ok hblocks
        (followWith finalize btc bitcoind checkpoint cp) fun _ => pure ()
      exact .inr ⟨_, fun finalize => (hstop finalize).1, (hstop fun _ => pure ()).1 ▸
        (hstop fun _ => pure ()).2 (), fun _ => hnone⟩
  · rcases h : isSyncing bitcoind { s with calls := s.calls + 1 } with ⟨b | e | _, s₁⟩
    · cases b with
      | false => exact absurd h (hrun s₁)
      | true =>
        simp only [bind_run (isSyncing _), h, if_true, fail_run]
        exact .inr ⟨_, fun _ => rfl, by simp, fun h => absurd h hsyncing⟩
    · simp only [bind_run (isSyncing _), h]
      exact .inr ⟨_, fun _ => rfl, by simp, fun h => absurd h hsyncing⟩
    · simp only [bind_run (isSyncing _), h]
      exact .inr ⟨_, fun _ => rfl, by simp, fun h => absurd h hsyncing⟩

variable {finalize : BlockInfo → Handler SyncState SyncError Unit} {cp : BlockHeaderInfo}

/-- A call with blocks to add returns only when the checkpoint is finalized. -/
theorem followWith_reached {hashes : List BlockHash} {s' : SyncState} (hne : hashes ≠ [])
    (h : followWith finalize btc bitcoind checkpoint cp hashes s = (.ok (), s')) :
    s'.scheduler.lastFinalized = checkpoint := by
  rw [followWith, if_neg (by simpa using hne)] at h
  obtain ⟨_, s₁, -, h⟩ := Handler.bind_eq_ok.mp h
  obtain ⟨_, s₂, -, h⟩ := Handler.bind_eq_ok.mp h
  rw [get_bind_eq_ok] at h
  by_cases hcp : s₂.scheduler.lastFinalized = checkpoint
  · rw [if_pos hcp] at h
    cases h
    exact hcp
  · rw [if_neg hcp] at h
    cases h

/-- The call keeps its promise: when it returns the checkpoint is the last finalized block, and
what finalizing a block above the checkpoint would do is of no account. -/
structure MeetsTarget (lib : SigningLib) (bitcoind : Bitcoind) (chain : BitcoinChain btc)
    (fuel : Nat) (checkpoint : BlockHash) (cpHeight : Nat) (s : SyncState) : Prop where
  reached : ∀ s', syncUntil btc lib bitcoind fuel checkpoint s = (.ok (), s') →
    s'.scheduler.lastFinalized = checkpoint
  spared : ∀ finalize : BlockInfo → Handler SyncState SyncError Unit,
    (∀ block, ¬ chain.Above cpHeight block.hash →
      finalize block = finalizeBlock btc lib bitcoind block) →
    syncUntilWith finalize btc bitcoind fuel checkpoint s =
      syncUntil btc lib bitcoind fuel checkpoint s

theorem MeetsTarget.lastFinalized_eq
    (h : MeetsTarget lib bitcoind chain fuel checkpoint cpHeight s)
    (hok : (syncUntil btc lib bitcoind fuel checkpoint s).1 = .ok ()) :
    (syncUntil btc lib bitcoind fuel checkpoint s).2.scheduler.lastFinalized = checkpoint :=
  h.reached _ (Prod.ext hok rfl)

/-- From the fork there are blocks to add, and adding them either starts from a block that is
not above the checkpoint or leaves room in the window. -/
def HasRoom (chain : BitcoinChain btc) (checkpoint : BlockHash) (cpHeight : Nat) (s : Scheduler)
    (kept : List BlockInfo) (height : Nat) : Prop :=
  s.lastFinalized = checkpoint ∨ (height + 1 < chain.blocks.length ∧
    (height + 1 ≤ cpHeight + kept.length ∨
      kept.length + (chain.blocks.length - (height + 1)) ≤ s.confWindow))

/-- What follows the search when there is room. -/
theorem HasRoom.followWith {kept dropped : List BlockInfo} {height : Nat} {s₁ : SyncState}
    (hnode : SteadyOn chain bitcoind) (hfollow : s.scheduler.Follows btc headers)
    (hfree : chain.CollisionFree headers) (hcp : chain.hashes[cpHeight]? = some checkpoint)
    (hroom : HasRoom chain checkpoint cpHeight s.scheduler kept height)
    (hfork : Fork chain s.scheduler kept dropped height) (hkept : s₁.scheduler.lastBlocks = kept)
    (hsame : SameTarget s.scheduler s₁.scheduler)
    (hfinalize : ∀ block, ¬ chain.Above cpHeight block.hash →
      finalize block = finalizeBlock btc lib bitcoind block) :
    followWith finalize btc bitcoind checkpoint cp (chain.hashes.drop (height + 1)) s₁ =
      followWith (finalizeBlock btc lib bitcoind) btc bitcoind checkpoint cp
        (chain.hashes.drop (height + 1)) s₁ := by
  obtain ⟨hle, hsegment⟩ := hfork.segment hfollow hfree
  have hspared : s₁.scheduler.lastFinalized = checkpoint ∨
      ∃ start, Spared chain cpHeight start (height + 1) s₁ := by
    rw [hsame.lastFinalized]
    refine hroom.imp_right fun hroom => ⟨height + 1 - kept.length, ⟨?_, ?_, ?_⟩, ?_⟩
    · rwa [hkept]
    · rw [hkept]
      omega
    · rw [hkept]
      exact hfork.kept_ne_nil
    · rw [hkept, hsame.confWindow]
      omega
  unfold Macbeth.followWith
  split
  · rfl
  · exact EqOn.bind_left (P := fun s => s = s₁) (fun s hs => hs ▸
      Spared.processBlocks hfinalize hnode hfree hcp rfl hspared) _ s₁ rfl

theorem followWith_nil (finalize : BlockInfo → Handler SyncState SyncError Unit)
    (cp : BlockHeaderInfo) {hashes : List BlockHash} (hnil : hashes = []) :
    followWith finalize btc bitcoind checkpoint cp hashes = pure () := by
  rw [followWith, hnil]
  rfl

/-- What follows the search when the window overflows above the checkpoint. -/
theorem followWith_overflow {kept dropped : List BlockInfo} {height : Nat} {s₁ : SyncState}
    (hnode : SteadyOn chain bitcoind) (hfollow : s.scheduler.Follows btc headers)
    (hfree : chain.CollisionFree headers) (hne : chain.hashes.drop (height + 1) ≠ [])
    (hroom : ¬ HasRoom chain checkpoint cpHeight s.scheduler kept height)
    (hfork : Fork chain s.scheduler kept dropped height) (hkept : s₁.scheduler.lastBlocks = kept)
    (hsame : SameTarget s.scheduler s₁.scheduler) {e : SyncError}
    (hfail : ∀ block, chain.Above cpHeight block.hash → finalize block = fail e) :
    ∃ s', followWith finalize btc bitcoind checkpoint cp (chain.hashes.drop (height + 1)) s₁ =
      (.err e, s') := by
  obtain ⟨hle, hsegment⟩ := hfork.segment hfollow hfree
  have hlt : height + 1 < chain.blocks.length := by
    simpa [BitcoinChain.hashes] using hne
  simp only [HasRoom, hlt, true_and, not_or, not_le] at hroom
  obtain ⟨hfinalized, habove, hover⟩ := hroom
  have hbetween : Between chain (height + 1 - kept.length) (height + 1) s₁ := by
    refine ⟨by rwa [hkept], by rw [hkept]; omega, ?_⟩
    rw [hkept]
    exact hfork.kept_ne_nil
  obtain ⟨s', hs'⟩ := hbetween.processBlocks_overflow hnode hfail (by omega) rfl
    (hsame.lastFinalized ▸ hfinalized) (by rwa [hkept, hsame.confWindow]) fun h => absurd h hne
  refine ⟨s', ?_⟩
  rw [followWith, if_neg (by simpa using hne), bind_run, hs']

open Classical in
/-- Finalization that fails above the checkpoint. -/
noncomputable def failAbove (lib : SigningLib) (bitcoind : Bitcoind) (chain : BitcoinChain btc)
    (cpHeight : Nat) (e : SyncError) (block : BlockInfo) : Handler SyncState SyncError Unit :=
  if chain.Above cpHeight block.hash then fail e else finalizeBlock btc lib bitcoind block

/-- The call keeps its promise in exactly these cases: it fails before it adds a block, or
there is room from the fork on. -/
theorem syncUntil_meets_target_iff (hnode : SteadyOn chain bitcoind)
    (hfollow : s.scheduler.Follows btc headers) (hfree : chain.CollisionFree headers)
    (hfuel : chain.blocks.length ≤ fuel) (hcp : chain.hashes[cpHeight]? = some checkpoint) :
    MeetsTarget lib bitcoind chain fuel checkpoint cpHeight s ↔
      (NotSyncing chain bitcoind (s.calls + 1) →
        ∀ kept dropped height, Fork chain s.scheduler kept dropped height →
          Removable bitcoind s.scheduler dropped →
          HasRoom chain checkpoint cpHeight s.scheduler kept height) := by
  obtain ⟨kept, dropped, height, cp, s₁, hsynced, hfork, hremove, hkept, hsame, -, -, hrun⟩ |
    ⟨r, hrun, hfail, hnone⟩ := syncUntilWith_cases hnode hfuel hcp s
  · constructor
    · intro hmeets _ kept' dropped' height' hfork' _
      obtain ⟨rfl, rfl, rfl⟩ := hfork.unique hfree hfork'
      by_contra hroom
      by_cases hnil : chain.hashes.drop (height + 1) = []
      · -- nothing to add: the call returns
        have hok : syncUntil btc lib bitcoind fuel checkpoint s = (.ok (), s₁) := by
          rw [← syncUntilWith_finalizeBlock, hrun, followWith_nil _ cp hnil]
          rfl
        exact hroom (.inl (hsame.lastFinalized ▸ hmeets.reached s₁ hok))
      · -- two ways to fail above the checkpoint are told apart
        have hcall e : ∃ s', syncUntil btc lib bitcoind fuel checkpoint s = (.err e, s') := by
          rw [← hmeets.spared (failAbove lib bitcoind chain cpHeight e) fun _ h => if_neg h, hrun]
          exact followWith_overflow hnode hfollow hfree hnil hroom hfork hkept hsame
            fun _ h => if_pos h
        obtain ⟨s', hs'⟩ := hcall .nodeNotSynced
        obtain ⟨s'', hs''⟩ := hcall .deepReorg
        rw [hs'] at hs''
        cases hs''
    · intro hroom
      have hroom := hroom hsynced kept dropped height hfork hremove
      constructor
      · intro s' hs'
        rw [← syncUntilWith_finalizeBlock, hrun] at hs'
        by_cases hnil : chain.hashes.drop (height + 1) = []
        · have hdone := hroom.resolve_right fun h => by
            have : chain.blocks.length ≤ height + 1 := by simpa [BitcoinChain.hashes] using hnil
            omega
          rw [followWith_nil _ cp hnil] at hs'
          cases hs'
          exact hsame.lastFinalized.trans hdone
        · exact followWith_reached hnil hs'
      · intro finalize hfinalize
        rw [← syncUntilWith_finalizeBlock, hrun, hrun]
        exact hroom.followWith hnode hfollow hfree hcp hfork hkept hsame hfinalize
  · constructor
    · exact fun _ hsynced kept dropped height h hr =>
        absurd hr (hnone hsynced kept dropped height h)
    · intro _
      rw [← hrun (finalizeBlock btc lib bitcoind), syncUntilWith_finalizeBlock] at hfail
      refine ⟨fun s' hs' => absurd hs' (hfail s'), fun finalize _ => ?_⟩
      rw [← syncUntilWith_finalizeBlock, hrun, hrun]

end call

/-! ## A window of one block -/

/-- The chain up to a height. -/
def BitcoinChain.upTo {btc : BitcoinLib} (chain : BitcoinChain btc) (height : Nat) :
    BitcoinChain btc where
  blocks := chain.blocks.take (height + 1)
  linked := by
    rw [List.map_take]
    exact chain.linked.take _
  genesis g hg := chain.genesis g (by rwa [List.map_take, List.head?_take, if_neg (by simp)] at hg)

/-- A sample node on a chain is steady on it. -/
theorem Node.steadyOn {btc : BitcoinLib} {chain : BitcoinChain btc} {node : Node}
    (hbase : node.base = 0) (hchain : node.chain = chain.blocks) (hne : chain.blocks ≠ [])
    (hfree : chain.CollisionFree []) : SteadyOn chain (node.steady btc) := by
  have hhash : ∀ {i : Nat} {b : Block}, chain.blocks[i]? = some b →
      chain.hashes[i]? = some (btc.blockHash b.header) := by
    intro i b hb
    rw [BitcoinChain.hashes, getElem?_map, hb]
    rfl
  -- a hash of the chain is found where it stands
  have hfind : ∀ {i : Nat} {b : Block}, chain.blocks[i]? = some b →
      node.find btc (btc.blockHash b.header) = some (b, i) := by
    intro i b hb
    obtain ⟨hi, rfl⟩ := List.getElem?_eq_some_iff.mp hb
    rw [Node.find, hchain, find?_eq_some_iff_getElem]
    refine ⟨by simp, i, by simpa using hi, by simp, fun j hj => ?_⟩
    have hj' : chain.blocks[j]? = some chain.blocks[j] := getElem?_eq_getElem (by omega)
    simp only [getElem_zipIdx, Bool.not_eq_true', decide_eq_false_iff_not]
    intro heq
    exact absurd (hfree.height_unique (hhash hj') (heq ▸ hhash hb)) (by omega)
  have hmiss : ∀ {hash : BlockHash}, hash ∉ chain.hashes → node.find btc hash = none := by
    intro hash hmem
    rw [Node.find, hchain, find?_eq_none]
    intro x hx
    have hmem' := mem_map_of_mem (f := fun b => btc.blockHash b.header)
      (fst_mem_of_mem_zipIdx hx)
    simp only [decide_eq_true_eq]
    rintro rfl
    exact hmem hmem'
  refine ⟨hne, fun _ => rfl, fun _ => ?_, fun i hash hi => ?_, fun _ b hb => ?_,
    fun hash info hmem hinfo => ?_⟩
  · obtain ⟨b, hb⟩ := ne_none_iff_exists'.mp (mt getLast?_eq_none_iff.mp hne)
    refine ⟨btc.blockHash b.header, ?_, ?_⟩
    · rw [BitcoinChain.hashes, getLast?_map, hb]
      rfl
    · simp only [Node.steady, Node.view, hchain, hb]
  · obtain ⟨b, hb, rfl⟩ : ∃ b, chain.blocks[i]? = some b ∧ btc.blockHash b.header = hash := by
      simpa [BitcoinChain.hashes] using hi
    obtain ⟨hlen, -⟩ := List.getElem?_eq_some_iff.mp hb
    refine ⟨⟨btc.blockHash b.header, i, chain.blocks.length - i, some b.header.prevBlockhash,
      b.header.time⟩, ?_, hi, rfl, by simpa using hlen, fun j hj => ?_⟩
    · simp [Node.steady, Node.view, Node.headerInfo, hfind hb, hbase, hchain]
    · subst hj
      have hj : chain.blocks[j]? = some chain.blocks[j] := getElem?_eq_getElem (by omega)
      refine ⟨_, hhash hj, congrArg some (chain.linked.prev_eq (n := j) ?_ ?_)⟩
      · rw [getElem?_map, hj]
        rfl
      · rw [getElem?_map, hb]
        rfl
  · obtain ⟨i, hi⟩ := mem_iff_getElem?.mp hb
    simp [Node.steady, Node.view, Node.block, hfind hi]
  · simp only [Node.steady, Node.view, Node.headerInfo, hmiss hmem] at hinfo
    cases hstale : node.findStale btc hash with
    | none =>
      rw [hstale] at hinfo
      cases hinfo
    | some x =>
      rw [hstale] at hinfo
      cases hinfo
      show (-1 : Int) ≤ 0
      decide

/-- The node at a tip of the short chain. -/
def shortNode (tip : Nat) : Node :=
  ⟨0, (shortChain.upTo tip).blocks, [], [], [], 1700001810 * nanosPerSec⟩

theorem shortChain_collisionFree (tip : Nat) {headers : List Header}
    (hheaders : ∀ x ∈ headers, x ∈ shortChain.headers) :
    (shortChain.upTo tip).CollisionFree headers := by
  have hfree : ∀ x ∈ shortChain.headers, ∀ y ∈ shortChain.headers,
      chainBitcoin.blockHash x = chainBitcoin.blockHash y → x = y := by decide
  have hmem : ∀ x ∈ (shortChain.upTo tip).blocks.map Block.header, x ∈ shortChain.headers := by
    intro x hx
    rw [BitcoinChain.upTo, map_take] at hx
    exact mem_of_mem_take hx
  intro x hx y hy
  refine hfree x ?_ y (hmem y hy)
  obtain hx | hx := mem_append.mp hx
  · exact hmem x hx
  · exact hheaders x hx

theorem shortNode_steadyOn (tip : Nat) :
    SteadyOn (shortChain.upTo tip) ((shortNode tip).steady chainBitcoin) :=
  Node.steadyOn rfl rfl (by simp [BitcoinChain.upTo, shortChain])
    (shortChain_collisionFree tip (by simp))

/-- A scheduler on the first block. -/
def unsynced : SyncState := ⟨freshDb, .new 1 [] genesisHash, 0⟩

/-- It has followed the short chain up to the third block, with the second as the checkpoint. -/
def synced : SyncState :=
  (syncUntil chainBitcoin fixedLengthSigning ((shortNode 2).steady chainBitcoin) 3 block1Hash
    unsynced).2

/-- From the first block it gets to the checkpoint. -/
theorem second_block_reached : synced.scheduler.lastFinalized = block1Hash ∧
    MeetsTarget fixedLengthSigning ((shortNode 2).steady chainBitcoin) (shortChain.upTo 2) 3
      block1Hash 1 unsynced := by
  have hfollow : unsynced.scheduler.Follows chainBitcoin [genesis.header] :=
    ⟨by decide, isChain_singleton _⟩
  have hfree : (shortChain.upTo 2).CollisionFree [genesis.header] :=
    shortChain_collisionFree 2 (by decide)
  refine ⟨by decide +kernel, (syncUntil_meets_target_iff (shortNode_steadyOn 2) hfollow hfree
    (by decide) (by decide)).mpr fun _ kept dropped height hfork _ => ?_⟩
  -- the only followed block is the first of the chain
  obtain ⟨b, hb, hheight⟩ := hfork.last
  have hlast : b.hash = genesisHash ∧ kept.length = 1 := by
    have hsplit : [⟨genesisHash, [], []⟩] = kept ++ dropped := hfork.split
    cases kept with
    | nil => cases hb
    | cons x rest =>
      obtain ⟨rfl, hrest⟩ := cons.inj hsplit
      obtain ⟨rfl, rfl⟩ := append_eq_nil_iff.mp hrest.symm
      obtain rfl := some.inj hb
      exact ⟨rfl, rfl⟩
  have hzero : (shortChain.upTo 2).hashes[0]? = some genesisHash := by decide
  obtain rfl : height = 0 := hfree.height_unique hheight (hlast.1 ▸ hzero)
  exact .inr ⟨by decide, .inl (by omega)⟩

/-- Finalization that refuses the third block. -/
def refuseThird (block : BlockInfo) : Handler SyncState SyncError Unit :=
  if block.hash = block2Hash then fail .deepReorg
  else finalizeBlock chainBitcoin fixedLengthSigning ((shortNode 3).steady chainBitcoin) block

/-- Nothing is new, and the call returns with the checkpoint not finalized.  With an older
checkpoint, a block above it is finalized. -/
theorem third_block_missed :
    ((shortChain.upTo 2).hashes[2]? = some block2Hash ∧
      (syncUntil chainBitcoin fixedLengthSigning ((shortNode 2).steady chainBitcoin) 3 block2Hash
        { synced with calls := 0 }).1 = .ok () ∧
      ¬ MeetsTarget fixedLengthSigning ((shortNode 2).steady chainBitcoin) (shortChain.upTo 2) 3
        block2Hash 2 { synced with calls := 0 }) ∧
    ((shortChain.upTo 3).hashes[0]? = some genesisHash ∧
      (syncUntil chainBitcoin fixedLengthSigning ((shortNode 3).steady chainBitcoin) 4 genesisHash
        { synced with calls := 0 }).2.scheduler.lastFinalized = block2Hash ∧
      ¬ MeetsTarget fixedLengthSigning ((shortNode 3).steady chainBitcoin) (shortChain.upTo 3) 4
        genesisHash 0 { synced with calls := 0 }) := by
  refine ⟨⟨by decide, by decide +kernel, fun h => ?_⟩, by decide, by decide +kernel, fun h => ?_⟩
  · have hok : (syncUntil chainBitcoin fixedLengthSigning ((shortNode 2).steady chainBitcoin) 3
        block2Hash { synced with calls := 0 }).1 = .ok () := by decide +kernel
    have hmissed : (syncUntil chainBitcoin fixedLengthSigning ((shortNode 2).steady chainBitcoin) 3
        block2Hash { synced with calls := 0 }).2.scheduler.lastFinalized ≠ block2Hash := by
      decide +kernel
    exact hmissed (h.lastFinalized_eq hok)
  · have habove : (shortChain.upTo 3).Above 0 block2Hash := ⟨2, by decide, by decide⟩
    have hagree : ∀ block : BlockInfo, ¬ (shortChain.upTo 3).Above 0 block.hash →
        refuseThird block = finalizeBlock chainBitcoin fixedLengthSigning
          ((shortNode 3).steady chainBitcoin) block := by
      intro block hblock
      have hne : block.hash ≠ block2Hash := by
        intro heq
        rw [heq] at hblock
        exact hblock habove
      rw [refuseThird, if_neg hne]
    have hsame := h.spared refuseThird hagree
    have hrefused : (syncUntilWith refuseThird chainBitcoin ((shortNode 3).steady chainBitcoin) 4
        genesisHash { synced with calls := 0 }).1 ≠
      (syncUntil chainBitcoin fixedLengthSigning ((shortNode 3).steady chainBitcoin) 4 genesisHash
        { synced with calls := 0 }).1 := by decide +kernel
    exact hrefused (congrArg Prod.fst hsame)

end Macbeth
