import Macbeth.Checkpoint.Reorg

/-!
# Syncs from a wrong position

A sync pushes the blocks after the height it believes to have synced.  What it does when the
checkpoints end somewhere else is said for any position: it finds nothing to do, or its first
block fits on the newest checkpoint, or that block is stale.

`new` leads to a wrong position.  It takes the height of the newest checkpoint and adds the
lowest depth, which is one more than the tip the checkpoints were synced at: a depth counts
the block itself (`resume_seamless_iff`).
-/

namespace Macbeth

open BitcoinCheckpointsChain CheckpointSynchronizer List

section
variable {btc : BitcoinLib} {chain : BitcoinChain btc} {rpc : Nat → CheckpointRpc}
variable {c : BitcoinCheckpointsChain} {s : CheckpointSynchronizer} {tip seen T : Nat}

/-! ## One sync -/

/-- The checkpoints end at a tip, and the synchronizer believes to have synced another. -/
structure Placed (chain : BitcoinChain btc) (tip seen : Nat) (s : CheckpointSynchronizer) : Prop where
  synced : SyncedAt chain tip s.checkpointsChain
  length_eq : s.checkpointsChain.checkpoints.length =
    min (tip + 1 - s.checkpointsChain.window.start) s.checkpointsChain.window.size
  start_le_tip : s.checkpointsChain.window.start ≤ tip
  start_le_seen : s.checkpointsChain.window.start ≤ seen
  lastSyncedHeight : s.lastSyncedHeight.getD 0 = seen

theorem Follows.placed (h : Follows chain tip s) (hne : s.checkpointsChain.checkpoints ≠ []) :
    Placed chain tip tip s := by
  have hlength := h.length_eq
  have hpos := length_pos_iff.mpr hne
  exact ⟨h.synced, hlength, by omega, by omega, h.lastSyncedHeight⟩

theorem Placed.follows (h : Placed chain tip tip s) : Follows chain tip s :=
  ⟨h.synced, h.length_eq, h.lastSyncedHeight⟩

theorem Placed.length_pos (h : Placed chain tip seen s) :
    0 < s.checkpointsChain.checkpoints.length := by
  have hlength := h.length_eq
  have hstart := h.start_le_tip
  have hsize : 0 < s.checkpointsChain.window.size := Nat.succ_pos _
  omega

/-- The newest checkpoint has the lowest depth. -/
theorem Placed.newest (h : Placed chain tip seen s) :
    ∃ newest height, s.checkpointsChain.checkpoints.getLast? = some newest ∧
      height + s.checkpointsChain.window.start = tip + 1 ∧
      chain.checkpoint height = some newest := by
  have hpos : 0 < s.checkpointsChain.checkpoints.reverse.length := by
    rw [length_reverse]
    exact h.length_pos
  obtain ⟨height, hheight, hat⟩ := h.synced 0 _ (getElem?_eq_getElem hpos)
  refine ⟨_, height, ?_, hheight, hat⟩
  rw [← head?_reverse, head?_eq_getElem?]
  exact getElem?_eq_getElem hpos

/-- The block of a height fits on the newest checkpoint only if it is the next one. -/
theorem Placed.fits_iff (h : Placed chain tip seen s)
    (hfree : Set.InjOn btc.blockHash {h | h ∈ chain.headers}) {height : Nat}
    {checkpoint : BitcoinCheckpoint} (hat : chain.checkpoint (height + 1) = some checkpoint) :
    s.checkpointsChain.Fits checkpoint ↔ height + s.checkpointsChain.window.start = tip + 1 := by
  obtain ⟨newest, below, hnewest, hbelow, hold⟩ := h.newest
  constructor
  · intro hfits
    have hprev := hfits newest hnewest
    -- the block below is in the chain, with the hash of the newest checkpoint
    obtain ⟨header, hheader, rfl⟩ := BitcoinChain.checkpoint_eq_some.mp hat
    obtain ⟨hlt, -⟩ := List.getElem?_eq_some_iff.mp hheader
    have hbefore : chain.headers[height]? = some chain.headers[height] :=
      getElem?_eq_getElem (by omega)
    have hlink : header.prevBlockhash = btc.blockHash chain.headers[height] :=
      chain.linked.prev_eq hbefore hheader
    have hsame : (BitcoinCheckpoint.new btc chain.headers[height] height).hash = newest.hash :=
      hlink.symm.trans hprev
    obtain rfl := BitcoinChain.height_unique hfree
      (BitcoinChain.checkpoint_eq_some.mpr ⟨_, hbefore, rfl⟩) hold hsame
    exact hbelow
  · intro hnext
    exact h.synced.fits (by omega) hat

/-- What a sync makes of its loop. -/
def endSync (T : Nat) (s : CheckpointSynchronizer)
    (loop : Except BitcoinCheckpointError (List SyncedCheckpointInfo) × BitcoinCheckpointsChain) :
    Except BitcoinCheckpointError (List SyncedCheckpointInfo) × CheckpointSynchronizer :=
  (loop.1, ⟨loop.2, if loop.1.isOk then some T else s.lastSyncedHeight⟩)

/-- The heights a sync pushes: up to the tip, from the block after the one it believes to have
synced or as many as the window takes. -/
theorem Placed.syncNewBlocks_eq (h : Placed chain tip seen s)
    (hcount : (rpc 0).getBlockCount = .ok T) (hbehind : seen < T) :
    ∃ blocks, 0 < blocks ∧ T - blocks = max seen (T - s.checkpointsChain.window.size) ∧
      blocks ≤ T ∧ syncNewBlocks btc rpc s = endSync T s (pushHeights btc rpc 1
        (List.range' (T - blocks + 2 - s.checkpointsChain.window.start) blocks)
        s.checkpointsChain) := by
  have hseen := h.start_le_seen
  have hpos := s.checkpointsChain.window.start_pos
  have hsize : 0 < s.checkpointsChain.window.size := Nat.succ_pos _
  unfold syncNewBlocks
  rw [hcount, h.lastSyncedHeight]
  dsimp only [mapRpcError, Except.mapError, lowestConfirmationDepth, sizeLimit]
  rw [if_neg (by omega), if_neg (by omega), if_neg (by omega)]
  generalize hneed : T + 1 - s.checkpointsChain.window.start -
    (seen + 1 - s.checkpointsChain.window.start) = need
  generalize hblocks : min need s.checkpointsChain.window.size = blocks
  have hfrom : T - (s.checkpointsChain.window.start - 1) - (blocks - 1) =
      T - blocks + 2 - s.checkpointsChain.window.start := by omega
  have hheights : T - (s.checkpointsChain.window.start - 1) + 1 -
      (T - blocks + 2 - s.checkpointsChain.window.start) = blocks := by omega
  refine ⟨blocks, by omega, by omega, by omega, ?_⟩
  rw [hfrom, hheights]
  cases pushHeights btc rpc 1 (range' (T - blocks + 2 - s.checkpointsChain.window.start)
    blocks) s.checkpointsChain with
  | mk result chain => cases result <;> rfl

/-- A sync that believes to be at the tip does nothing. -/
theorem Placed.syncNewBlocks_idle (h : Placed chain tip seen s)
    (hcount : (rpc 0).getBlockCount = .ok T) (hdone : T ≤ seen) :
    syncNewBlocks btc rpc s = (.ok [], s) := by
  unfold syncNewBlocks
  rw [hcount, h.lastSyncedHeight]
  exact if_pos hdone

/-- A sync that starts at the block after the newest checkpoint follows the node. -/
theorem Placed.syncNewBlocks_next (h : Placed chain tip seen s) (hrpc : AnswersFrom chain T rpc)
    (hbehind : seen < T) (hnext : max seen (T - s.checkpointsChain.window.size) = tip) :
    ∃ synced s', syncNewBlocks btc rpc s = (.ok synced, s') ∧ Placed chain T T s' ∧
      s'.checkpointsChain.window = s.checkpointsChain.window ∧
      s.checkpointsChain.checkpoints.length ≤ s'.checkpointsChain.checkpoints.length := by
  have hlength := h.length_eq
  have hmature := h.start_le_tip
  obtain ⟨blocks, hpos, hblocks, hle, heq⟩ := h.syncNewBlocks_eq (hrpc.getBlockCount 0) hbehind
  rw [hnext] at hblocks
  obtain ⟨synced, c', hpushes, hsynced, hwindow, hlength'⟩ := h.synced.pushHeights hrpc
    (n := blocks) 1 (by omega) (by omega)
  rw [heq, hblocks, hpushes]
  rw [show tip + blocks = T by omega] at hsynced
  refine ⟨synced, _, rfl, ⟨hsynced, ?_, ?_, ?_, rfl⟩, hwindow, ?_⟩
  · show c'.checkpoints.length = min (T + 1 - c'.window.start) c'.window.size
    rw [hlength', hwindow]
    omega
  · show c'.window.start ≤ T
    rw [hwindow]
    omega
  · show c'.window.start ≤ T
    rw [hwindow]
    omega
  · show s.checkpointsChain.checkpoints.length ≤ c'.checkpoints.length
    omega

/-- A sync that starts at another block finds it stale. -/
theorem Placed.syncNewBlocks_stale (h : Placed chain tip seen s)
    (hfree : Set.InjOn btc.blockHash {h | h ∈ chain.headers}) (hrpc : AnswersFrom chain T rpc)
    (hbehind : seen < T) (hgap : max seen (T - s.checkpointsChain.window.size) ≠ tip) :
    ∃ expected received,
      syncNewBlocks btc rpc s = (.error (.staleBlockAdded expected received), s) := by
  have hseen := h.start_le_seen
  have hstart := s.checkpointsChain.window.start_pos
  obtain ⟨blocks, hpos, hblocks, hle, heq⟩ := h.syncNewBlocks_eq (hrpc.getBlockCount 0) hbehind
  rw [← hblocks] at hgap
  obtain ⟨more, rfl⟩ : ∃ n, blocks = n + 1 := ⟨blocks - 1, by omega⟩
  have hheight : T - (more + 1) + 2 - s.checkpointsChain.window.start =
      T - (more + 1) + 1 - s.checkpointsChain.window.start + 1 := by omega
  obtain ⟨checkpoint, hat, hfetch⟩ := hrpc.fetchCheckpoint 1
    (T - (more + 1) + 1 - s.checkpointsChain.window.start + 1) (by omega)
  have hstale : ¬ s.checkpointsChain.Fits checkpoint := by
    rw [h.fits_iff hfree hat]
    omega
  obtain ⟨expected, received, hpush⟩ := push_eq_error hstale
  rw [heq, hheight, range'_succ, pushHeights, hfetch]
  dsimp only
  rw [hpush]
  exact ⟨expected, received, rfl⟩

/-! ## Resuming over existing checkpoints -/

/-- The last synced height `new` works out is one above the tip. -/
theorem Follows.new (hfit : chain.headers.length ≤ 2 ^ 32) (h : Follows chain tip s)
    (hne : s.checkpointsChain.checkpoints ≠ []) :
    Placed chain tip (tip + 1) (CheckpointSynchronizer.new s.checkpointsChain) := by
  have hplaced := h.placed hne
  obtain ⟨newest, height, hnewest, hheight, hat⟩ := hplaced.newest
  obtain ⟨header, hheader, rfl⟩ := BitcoinChain.checkpoint_eq_some.mp hat
  obtain ⟨hlt, -⟩ := List.getElem?_eq_some_iff.mp hheader
  have hword : (BitVec.ofNat 32 height).toNat = height := by
    rw [BitVec.toNat_ofNat]
    exact Nat.mod_eq_of_lt (by omega)
  refine ⟨h.synced, h.length_eq, hplaced.start_le_tip, ?_, ?_⟩
  · exact Nat.le_succ_of_le hplaced.start_le_tip
  · rw [CheckpointSynchronizer.new, recentHeight, hnewest]
    show (BitVec.ofNat 32 height).toNat + s.checkpointsChain.window.start = tip + 1
    rw [hword, hheight]

/-- Two chains at different tips are different. -/
theorem Placed.ne_of_tip_ne {s' : CheckpointSynchronizer} {tip' seen' : Nat}
    (h : Placed chain tip seen s) (h' : Placed chain tip' seen' s')
    (hfree : Set.InjOn btc.blockHash {h | h ∈ chain.headers}) (hne : tip ≠ tip') :
    s.checkpointsChain ≠ s'.checkpointsChain := by
  intro hsame
  obtain ⟨newest, height, hnewest, hheight, hat⟩ := h.newest
  obtain ⟨newest', height', hnewest', hheight', hat'⟩ := h'.newest
  rw [← hsame] at hnewest' hheight'
  obtain rfl : newest = newest' := Option.some.inj (hnewest.symm.trans hnewest')
  obtain rfl := BitcoinChain.height_unique hfree hat hat' rfl
  omega

/-- A synchronizer over the checkpoints an earlier one left at `T`, run when the node is `k`
blocks further, succeeds and leaves what the earlier one would have left, exactly if there
is no new block. -/
theorem resume_seamless_iff (hfree : Set.InjOn btc.blockHash {h | h ∈ chain.headers})
    (hfit : chain.headers.length ≤ 2 ^ 32) (h : Follows chain T s)
    (hne : s.checkpointsChain.checkpoints ≠ []) {k : Nat}
    (hk : k ≤ s.checkpointsChain.window.size) (hrpc : AnswersFrom chain (T + k) rpc) :
    (∃ synced s', syncNewBlocks btc rpc (.new s.checkpointsChain) = (.ok synced, s') ∧
      s'.checkpointsChain = (syncNewBlocks btc rpc s).2.checkpointsChain) ↔ k = 0 := by
  have hnew := h.new hfit hne
  have hold := h.placed hne
  have hcount := hrpc.getBlockCount 0
  have hwindow : (CheckpointSynchronizer.new s.checkpointsChain).checkpointsChain.window =
      s.checkpointsChain.window := rfl
  have hsize : 0 < s.checkpointsChain.window.size := Nat.succ_pos _
  constructor
  · intro ⟨synced, s', hsync, hsame⟩
    by_contra hpos
    by_cases hone : k = 1
    · -- the new block is passed over
      subst hone
      rw [hnew.syncNewBlocks_idle hcount le_rfl] at hsync
      obtain ⟨-, rfl⟩ := Prod.mk.inj hsync
      obtain ⟨_, s₁, hsync₁, hplaced₁, -, -⟩ := hold.syncNewBlocks_next hrpc (by omega) (by omega)
      rw [hsync₁] at hsame
      exact hnew.ne_of_tip_ne hplaced₁ hfree (by omega) hsame
    · -- the first of the new blocks is passed over, and the second does not fit
      obtain ⟨expected, received, hstale⟩ := hnew.syncNewBlocks_stale hfree hrpc (by omega)
        (by rw [hwindow]; omega)
      rw [hstale] at hsync
      cases hsync
  · rintro rfl
    exact ⟨[], _, hnew.syncNewBlocks_idle hcount (by omega), by
      rw [hold.syncNewBlocks_idle hcount (by omega)]; rfl⟩

end

/-! ### On the short chain -/

/-- The synchronizer of the short window after its first sync. -/
def shortSynced (tip : Nat) : CheckpointSynchronizer :=
  (syncNewBlocks chainBitcoin (fun _ => shortRpc tip) ⟨empty (shortWindow 0).window, none⟩).2

theorem shortSynced_follows {tip : Nat} (h : tip < 4) : Follows shortChain tip (shortSynced tip) := by
  obtain ⟨synced, s', hsync, hfollows, -⟩ := syncNewBlocks_follows
    (.fresh (shortWindow 0).window) (shortRpc_answersFrom h) (Nat.zero_le _) (.inl rfl)
  rw [shortSynced, hsync]
  exact hfollows

/-- Nothing is lost where no block came in between. -/
theorem resume_at_same_tip :
    ∃ synced s', syncNewBlocks chainBitcoin (fun _ => shortRpc 2)
        (.new (shortSynced 2).checkpointsChain) = (.ok synced, s') ∧
      s'.checkpointsChain = (syncNewBlocks chainBitcoin (fun _ => shortRpc 2)
        (shortSynced 2)).2.checkpointsChain := by
  have hne : (shortSynced 2).checkpointsChain.checkpoints ≠ [] := by decide +kernel
  exact (resume_seamless_iff (k := 0) shortChain_injOn (by decide)
    (shortSynced_follows (by decide)) hne (Nat.zero_le _)
    (shortRpc_answersFrom (by decide))).mpr rfl

/-- With one new block the resumed synchronizer stays behind, and with two it fails. -/
theorem resume_after_blocks :
    Follows shortChain 2 (shortSynced 2) ∧ Follows shortChain 1 (shortSynced 1) ∧
    AnswersFrom shortChain 3 (fun _ => shortRpc 3) ∧
    (syncNewBlocks chainBitcoin (fun _ => shortRpc 3)
        (.new (shortSynced 2).checkpointsChain)).2.checkpointsChain ≠
      (syncNewBlocks chainBitcoin (fun _ => shortRpc 3) (shortSynced 2)).2.checkpointsChain ∧
    (syncNewBlocks chainBitcoin (fun _ => shortRpc 3)
        (.new (shortSynced 1).checkpointsChain)).1 =
      .error (.staleBlockAdded block1Hash block2Hash) :=
  ⟨shortSynced_follows (by decide), shortSynced_follows (by decide),
    shortRpc_answersFrom (by decide), by decide +kernel, by decide +kernel⟩

end Macbeth
