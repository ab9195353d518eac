import Macbeth.Checkpoint.Window
import Macbeth.Lib.Run

/-!
# Syncs while the chain changes

The node may reorganize between any two calls of a sync, and a call may fail halfway.  All it
has to do is tell the truth about the blocks: the hash it names for a height is that of a
block of that height, whether or not the block is in its best chain a moment later, and the
header it returns for a hash has that hash.  The count of blocks may be anything.

The synchronizer never compares heights.  It is the linkage of the checkpoints that makes their
heights consecutive: a block names one parent, and the parent is one below it.  So after a
sync that pushed, the heights are given by the newest one (`syncNewBlocks_exact`).
-/

namespace Macbeth

open BitcoinCheckpointsChain CheckpointSynchronizer List

/-- All blocks that were ever mined, in whatever branch: the height of each by its hash. -/
structure BlockTree (btc : BitcoinLib) where
  height : BlockHash → Option Nat
  height_lt : ∀ {hash n}, height hash = some n → n < 2 ^ 32
  /-- A block is one above the block it names. -/
  child : ∀ {header : Header} {n m}, height header.prevBlockhash = some n →
    height (btc.blockHash header) = some m → m = n + 1

section
variable {btc : BitcoinLib} {tree : BlockTree btc} {rpc : Nat → CheckpointRpc}

namespace BlockTree

/-- The answers of one moment are true of the blocks. -/
structure Truthful (tree : BlockTree btc) (rpc : CheckpointRpc) : Prop where
  getBlockHash : ∀ {height hash}, rpc.getBlockHash height = .ok hash →
    tree.height hash = some height
  getBlockHeader : ∀ {hash header}, rpc.getBlockHeader hash = .ok header →
    btc.blockHash header = hash

/-- The checkpoint is that of a block. -/
structure Has (tree : BlockTree btc) (checkpoint : BitcoinCheckpoint) : Prop where
  hash_eq : checkpoint.hash = btc.blockHash checkpoint.header
  height_eq : tree.height checkpoint.hash = some checkpoint.height.toNat

/-- Linked checkpoints have consecutive heights. -/
theorem Has.height_succ {a b : BitcoinCheckpoint} (ha : tree.Has a) (hb : tree.Has b)
    (h : b.header.prevBlockhash = a.hash) : b.height.toNat = a.height.toNat + 1 := by
  have hparent := ha.height_eq
  have hchild := hb.height_eq
  rw [← h] at hparent
  rw [hb.hash_eq] at hchild
  exact tree.child hparent hchild

end BlockTree

/-! ## One sync -/

theorem fetchCheckpoint_has (hrpc : ∀ n, tree.Truthful (rpc n)) {call height : Nat}
    {checkpoint : BitcoinCheckpoint} (h : fetchCheckpoint btc rpc call height = .ok checkpoint) :
    tree.Has checkpoint ∧ checkpoint.height.toNat = height := by
  unfold fetchCheckpoint at h
  cases hhash : (rpc call).getBlockHash height with
  | error e => simp [hhash, mapRpcError, Except.mapError, bind, Except.bind] at h
  | ok hash =>
    cases hheader : (rpc (call + 1)).getBlockHeader hash with
    | error e => simp [hhash, hheader, mapRpcError, Except.mapError, bind, Except.bind] at h
    | ok header =>
      simp only [hhash, hheader, mapRpcError, Except.mapError, bind, Except.bind, pure,
        Except.pure, Except.ok.injEq] at h
      have hheight := (hrpc call).getBlockHash hhash
      have hlt : (BitVec.ofNat 32 height).toNat = height := by
        rw [BitVec.toNat_ofNat, Nat.mod_eq_of_lt (tree.height_lt hheight)]
      rw [← (hrpc (call + 1)).getBlockHeader hheader] at hheight
      rw [← h]
      exact ⟨⟨rfl, hheight.trans (congrArg some hlt.symm)⟩, hlt⟩

/-- All checkpoints are those of blocks. -/
def BlockTree.HasAll (tree : BlockTree btc) (c : BitcoinCheckpointsChain) : Prop :=
  ∀ checkpoint ∈ c.checkpoints, tree.Has checkpoint

theorem BlockTree.HasAll.push {c c' : BitcoinCheckpointsChain} {checkpoint : BitcoinCheckpoint}
    (h : tree.HasAll c) (hnew : tree.Has checkpoint) (hpush : c.push checkpoint = .ok c') :
    tree.HasAll c' := by
  intro x hx
  rw [(push_eq_ok.mp hpush).2.2] at hx
  obtain hx | hx := mem_append.mp hx
  · exact h x (c.retained_suffix.subset hx)
  · rw [mem_singleton.mp hx]
    exact hnew

/-- Whatever stops the loop, only checkpoints of blocks were pushed. -/
theorem pushHeights_hasAll (hrpc : ∀ n, tree.Truthful (rpc n)) :
    ∀ {heights : List Nat} {call : Nat} {c : BitcoinCheckpointsChain}, tree.HasAll c →
      tree.HasAll (pushHeights btc rpc call heights c).2 := by
  intro heights
  induction heights with
  | nil => exact fun h => h
  | cons height heights ih =>
    intro call c h
    unfold pushHeights
    cases hfetch : fetchCheckpoint btc rpc call height with
    | error e => exact h
    | ok checkpoint =>
      dsimp only
      cases hpush : c.push checkpoint with
      | error e => exact h
      | ok c₁ => exact ih (h.push (fetchCheckpoint_has hrpc hfetch).1 hpush)

theorem pushHeights_cons_eq_ok {height : Nat} {heights : List Nat} {call : Nat}
    {c c' : BitcoinCheckpointsChain} {synced : List SyncedCheckpointInfo}
    (h : pushHeights btc rpc call (height :: heights) c = (.ok synced, c')) :
    ∃ checkpoint c₁ rest, fetchCheckpoint btc rpc call height = .ok checkpoint ∧
      c.push checkpoint = .ok c₁ ∧ pushHeights btc rpc (call + 2) heights c₁ = (.ok rest, c') := by
  unfold pushHeights at h
  cases hfetch : fetchCheckpoint btc rpc call height with
  | error e => simp [hfetch] at h
  | ok checkpoint =>
    rw [hfetch] at h
    dsimp only at h
    cases hpush : c.push checkpoint with
    | error e => simp [hpush] at h
    | ok c₁ =>
      rw [hpush] at h
      dsimp only at h
      obtain ⟨hrest, hc'⟩ := Prod.mk.inj h
      cases hloop : (pushHeights btc rpc (call + 2) heights c₁).1 with
      | error e => simp [hloop, Except.map] at hrest
      | ok rest => exact ⟨checkpoint, c₁, rest, rfl, hpush, Prod.ext hloop hc'⟩

/-- A loop that comes to its end leaves the checkpoint of the last height as the newest, in
the same window. -/
theorem pushHeights_newest (hrpc : ∀ n, tree.Truthful (rpc n)) :
    ∀ {heights : List Nat} {call top : Nat} {c c' : BitcoinCheckpointsChain}
      {synced : List SyncedCheckpointInfo},
      pushHeights btc rpc call (heights ++ [top]) c = (.ok synced, c') →
      ∃ newest, c'.checkpoints.getLast? = some newest ∧ newest.height.toNat = top ∧
        c'.window = c.window := by
  intro heights
  induction heights with
  | nil =>
    intro call top c c' synced h
    obtain ⟨checkpoint, c₁, rest, hfetch, hpush, hend⟩ := pushHeights_cons_eq_ok h
    obtain rfl : c₁ = c' := (Prod.mk.inj hend).2
    obtain ⟨-, hwindow, hcheckpoints⟩ := push_eq_ok.mp hpush
    refine ⟨checkpoint, ?_, (fetchCheckpoint_has hrpc hfetch).2, hwindow⟩
    rw [hcheckpoints, getLast?_concat]
  | cons height heights ih =>
    intro call top c c' synced h
    obtain ⟨checkpoint, c₁, rest, -, hpush, hrest⟩ := pushHeights_cons_eq_ok h
    obtain ⟨newest, hnewest, hheight, hwindow⟩ := ih hrest
    exact ⟨newest, hnewest, hheight, hwindow.trans (push_eq_ok.mp hpush).2.1⟩

theorem range'_top {low top : Nat} (h : low ≤ top) :
    List.range' low (top + 1 - low) = List.range' low (top - low) ++ [top] := by
  rw [Nat.succ_sub h, range'_concat]
  congr 2
  omega

/-- A sync leaves the checkpoints as they are and reports none, or pushes consecutive heights
up to the one with the fewest confirmations the window admits. -/
theorem syncNewBlocks_cases (btc : BitcoinLib) (rpc : Nat → CheckpointRpc)
    (s : CheckpointSynchronizer) :
    ((syncNewBlocks btc rpc s).2.checkpointsChain = s.checkpointsChain ∧
      ∀ synced, (syncNewBlocks btc rpc s).1 = .ok synced → synced = []) ∨
    ∃ tip heights top, (rpc 0).getBlockCount = .ok tip ∧
      top + s.checkpointsChain.window.start = tip + 1 ∧
      (syncNewBlocks btc rpc s).1 = (pushHeights btc rpc 1 (heights ++ [top]) s.checkpointsChain).1 ∧
      (syncNewBlocks btc rpc s).2.checkpointsChain =
        (pushHeights btc rpc 1 (heights ++ [top]) s.checkpointsChain).2 := by
  have hpos := s.checkpointsChain.window.start_pos
  unfold syncNewBlocks
  cases hcount : (rpc 0).getBlockCount with
  | error e => exact .inl ⟨rfl, fun _ h => by cases h⟩
  | ok tip =>
    dsimp only [mapRpcError, Except.mapError, lowestConfirmationDepth, sizeLimit]
    split
    · exact .inl ⟨rfl, fun _ h => (Except.ok.inj h).symm⟩
    split
    · exact .inl ⟨rfl, fun _ h => (Except.ok.inj h).symm⟩
    split
    · exact .inl ⟨rfl, fun _ h => (Except.ok.inj h).symm⟩
    right
    generalize htop : tip - (s.checkpointsChain.window.start - 1) = top
    generalize min _ _ - 1 = below
    rw [range'_top (Nat.sub_le top below)]
    refine ⟨tip, range' (top - below) (top - (top - below)), top, rfl, by omega, ?_⟩
    cases pushHeights btc rpc 1 (range' (top - below) (top - (top - below)) ++ [top])
      s.checkpointsChain with
    | mk result chain => cases result <;> exact ⟨rfl, rfl⟩

/-- One round of the loop: a sync, and what is made of its result. -/
def syncRound (btc : BitcoinLib) (s : CheckpointSynchronizer) (rpc : Nat → CheckpointRpc) :
    Except BitcoinCheckpointError (List SyncedCheckpointInfo) × CheckpointSynchronizer :=
  let result := syncNewBlocks btc rpc s
  (result.1, (handleNewBlocksSyncResult result.1 result.2).2)

theorem syncNewBlocks_hasAll {s : CheckpointSynchronizer} (hrpc : ∀ n, tree.Truthful (rpc n))
    (h : tree.HasAll s.checkpointsChain) :
    tree.HasAll (syncNewBlocks btc rpc s).2.checkpointsChain := by
  obtain ⟨hsame, -⟩ | ⟨tip, heights, top, -, -, -, hchain⟩ := syncNewBlocks_cases btc rpc s
  · rwa [hsame]
  · rw [hchain]
    exact pushHeights_hasAll hrpc h

theorem syncRound_hasAll {s : CheckpointSynchronizer} (hrpc : ∀ n, tree.Truthful (rpc n))
    (h : tree.HasAll s.checkpointsChain) :
    tree.HasAll (syncRound btc s rpc).2.checkpointsChain := by
  have hsynced := syncNewBlocks_hasAll hrpc h
  unfold syncRound handleNewBlocksSyncResult
  dsimp only
  split
  · exact hsynced
  · exact fun _ hmem => absurd hmem not_mem_nil
  · exact hsynced

/-! ## Heights -/

/-- The heights of linked checkpoints of blocks, counted from the newest. -/
theorem BlockTree.HasAll.height_add {c : BitcoinCheckpointsChain} (h : tree.HasAll c)
    {newest : BitcoinCheckpoint} (hnewest : c.checkpoints.getLast? = some newest) :
    ∀ {i : Nat} {checkpoint : BitcoinCheckpoint},
      c.checkpoints.reverse[i]? = some checkpoint →
      checkpoint.height.toNat + i = newest.height.toNat := by
  have hhas {i : Nat} {x : BitcoinCheckpoint} (hx : c.checkpoints.reverse[i]? = some x) :
      tree.Has x := h x (mem_reverse.mp (mem_of_getElem? hx))
  have hlinked : c.checkpoints.reverse.IsChain fun b a => b.header.prevBlockhash = a.hash :=
    isChain_reverse.mpr c.linked
  intro i
  induction i with
  | zero =>
    intro checkpoint hat
    rw [← head?_eq_getElem?, head?_reverse, hnewest] at hat
    rw [Option.some.inj hat]
    rfl
  | succ i ih =>
    intro checkpoint hat
    obtain ⟨hlt, hget⟩ := List.getElem?_eq_some_iff.mp hat
    have hnext : c.checkpoints.reverse[i]? = some c.checkpoints.reverse[i] :=
      getElem?_eq_getElem (by omega)
    have hprev := isChain_iff_getElem.mp hlinked i hlt
    rw [hget] at hprev
    have hsucc := (hhas hat).height_succ (hhas hnext) hprev
    have := ih hnext
    omega

theorem BlockTree.HasAll.consecutive {c : BitcoinCheckpointsChain} (h : tree.HasAll c) :
    c.checkpoints.IsChain fun a b => b.height.toNat = a.height.toNat + 1 := by
  refine isChain_iff_getElem.mpr fun i hi => ?_
  exact (h _ (getElem_mem _)).height_succ (h _ (getElem_mem hi))
    (isChain_iff_getElem.mp c.linked i hi)

/-- From an empty chain, in whatever way the node reorganizes or fails between any two calls:
a sync that reads the tip `T` and succeeds with at least one push leaves at most as many
checkpoints as the window takes, linked and with consecutive heights, the newest with the
lowest depth at `T`, and every one that is found by its depth has that depth at `T`. -/
theorem syncNewBlocks_exact {window : ConfirmationWindow}
    {h : History CheckpointSynchronizer (Nat → CheckpointRpc)
      (Except BitcoinCheckpointError (List SyncedCheckpointInfo))} {s s' : CheckpointSynchronizer}
    (hrun : Run (syncRound btc) (CheckpointSynchronizer.new (empty window)) h s)
    (hmeets : Meets (fun _ _ rpc => ∀ n, tree.Truthful (rpc n)) h)
    (hrpc : ∀ n, tree.Truthful (rpc n)) {T : Nat} (hcount : (rpc 0).getBlockCount = .ok T)
    {synced : List SyncedCheckpointInfo} (hsync : syncNewBlocks btc rpc s = (.ok synced, s'))
    (hpushed : synced ≠ []) :
    s'.checkpointsChain.checkpoints.length ≤ s'.checkpointsChain.sizeLimit ∧
    HashChain.Linked BitcoinCheckpoint.hash (·.header.prevBlockhash)
      s'.checkpointsChain.checkpoints ∧
    (s'.checkpointsChain.checkpoints.IsChain fun a b => b.height.toNat = a.height.toNat + 1) ∧
    (∃ newest, s'.checkpointsChain.checkpoints.getLast? = some newest ∧
      newest.height.toNat + s'.checkpointsChain.lowestConfirmationDepth = T + 1) ∧
    ∀ depth checkpoint, s'.checkpointsChain.getByConfirmationDepth depth = some checkpoint →
      checkpoint.height.toNat + depth = T + 1 := by
  have hall : tree.HasAll s.checkpointsChain := by
    refine hrun.invariant (I := fun _ s => tree.HasAll s.checkpointsChain) ?_ ?_ hmeets
    · exact fun _ hmem => absurd hmem not_mem_nil
    · exact fun _ _ _ _ hall hrpc => syncRound_hasAll hrpc hall
  have hall' : tree.HasAll s'.checkpointsChain := by
    have := syncNewBlocks_hasAll hrpc hall
    rwa [hsync] at this
  have hcases := syncNewBlocks_cases btc rpc s
  rw [hsync] at hcases
  obtain ⟨-, hnone⟩ | ⟨tip, heights, top, htip, htop, hresult, hchain⟩ := hcases
  · exact absurd (hnone synced rfl) hpushed
  obtain rfl : T = tip := Except.ok.inj (hcount.symm.trans htip)
  obtain ⟨newest, hnewest, hheight, hwindow⟩ :=
    pushHeights_newest hrpc (Prod.ext hresult.symm hchain.symm)
  have hlowest : newest.height.toNat + s'.checkpointsChain.window.start = T + 1 := by
    rw [hheight, hwindow, htop]
  refine ⟨s'.checkpointsChain.length_le, s'.checkpointsChain.linked, hall'.consecutive,
    ⟨newest, hnewest, hlowest⟩, ?_⟩
  intro depth checkpoint hfound
  have hin : s'.checkpointsChain.window.Contains depth := by
    by_contra hout
    rw [getByConfirmationDepth, if_pos hout] at hfound
    cases hfound
  rw [getByConfirmationDepth_eq _ hin] at hfound
  have hadd := hall'.height_add hnewest hfound
  have := hin.1
  omega

end

/-! ## A reorganization

A node follows the blocks 1, 2 and 3, and then a branch that leaves the chain at block 2. -/

/-- The other block of height 3. -/
def otherBlock3 : Header :=
  ⟨1, block2Hash, 0x2db39da8c1421dd3f4d551187e818428911119eb140df4b5e0fb5f840b5a538e, 1700001900,
    0x207fffff, 0⟩

def otherBlock3Hash : BlockHash :=
  0x1dfe43c54d6b08ea6c457c38554fa8ab43289bc1d54084c807450c293efdd179

def otherBlock4 : Header :=
  ⟨1, otherBlock3Hash, 0x7df998065247ac85c12ee897a8926ea09277edb2e7e3c555743640b9270686da,
    1700002400, 0x207fffff, 0⟩

def otherBlock4Hash : BlockHash :=
  0x7a917ec91fc39a7ca616945bdef522676c8532c3e9f314658e1433d696d0bff7

/-- The hashes of both branches. -/
def forkBitcoin : BitcoinLib :=
  { chainBitcoin with
    blockHash := fun header =>
      if header = otherBlock3 then otherBlock3Hash
      else if header = otherBlock4 then otherBlock4Hash
      else chainBitcoin.blockHash header }

def oldBranch : List Header := [genesis.header, block1.header, block2.header, block3.header]

def newBranch : List Header :=
  [genesis.header, block1.header, block2.header, otherBlock3, otherBlock4]

theorem blockHash_of_not_mem {header : Header} (h : header ∉ oldBranch ++ newBranch) :
    forkBitcoin.blockHash header = 1 := by
  simp only [oldBranch, newBranch, mem_append, mem_cons, not_or] at h
  simp [forkBitcoin, chainBitcoin, h]

def forkHeights : List (BlockHash × Nat) :=
  [(genesisHash, 0), (block1Hash, 1), (block2Hash, 2), (block3Hash, 3), (otherBlock3Hash, 3),
    (otherBlock4Hash, 4)]

def forkTree : BlockTree forkBitcoin where
  height hash := forkHeights.lookup hash
  height_lt {hash n} h := by
    obtain ⟨before, after, hsplit, -⟩ := List.lookup_eq_some_iff.mp h
    have hmem : (hash, n) ∈ forkHeights := by simp [hsplit]
    have hall : ∀ p ∈ forkHeights, p.2 < 2 ^ 32 := by decide
    exact hall _ hmem
  child {header n m} hparent hchild := by
    by_cases hknown : header ∈ oldBranch ++ newBranch
    · have hall : ∀ header ∈ oldBranch ++ newBranch,
          ∀ n ∈ forkHeights.lookup header.prevBlockhash,
          ∀ m ∈ forkHeights.lookup (forkBitcoin.blockHash header), m = n + 1 := by decide
      exact hall header hknown n hparent m hchild
    · rw [blockHash_of_not_mem hknown] at hchild
      have hnone : forkHeights.lookup 1 = none := by decide
      rw [hnone] at hchild
      cases hchild

/-- The node on a branch. -/
def forkRpc (branch : List Header) : CheckpointRpc where
  getBlockCount := .ok (branch.length - 1)
  getBlockHash height := match branch[height]? with
    | some header => .ok (forkBitcoin.blockHash header)
    | none => .error "Block height out of range"
  getBlockHeader hash := match branch.find? (forkBitcoin.blockHash · = hash) with
    | some header => .ok header
    | none => .error "Block not found"

theorem forkRpc_truthful {branch : List Header}
    (h : ∀ i : Fin branch.length, forkTree.height (forkBitcoin.blockHash branch[i]) = some i) :
    forkTree.Truthful (forkRpc branch) where
  getBlockHash {height hash} hanswer := by
    simp only [forkRpc] at hanswer
    cases hat : branch[height]? with
    | none => simp [hat] at hanswer
    | some header =>
      obtain ⟨hlt, hget⟩ := List.getElem?_eq_some_iff.mp hat
      have hheight := h ⟨height, hlt⟩
      simp only [hat, Except.ok.injEq] at hanswer
      rw [← hanswer, ← hget]
      exact hheight
  getBlockHeader {hash header} hanswer := by
    simp only [forkRpc] at hanswer
    cases hfound : branch.find? (forkBitcoin.blockHash · = hash) with
    | none => simp [hfound] at hanswer
    | some found =>
      simp only [hfound, Except.ok.injEq] at hanswer
      rw [← hanswer]
      simpa using find?_some hfound

def oldNode (_ : Nat) : CheckpointRpc := forkRpc oldBranch

def newNode (_ : Nat) : CheckpointRpc := forkRpc newBranch

/-- A node that reorganizes while it is asked: it named the tip of the old branch. -/
def movingNode : Nat → CheckpointRpc
  | 0 => forkRpc oldBranch
  | _ => forkRpc newBranch

theorem oldNode_truthful (n : Nat) : forkTree.Truthful (oldNode n) := forkRpc_truthful (by decide)

theorem newNode_truthful (n : Nat) : forkTree.Truthful (newNode n) := forkRpc_truthful (by decide)

theorem movingNode_truthful : ∀ n, forkTree.Truthful (movingNode n)
  | 0 => oldNode_truthful 0
  | n + 1 => newNode_truthful n

/-- A sync on the old branch and one on the new, which finds a stale block. -/
def forkRun : History CheckpointSynchronizer (Nat → CheckpointRpc)
    (Except BitcoinCheckpointError (List SyncedCheckpointInfo)) × CheckpointSynchronizer :=
  play (syncRound forkBitcoin)
    (CheckpointSynchronizer.new (empty (shortWindow 0).window))
    [newNode, oldNode]

/-- The next sync has blocks 2 and 3 of the new branch, at the depths they have below the tip
that was read. -/
theorem reorganized_sync_exact :
    ∃ synced s', syncNewBlocks forkBitcoin movingNode forkRun.2 = (.ok synced, s') ∧
      s'.checkpointsChain.checkpoints.map (·.header) = [block2.header, otherBlock3] ∧
      ∀ depth checkpoint, s'.checkpointsChain.getByConfirmationDepth depth = some checkpoint →
        checkpoint.height.toNat + depth = 4 := by
  obtain ⟨synced, hsync, hpushed⟩ : ∃ synced,
      syncNewBlocks forkBitcoin movingNode forkRun.2 =
        (.ok synced, (syncNewBlocks forkBitcoin movingNode forkRun.2).2) ∧ synced ≠ [] :=
    ⟨[⟨2, block2Hash⟩, ⟨3, otherBlock3Hash⟩], Prod.ext (by decide +kernel) rfl, by decide⟩
  refine ⟨synced, _, hsync, by decide +kernel, ?_⟩
  have hmeets : Meets (fun _ _ rpc => ∀ n, forkTree.Truthful (rpc n)) forkRun.1 :=
    ⟨newNode_truthful, oldNode_truthful, trivial⟩
  exact (syncNewBlocks_exact (Run.play _) hmeets movingNode_truthful rfl hsync hpushed).2.2.2.2

end Macbeth
