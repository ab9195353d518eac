import Macbeth.Checkpoint.Syncer
import Macbeth.BtcServer.Node

/-!
# The checkpoint window

A sync against a node that holds still keeps the checkpoints those of the node's chain, as
many as the window takes: `syncNewBlocks_follows` is the step, `follows_of_syncs` the whole
life of a synchronizer.  Two such windows on one bitcoin chain then differ only by their
tips, and the strong checkpoint of one lies in the other exactly when the tips are close
enough.
-/

namespace Macbeth

open BitcoinCheckpointsChain CheckpointSynchronizer List

section
variable {btc : BitcoinLib} {chain : BitcoinChain btc} {rpc : Nat → CheckpointRpc}
variable {c c' : BitcoinCheckpointsChain} {checkpoint : BitcoinCheckpoint} {tip height n : Nat}

theorem BitcoinChain.checkpoint_eq_some {height : Nat} {checkpoint : BitcoinCheckpoint} :
    chain.checkpoint height = some checkpoint ↔ ∃ header, chain.headers[height]? = some header ∧
      BitcoinCheckpoint.new btc header height = checkpoint := by
  simp [BitcoinChain.checkpoint]

theorem SyncedAt.of_nil (h : c.checkpoints = []) : SyncedAt chain tip c := by
  intro i checkpoint hi
  simp [h] at hi

/-! ## Pushing the next height -/

/-- The checkpoint of the next height fits. -/
theorem SyncedAt.fits (h : SyncedAt chain tip c) (hheight : height + c.window.start = tip + 2)
    (hnew : chain.checkpoint height = some checkpoint) : c.Fits checkpoint := by
  intro recent hrecent
  have hlast : c.checkpoints.reverse[0]? = some recent := by
    rw [← head?_eq_getElem?, head?_reverse]
    exact hrecent
  obtain ⟨below, hbelow, hrec⟩ := h 0 recent hlast
  obtain rfl : height = below + 1 := by omega
  obtain ⟨header, hheader, rfl⟩ := BitcoinChain.checkpoint_eq_some.mp hnew
  obtain ⟨previous, hprevious, rfl⟩ := BitcoinChain.checkpoint_eq_some.mp hrec
  exact chain.linked.prev_eq hprevious hheader

/-- Pushing the checkpoint of the next height moves the tip by one. -/
theorem SyncedAt.push (h : SyncedAt chain tip c) (hheight : height + c.window.start = tip + 2)
    (hnew : chain.checkpoint height = some checkpoint) (hpush : c.push checkpoint = .ok c') :
    SyncedAt chain (tip + 1) c' := by
  obtain ⟨-, hwindow, hcheckpoints⟩ := push_eq_ok.mp hpush
  obtain ⟨dropped, hsplit⟩ := c.retained_suffix
  intro i old hi
  rw [hcheckpoints, reverse_append, reverse_singleton, singleton_append] at hi
  rw [hwindow]
  cases i with
  | zero =>
    obtain rfl : checkpoint = old := by simpa using hi
    exact ⟨height, by omega, hnew⟩
  | succ i =>
    -- an older checkpoint was there before, one place nearer to the end
    have hold : c.checkpoints.reverse[i]? = some old := by
      rw [getElem?_cons_succ] at hi
      have hlt : i < c.retained.reverse.length := (List.getElem?_eq_some_iff.mp hi).1
      rw [← hsplit, reverse_append, getElem?_append_left hlt]
      exact hi
    obtain ⟨below, hbelow, hat⟩ := h i old hold
    exact ⟨below, by omega, hat⟩

theorem length_push (hpush : c.push checkpoint = .ok c') :
    c'.checkpoints.length = min (c.checkpoints.length + 1) c.window.size := by
  obtain ⟨-, -, hcheckpoints⟩ := push_eq_ok.mp hpush
  have hle := c.length_le
  have hpos : 0 < c.window.size := Nat.succ_pos _
  rw [hcheckpoints, length_append, length_singleton]
  unfold retained
  split
  · rw [length_tail]
    omega
  · omega

/-- Against a still node, the two calls of a height return its checkpoint. -/
theorem AnswersFrom.fetchCheckpoint (h : AnswersFrom chain tip rpc) (call height : Nat)
    (hheight : height ≤ tip) : ∃ checkpoint, chain.checkpoint height = some checkpoint ∧
      fetchCheckpoint btc rpc call height = .ok checkpoint := by
  have hlt : height < chain.headers.length := Nat.lt_of_le_of_lt hheight h.tip_lt
  have hat : chain.headers[height]? = some chain.headers[height] := getElem?_eq_getElem hlt
  refine ⟨_, BitcoinChain.checkpoint_eq_some.mpr ⟨_, hat, rfl⟩, ?_⟩
  unfold CheckpointSynchronizer.fetchCheckpoint
  rw [h.getBlockHash call height _ hheight hat]
  show (mapRpcError "get_block_header" _ >>= fun header =>
    pure (BitcoinCheckpoint.new btc header height)) = _
  rw [h.getBlockHeader (call + 1) height _ hheight hat]
  rfl

/-- The loop over consecutive heights pushes all of them. -/
theorem SyncedAt.pushHeights {T : Nat} (hrpc : AnswersFrom chain T rpc) :
    ∀ {n tip : Nat} (call : Nat) {c : BitcoinCheckpointsChain}, SyncedAt chain tip c →
      c.window.start ≤ tip + 2 → tip + n ≤ T →
      ∃ synced c', pushHeights btc rpc call (List.range' (tip + 2 - c.window.start) n) c =
          (.ok synced, c') ∧ SyncedAt chain (tip + n) c' ∧ c'.window = c.window ∧
        c'.checkpoints.length = min (c.checkpoints.length + n) c.window.size := by
  intro n
  induction n with
  | zero =>
    intro tip call c h _ _
    exact ⟨[], c, rfl, h, rfl, by have := c.length_le; omega⟩
  | succ n ih =>
    intro tip call c h hstart hle
    have hpos := c.window.start_pos
    obtain ⟨checkpoint, hat, hfetch⟩ := hrpc.fetchCheckpoint call
      (tip + 2 - c.window.start) (by omega)
    have hheight : tip + 2 - c.window.start + c.window.start = tip + 2 := by omega
    obtain ⟨c₁, hpush⟩ := exists_push (h.fits hheight hat)
    have hwindow : c₁.window = c.window := (push_eq_ok.mp hpush).2.1
    have hnext : tip + 2 - c.window.start + 1 = tip + 1 + 2 - c₁.window.start := by
      rw [hwindow]
      omega
    obtain ⟨synced, c', hrest, hsynced, hwindow', hlength⟩ := ih (call + 2)
      (h.push hheight hat hpush) (by rw [hwindow]; omega) (by omega)
    refine ⟨⟨checkpoint.height, checkpoint.hash⟩ :: synced, c', ?_, ?_, hwindow'.trans hwindow, ?_⟩
    · rw [range'_succ, CheckpointSynchronizer.pushHeights, hfetch]
      dsimp only
      rw [hpush, hnext]
      dsimp only
      rw [hrest]
      rfl
    · rw [show tip + (n + 1) = tip + 1 + n by omega]
      exact hsynced
    · rw [hlength, length_push hpush, hwindow]
      omega

/-! ## A whole sync -/

/-- A synchronizer has seen a bitcoin chain up to a tip: its checkpoints are the newest
confirmed blocks, as many as the window takes.  One that has seen nothing stands at the
first block, which is never a checkpoint. -/
structure Follows (chain : BitcoinChain btc) (tip : Nat) (s : CheckpointSynchronizer) : Prop where
  synced : SyncedAt chain tip s.checkpointsChain
  length_eq : s.checkpointsChain.checkpoints.length =
    min (tip + 1 - s.checkpointsChain.window.start) s.checkpointsChain.window.size
  lastSyncedHeight : s.lastSyncedHeight.getD 0 = tip

theorem Follows.fresh (w : ConfirmationWindow) : Follows chain 0 ⟨empty w, none⟩ where
  synced := .of_nil rfl
  length_eq := by
    have := w.start_pos
    show 0 = min (0 + 1 - w.start) w.size
    omega
  lastSyncedHeight := rfl

/-- A sync that finds no newly confirmed block only notes the tip. -/
theorem Follows.note {s : CheckpointSynchronizer} {T : Nat} (h : Follows chain tip s)
    (hle : tip ≤ T) (hyoung : T < s.checkpointsChain.window.start) :
    Follows chain T { s with lastSyncedHeight := some T } where
  synced := by
    apply SyncedAt.of_nil
    have hlength := h.length_eq
    show s.checkpointsChain.checkpoints = []
    rw [← length_eq_zero_iff]
    omega
  length_eq := by
    have hlength := h.length_eq
    show s.checkpointsChain.checkpoints.length =
      min (T + 1 - s.checkpointsChain.window.start) s.checkpointsChain.window.size
    omega
  lastSyncedHeight := rfl

/-- A sync against a node that holds still at a later tip succeeds and follows the node,
provided the node is not ahead by more blocks than the window takes or the window is
empty. -/
theorem syncNewBlocks_follows {s : CheckpointSynchronizer} {T : Nat} (h : Follows chain tip s)
    (hrpc : AnswersFrom chain T rpc) (hle : tip ≤ T)
    (hgap : s.checkpointsChain.checkpoints = [] ∨ T ≤ tip + s.checkpointsChain.window.size) :
    ∃ synced s', syncNewBlocks btc rpc s = (.ok synced, s') ∧ Follows chain T s' ∧
      s'.checkpointsChain.window = s.checkpointsChain.window := by
  have hlength := h.length_eq
  have hpos := s.checkpointsChain.window.start_pos
  have hsize : 0 < s.checkpointsChain.window.size := Nat.succ_pos _
  unfold syncNewBlocks
  rw [hrpc.getBlockCount 0, h.lastSyncedHeight]
  dsimp only [mapRpcError, Except.mapError, lowestConfirmationDepth, sizeLimit]
  by_cases hsame : T ≤ tip
  · obtain rfl : tip = T := Nat.le_antisymm hle hsame
    rw [if_pos hsame]
    exact ⟨[], s, rfl, h, rfl⟩
  by_cases hyoung : T < s.checkpointsChain.window.start
  · rw [if_neg hsame, if_pos hyoung]
    exact ⟨[], _, rfl, h.note hle hyoung, rfl⟩
  rw [if_neg hsame, if_neg hyoung, if_neg (by omega)]
  generalize hneed : T + 1 - s.checkpointsChain.window.start -
    (tip + 1 - s.checkpointsChain.window.start) = need
  generalize hblocks : min need s.checkpointsChain.window.size = blocks
  -- The window is empty, or the first height to push is the one after the newest checkpoint.
  have hsynced : SyncedAt chain (T - blocks) s.checkpointsChain := by
    by_cases hnil : s.checkpointsChain.checkpoints = []
    · exact .of_nil hnil
    · have hne : s.checkpointsChain.checkpoints.length ≠ 0 := by simpa using hnil
      have hgap := hgap.resolve_left hnil
      rw [show T - blocks = tip by omega]
      exact h.synced
  have hfrom : T - (s.checkpointsChain.window.start - 1) - (blocks - 1) =
      T - blocks + 2 - s.checkpointsChain.window.start := by omega
  have hcount : T - (s.checkpointsChain.window.start - 1) + 1 -
      (T - blocks + 2 - s.checkpointsChain.window.start) = blocks := by omega
  obtain ⟨synced, c', hpushes, hsynced', hwindow, hlength'⟩ := SyncedAt.pushHeights hrpc
    (n := blocks) 1 hsynced (by omega) (by omega)
  rw [hfrom, hcount, hpushes]
  refine ⟨synced, _, rfl, ⟨?_, ?_, rfl⟩, hwindow⟩
  · rw [show T = T - blocks + blocks by omega]
    exact hsynced'
  · show c'.checkpoints.length = min (T + 1 - c'.window.start) c'.window.size
    rw [hlength', hwindow]
    rcases hgap with hnil | hgap
    · have hzero : s.checkpointsChain.checkpoints.length = 0 := by simp [hnil]
      omega
    · omega

/-! ## Two windows on one chain -/

/-- A block hash occurs at one height only. -/
theorem BitcoinChain.height_unique (hfree : Set.InjOn btc.blockHash {h | h ∈ chain.headers})
    {height height' : Nat} {x y : BitcoinCheckpoint} (hx : chain.checkpoint height = some x)
    (hy : chain.checkpoint height' = some y) (h : x.hash = y.hash) : height = height' := by
  obtain ⟨a, ha, rfl⟩ := BitcoinChain.checkpoint_eq_some.mp hx
  obtain ⟨b, hb, rfl⟩ := BitcoinChain.checkpoint_eq_some.mp hy
  exact chain.linked.index_unique (fun x hx y hy => hfree hx hy)
    (fun g hg x _ => chain.genesis g hg x) ha hb h

/-- A full window has a strong checkpoint, the block with that many confirmations. -/
theorem SyncedAt.strong (h : SyncedAt chain tip c) (hfull : c.Full) :
    ∃ checkpoint height, c.strong = some checkpoint ∧ height + c.window.strong = tip + 1 ∧
      chain.checkpoint height = some checkpoint := by
  have hstart := c.window.start_le
  have hstop := c.window.le_stop
  have hlt : c.window.strong - c.window.start < c.checkpoints.reverse.length := by
    rw [length_reverse, hfull, ConfirmationWindow.size]
    omega
  have hat : c.checkpoints.reverse[c.window.strong - c.window.start]? =
      some (c.checkpoints.reverse.get ⟨_, hlt⟩) := getElem?_eq_getElem hlt
  obtain ⟨height, hheight, hcheckpoint⟩ := h _ _ hat
  refine ⟨_, height, ?_, by omega, hcheckpoint⟩
  rw [BitcoinCheckpointsChain.strong, getByConfirmationDepth_eq _ c.window.contains_strong]
  exact hat

/-- A full window contains the block of a height exactly when its number of confirmations
lies in the window. -/
theorem SyncedAt.containsByHash_iff (h : SyncedAt chain tip c) (hfull : c.Full)
    (hfree : Set.InjOn btc.blockHash {h | h ∈ chain.headers})
    (hat : chain.checkpoint height = some checkpoint) :
    c.containsByHash checkpoint.hash = true ↔
      height + c.window.start ≤ tip + 1 ∧ tip + 1 ≤ height + c.window.stop := by
  have hstart := c.window.start_le
  have hstop := c.window.le_stop
  have hlength : c.checkpoints.reverse.length = c.window.stop - c.window.start + 1 := by
    rw [length_reverse, hfull, ConfirmationWindow.size]
  rw [containsByHash_eq_true]
  constructor
  · rintro ⟨found, hmem, hhash⟩
    obtain ⟨i, hi, hfound⟩ := getElem_of_mem hmem
    obtain ⟨height', hheight', hat'⟩ := h i found (List.getElem?_eq_some_iff.mpr ⟨hi, hfound⟩)
    obtain rfl := BitcoinChain.height_unique hfree hat' hat hhash
    omega
  · rintro ⟨hlow, hhigh⟩
    have hi : tip + 1 - height - c.window.start < c.checkpoints.reverse.length := by omega
    obtain ⟨height', hheight', hat'⟩ := h _ _ (getElem?_eq_getElem hi)
    obtain rfl : height = height' := by omega
    obtain rfl : checkpoint = _ := Option.some.inj (hat.symm.trans hat')
    exact ⟨_, getElem_mem hi, rfl⟩

/-- For a configuration with `weak` checkpoints below and `historical` ones above the strong
depth, and two full windows synced on one bitcoin chain: the validator's window contains the
proposer's strong checkpoint exactly when its tip is at most `weak` blocks behind and at most
`historical` blocks ahead. -/
theorem contains_strong_iff {strong historical weak : Nat}
    {configured proposer validator : BitcoinCheckpointsChain}
    (hnew : tryNew strong historical weak = .ok configured)
    (hproposer : proposer.window = configured.window)
    (hvalidator : validator.window = configured.window) (chain : BitcoinChain btc)
    (hfree : Set.InjOn btc.blockHash {h | h ∈ chain.headers}) {T T' : Nat}
    (hsynced : SyncedAt chain T proposer) (hfull : proposer.Full)
    (hsynced' : SyncedAt chain T' validator) (hfull' : validator.Full) :
    ∃ checkpoint, proposer.strong = some checkpoint ∧
      (validator.containsByHash checkpoint.hash = true ↔
        -(weak : ℤ) ≤ (T' : ℤ) - T ∧ (T' : ℤ) - T ≤ historical) := by
  obtain ⟨-, hstrong, hstart, hstop⟩ := tryNew_eq_ok hnew
  obtain ⟨checkpoint, height, hget, hheight, hat⟩ := hsynced.strong hfull
  refine ⟨checkpoint, hget, ?_⟩
  rw [hsynced'.containsByHash_iff hfull' hfree hat, hvalidator]
  rw [hproposer] at hheight
  omega

end

/-! ## A window of two blocks -/

def block1 : Block :=
  ⟨⟨1, genesisHash, 0x3309f7fc68de07117de8648d1accd22e735d4bd03f0e31080a463af06380f5cc, 1700000600,
    0x207fffff, 0⟩, [coinbase 1]⟩

def block1Hash : BlockHash := 0xd0b3b0cc4da22e157e2f75aa384741820c88e968f1a26e1d5be93ec2fccd25f0

def block2 : Block :=
  ⟨⟨1, block1Hash, 0x658bf685a12daecf97437eabfb3965f88fe86f99a9fc022b8087be7b83f33c98, 1700001200,
    0x207fffff, 0⟩, [coinbase 2]⟩

def block2Hash : BlockHash := 0x8a6d381d13d2ca79fec84fbbfedded2b389b84d4f8f6a3f8b2f06593d1ae67ed

def block3 : Block :=
  ⟨⟨1, block2Hash, 0xe5d8ca1fc3a7fcb72516a157b9d0e0fb6a6bc73301d09a7b22acd9c46d216a09, 1700001800,
    0x207fffff, 0⟩, [coinbase 3]⟩

def block3Hash : BlockHash := 0xbb5ee29ae397e7aad46e8545d767429bf7277abdb5a612faae8e86efb0ed4b72

/-- The hashes of the four blocks. -/
def chainBitcoin : BitcoinLib where
  blockHash header :=
    if header = genesis.header then genesisHash
    else if header = block1.header then block1Hash
    else if header = block2.header then block2Hash
    else if header = block3.header then block3Hash
    else 1
  computeTxid := minedBitcoin.computeTxid
  extractMatches := minedBitcoin.extractMatches
  isOnCurve := minedBitcoin.isOnCurve

def shortChain : BitcoinChain chainBitcoin where
  blocks := [genesis, block1, block2, block3]
  linked := by decide
  genesis := by
    intro g hg h hzero
    obtain rfl : genesis.header = g := by simpa using hg
    change (if _ then _ else _) = (0 : BlockHash) at hzero
    split_ifs at hzero <;> exact absurd hzero (by decide)

/-- The node at a tip of the short chain. -/
def shortRpc (tip : Nat) : CheckpointRpc where
  getBlockCount := .ok tip
  getBlockHash height := match shortChain.headers[height]? with
    | some header => .ok (chainBitcoin.blockHash header)
    | none => .error "Block height out of range"
  getBlockHeader hash := match shortChain.headers.find? (chainBitcoin.blockHash · = hash) with
    | some header => .ok header
    | none => .error "Block not found"

theorem shortRpc_answersFrom {tip : Nat} (h : tip < 4) :
    AnswersFrom shortChain tip fun _ => shortRpc tip where
  tip_lt := h
  getBlockCount _ := rfl
  getBlockHash _ height header _ hat := by simp [shortRpc, hat]
  getBlockHeader _ height header hle hat := by
    have hmem : header ∈ shortChain.headers := mem_of_getElem? hat
    have hfound : ∀ header ∈ shortChain.headers,
        shortChain.headers.find? (chainBitcoin.blockHash · = chainBitcoin.blockHash header) =
          some header := by decide
    simp [shortRpc, hfound header hmem]

/-- The window of depths one and two, synced for the first time at a tip. -/
def shortWindow (tip : Nat) : BitcoinCheckpointsChain :=
  (syncNewBlocks chainBitcoin (fun _ => shortRpc tip)
    ⟨empty ⟨1, 2, 2, by decide, by decide, by decide⟩, none⟩).2.checkpointsChain

theorem shortWindow_synced {tip : Nat} (h : tip < 4) :
    SyncedAt shortChain tip (shortWindow tip) := by
  obtain ⟨synced, s', hsync, hfollows, -⟩ := syncNewBlocks_follows (.fresh _)
    (shortRpc_answersFrom h) (Nat.zero_le _) (.inl rfl)
  unfold shortWindow
  rw [hsync]
  exact hfollows.synced

theorem shortChain_injOn : Set.InjOn chainBitcoin.blockHash {h | h ∈ shortChain.headers} := by
  have hfree : ∀ x ∈ shortChain.headers, ∀ y ∈ shortChain.headers,
      chainBitcoin.blockHash x = chainBitcoin.blockHash y → x = y := by decide
  exact fun x hx y hy => hfree x hx y hy

/-- A validator one block behind the proposer has the proposer's strong checkpoint. -/
theorem strong_found_one_behind : ∃ checkpoint, (shortWindow 3).strong = some checkpoint ∧
    (shortWindow 2).containsByHash checkpoint.hash = true := by
  have hnew : tryNew 2 0 1 = .ok (empty ⟨1, 2, 2, by decide, by decide, by decide⟩) := by decide
  obtain ⟨checkpoint, hstrong, hcontains⟩ := contains_strong_iff hnew (by decide) (by decide)
    shortChain shortChain_injOn (shortWindow_synced (by decide : 3 < 4)) (by unfold Full; decide)
    (shortWindow_synced (by decide : 2 < 4)) (by unfold Full; decide)
  exact ⟨checkpoint, hstrong, hcontains.mpr (by decide)⟩

end Macbeth
