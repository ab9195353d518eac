import Macbeth.Checkpoint.Resume

/-!
# A call that fails during a sync

A sync pushes its blocks one by one and notes the height at its end.  When a call fails in
between, the pushed blocks stay and the height does not: the next sync starts with a block
that is there already, finds it stale, and the handler of the result empties the chain.  So a
failure does no harm only before the first push, or where the window has moved past the
blocks that were pushed (`survives_failure_iff`).
-/

namespace Macbeth

open BitcoinCheckpointsChain CheckpointSynchronizer List

/-- A node that holds still at a tip until one call, which fails. -/
structure BreaksAt {btc : BitcoinLib} (chain : BitcoinChain btc) (T broken : Nat)
    (rpc : Nat → CheckpointRpc) : Prop where
  still : ∃ still, AnswersFrom chain T still ∧ ∀ n < broken, rpc n = still n
  getBlockCount : ∃ e, (rpc broken).getBlockCount = .error e
  getBlockHash : ∀ height, ∃ e, (rpc broken).getBlockHash height = .error e
  getBlockHeader : ∀ hash, ∃ e, (rpc broken).getBlockHeader hash = .error e

section
variable {btc : BitcoinLib} {chain : BitcoinChain btc} {rpc : Nat → CheckpointRpc}
variable {c c' : BitcoinCheckpointsChain} {s : CheckpointSynchronizer} {tip seen T broken : Nat}

/-! ## The sync that fails -/

/-- The two calls of a height, before the one that fails. -/
theorem BreaksAt.fetchCheckpoint_before (h : BreaksAt chain T broken rpc) (call height : Nat)
    (hcall : call + 1 < broken) (hheight : height ≤ T) :
    ∃ checkpoint, chain.checkpoint height = some checkpoint ∧
      fetchCheckpoint btc rpc call height = .ok checkpoint := by
  obtain ⟨still, hstill, heq⟩ := h.still
  obtain ⟨checkpoint, hat, hfetch⟩ := hstill.fetchCheckpoint call height hheight
  refine ⟨checkpoint, hat, ?_⟩
  rw [← hfetch]
  unfold fetchCheckpoint
  rw [heq call (by omega), heq (call + 1) hcall]

/-- One of the two calls of a height fails. -/
theorem BreaksAt.fetchCheckpoint_at (h : BreaksAt chain T broken rpc) (call height : Nat)
    (hcall : call ≤ broken) (hbroken : broken ≤ call + 1) (hheight : height ≤ T) :
    ∃ e procedure, fetchCheckpoint btc rpc call height = .error (.syncRpcError e procedure) := by
  obtain ⟨still, hstill, heq⟩ := h.still
  unfold fetchCheckpoint
  by_cases hfirst : call = broken
  · obtain ⟨e, he⟩ := h.getBlockHash height
    rw [hfirst, he]
    exact ⟨e, "get_block_hash", rfl⟩
  · have hlt : height < chain.headers.length := Nat.lt_of_le_of_lt hheight hstill.tip_lt
    have hat : chain.headers[height]? = some chain.headers[height] := getElem?_eq_getElem hlt
    obtain ⟨e, he⟩ := h.getBlockHeader (btc.blockHash chain.headers[height])
    rw [heq call (by omega), hstill.getBlockHash call height _ hheight hat]
    show ∃ e procedure, (mapRpcError "get_block_header" _ >>= fun header =>
      pure (BitcoinCheckpoint.new btc header height)) = .error (.syncRpcError e procedure)
    rw [show call + 1 = broken by omega, he]
    exact ⟨e, "get_block_header", rfl⟩

/-- The loop comes to its end, or has pushed one block for every two calls. -/
theorem BreaksAt.pushHeights_cases (hrpc : BreaksAt chain T broken rpc) :
    ∀ {n tip call : Nat} {c : BitcoinCheckpointsChain}, SyncedAt chain tip c →
      c.window.start ≤ tip + 2 → tip + n ≤ T → call ≤ broken →
      (∃ synced, (pushHeights btc rpc call (List.range' (tip + 2 - c.window.start) n) c).1 =
        .ok synced) ∨
      ∃ e procedure c', pushHeights btc rpc call (List.range' (tip + 2 - c.window.start) n) c =
          (.error (.syncRpcError e procedure), c') ∧ (broken - call) / 2 < n ∧
        SyncedAt chain (tip + (broken - call) / 2) c' ∧ c'.window = c.window ∧
        c'.checkpoints.length = min (c.checkpoints.length + (broken - call) / 2) c.window.size := by
  intro n
  induction n with
  | zero => exact fun _ _ _ _ => .inl ⟨[], rfl⟩
  | succ n ih =>
    intro tip call c h hstart hle hcall
    have hpos := c.window.start_pos
    have hlength := c.length_le
    rw [range'_succ, pushHeights]
    by_cases hbroken : broken ≤ call + 1
    · right
      obtain ⟨e, procedure, hfetch⟩ := hrpc.fetchCheckpoint_at call
        (tip + 2 - c.window.start) hcall hbroken (by omega)
      have hnone : (broken - call) / 2 = 0 := by omega
      rw [hfetch, hnone]
      exact ⟨e, procedure, c, rfl, by omega, h, rfl, by omega⟩
    · obtain ⟨checkpoint, hat, hfetch⟩ := hrpc.fetchCheckpoint_before call
        (tip + 2 - c.window.start) (by omega) (by omega)
      have hheight : tip + 2 - c.window.start + c.window.start = tip + 2 := by omega
      obtain ⟨c₁, hpush⟩ := exists_push (h.fits hheight hat)
      have hwindow : c₁.window = c.window := (push_eq_ok.mp hpush).2.1
      have hnext : tip + 2 - c.window.start + 1 = tip + 1 + 2 - c₁.window.start := by
        rw [hwindow]
        omega
      have hpushed : (broken - call) / 2 = (broken - (call + 2)) / 2 + 1 := by omega
      have hlength₁ := length_push hpush
      rw [hfetch]
      dsimp only
      rw [hpush, hnext, hpushed]
      dsimp only
      obtain ⟨synced, hok⟩ | ⟨e, procedure, c', herr, hlt, hsynced, hwindow', hlength'⟩ :=
        ih (h.push hheight hat hpush) (by rw [hwindow]; omega) (by omega)
          (show call + 2 ≤ broken by omega)
      · exact .inl ⟨_, by rw [hok]; rfl⟩
      · right
        rw [herr]
        refine ⟨e, procedure, c', rfl, by omega, ?_, hwindow'.trans hwindow, ?_⟩
        · rwa [show tip + ((broken - (call + 2)) / 2 + 1) = tip + 1 + (broken - (call + 2)) / 2 by
            omega]
        · rw [hlength', hlength₁, hwindow]
          omega

/-- The state holds no fewer checkpoints than before, in the same window. -/
def Extends (c c' : BitcoinCheckpointsChain) : Prop :=
  c'.window = c.window ∧ c.checkpoints.length ≤ c'.checkpoints.length

theorem Extends.refl (c : BitcoinCheckpointsChain) : Extends c c := ⟨rfl, le_rfl⟩

theorem Extends.trans {c'' : BitcoinCheckpointsChain} (h : Extends c c') (h' : Extends c' c'') :
    Extends c c'' := ⟨h'.1.trans h.1, h.2.trans h'.2⟩

/-- What a failed sync leaves: the height as it was, and the blocks of the calls before. -/
theorem Placed.syncNewBlocks_breaks (h : Placed chain tip tip s)
    (hfree : Set.InjOn btc.blockHash {h | h ∈ chain.headers})
    (hrpc : BreaksAt chain T broken rpc) (hle : tip ≤ T) {e procedure : String}
    (hfail : (syncNewBlocks btc rpc s).1 = .error (.syncRpcError e procedure)) :
    Placed chain (tip + (broken - 1) / 2) tip (syncNewBlocks btc rpc s).2 ∧
      tip + (broken - 1) / 2 ≤ T ∧
      Extends s.checkpointsChain (syncNewBlocks btc rpc s).2.checkpointsChain := by
  obtain ⟨still, hstill, hcalls⟩ := hrpc.still
  have hlength := h.length_eq
  have hmature := h.start_le_tip
  have hstart := s.checkpointsChain.window.start_pos
  by_cases hzero : broken = 0
  · obtain ⟨e', hcount⟩ := hrpc.getBlockCount
    have hsame : (syncNewBlocks btc rpc s).2 = s := by
      rw [hzero] at hcount
      rw [syncNewBlocks, hcount]
      rfl
    rw [hsame, hzero]
    exact ⟨h, hle, .refl _⟩
  have hcount : (rpc 0).getBlockCount = .ok T := by
    rw [hcalls 0 (by omega)]
    exact hstill.getBlockCount 0
  have hbehind : tip < T := by
    by_contra hdone
    rw [h.syncNewBlocks_idle hcount (by omega)] at hfail
    cases hfail
  obtain ⟨blocks, hpos, hblocks, hblocks_le, heq⟩ := h.syncNewBlocks_eq hcount hbehind
  rw [heq] at hfail ⊢
  by_cases hnext : T - blocks = tip
  · rw [hnext] at hfail ⊢
    obtain ⟨synced, hok⟩ | ⟨e', procedure', c', herr, hlt, hsynced, hwindow, hlength'⟩ :=
      hrpc.pushHeights_cases h.synced (by omega) (show tip + blocks ≤ T by omega)
        (show 1 ≤ broken by omega)
    · rw [endSync, hok] at hfail
      cases hfail
    · rw [herr]
      refine ⟨⟨hsynced, ?_, ?_, ?_, h.lastSyncedHeight⟩, by omega, hwindow, ?_⟩
      · show c'.checkpoints.length =
          min (tip + (broken - 1) / 2 + 1 - c'.window.start) c'.window.size
        rw [hlength', hwindow]
        omega
      · show c'.window.start ≤ _
        rw [hwindow]
        omega
      · show c'.window.start ≤ _
        rw [hwindow]
        exact hmature
      · show s.checkpointsChain.checkpoints.length ≤ c'.checkpoints.length
        omega
  · -- the first block does not fit, so one of its own calls has failed
    obtain ⟨more, rfl⟩ : ∃ n, blocks = n + 1 := ⟨blocks - 1, by omega⟩
    have hheight : T - (more + 1) + 2 - s.checkpointsChain.window.start =
        T - (more + 1) + 1 - s.checkpointsChain.window.start + 1 := by omega
    rw [hheight, range'_succ, pushHeights] at hfail ⊢
    by_cases hearly : broken ≤ 2
    · obtain ⟨e', procedure', hfetch⟩ := hrpc.fetchCheckpoint_at 1
        (T - (more + 1) + 1 - s.checkpointsChain.window.start + 1) (by omega) hearly
        (by omega)
      rw [hfetch, show (broken - 1) / 2 = 0 by omega]
      exact ⟨h, by omega, .refl _⟩
    · obtain ⟨checkpoint, hat, hfetch⟩ := hrpc.fetchCheckpoint_before 1
        (T - (more + 1) + 1 - s.checkpointsChain.window.start + 1) (by omega) (by omega)
      have hstale : ¬ s.checkpointsChain.Fits checkpoint := by
        rw [h.fits_iff hfree hat]
        omega
      obtain ⟨expected, received, hpush⟩ := push_eq_error hstale
      rw [hfetch] at hfail
      dsimp only at hfail
      rw [hpush] at hfail
      cases hfail

/-! ## The syncs after it -/

/-- A round against a node that holds still: it follows the node, or the chain is emptied. -/
theorem Placed.syncRound_cases (h : Placed chain tip seen s)
    (hfree : Set.InjOn btc.blockHash {h | h ∈ chain.headers}) (hrpc : AnswersFrom chain T rpc)
    (hseen : seen ≤ tip) (hle : tip ≤ T) :
    if max seen (T - s.checkpointsChain.window.size) = tip then
      Placed chain T T (syncRound btc s rpc).2 ∧
        Extends s.checkpointsChain (syncRound btc s rpc).2.checkpointsChain
    else (syncRound btc s rpc).2.checkpointsChain.checkpoints = [] := by
  have hsize : 0 < s.checkpointsChain.window.size := Nat.succ_pos _
  split
  case isTrue hnext =>
    by_cases hdone : T ≤ seen
    · have hsame : (syncRound btc s rpc).2 = s := by
        rw [syncRound, h.syncNewBlocks_idle (hrpc.getBlockCount 0) hdone]
        rfl
      obtain rfl : tip = T := by omega
      obtain rfl : seen = tip := by omega
      rw [hsame]
      exact ⟨h, .refl _⟩
    · obtain ⟨synced, s', hsync, hplaced, hwindow, hlength⟩ :=
        h.syncNewBlocks_next hrpc (by omega) hnext
      have hround : (syncRound btc s rpc).2 = s' := by
        rw [syncRound, hsync]
        rfl
      rw [hround]
      exact ⟨hplaced, hwindow, hlength⟩
  case isFalse hgap =>
    obtain ⟨expected, received, hstale⟩ := h.syncNewBlocks_stale hfree hrpc (by omega) hgap
    rw [syncRound, hstale]
    rfl

/-- The state after a series of rounds. -/
def afterRounds (btc : BitcoinLib) (s : CheckpointSynchronizer)
    (rpcs : List (Nat → CheckpointRpc)) : CheckpointSynchronizer :=
  rpcs.foldl (fun s rpc => (syncRound btc s rpc).2) s

/-- Rounds that are never further apart than the window is wide follow the node. -/
theorem Placed.afterRounds_of_gaps :
    ∀ {tips : List Nat} {rpcs : List (Nat → CheckpointRpc)} {tip : Nat}
      {s : CheckpointSynchronizer}, Placed chain tip tip s →
      Set.InjOn btc.blockHash {h | h ∈ chain.headers} →
      List.Forall₂ (AnswersFrom chain) tips rpcs → (tip :: tips).IsChain (· ≤ ·) →
      (tip :: tips).IsChain (fun a b => b ≤ a + s.checkpointsChain.window.size) →
      Placed chain ((tip :: tips).getLast (List.cons_ne_nil _ _))
          ((tip :: tips).getLast (List.cons_ne_nil _ _)) (afterRounds btc s rpcs) ∧
        Extends s.checkpointsChain (afterRounds btc s rpcs).checkpointsChain := by
  intro tips
  induction tips with
  | nil =>
    intro rpcs tip s h _ hrpcs _ _
    cases hrpcs
    exact ⟨h, .refl _⟩
  | cons T tips ih =>
    intro rpcs tip s h hfree hrpcs hmono hgaps
    obtain ⟨rpc, rpcs, hrpc, hrest, rfl⟩ := forall₂_cons_left_iff.mp hrpcs
    obtain ⟨hle, hmono⟩ := isChain_cons_cons.mp hmono
    obtain ⟨hgap, hgaps⟩ := isChain_cons_cons.mp hgaps
    have hround := h.syncRound_cases hfree hrpc le_rfl hle
    rw [if_pos (by omega)] at hround
    obtain ⟨hplaced, hextends⟩ := hround
    obtain ⟨hlast, hextends'⟩ := ih hplaced hfree hrest hmono (hextends.1 ▸ hgaps)
    rw [getLast_cons (cons_ne_nil _ _)]
    exact ⟨hlast, hextends.trans hextends'⟩

/-- Rounds that never empty the chain are never further apart than the window is wide. -/
theorem Placed.gaps_of_afterRounds :
    ∀ {tips : List Nat} {rpcs : List (Nat → CheckpointRpc)} {tip : Nat}
      {s : CheckpointSynchronizer}, Placed chain tip tip s →
      Set.InjOn btc.blockHash {h | h ∈ chain.headers} →
      List.Forall₂ (AnswersFrom chain) tips rpcs → (tip :: tips).IsChain (· ≤ ·) →
      (∀ n, (afterRounds btc s (rpcs.take n)).checkpointsChain.checkpoints ≠ []) →
      (tip :: tips).IsChain (fun a b => b ≤ a + s.checkpointsChain.window.size) := by
  intro tips
  induction tips with
  | nil => exact fun _ _ _ _ _ => .singleton _
  | cons T tips ih =>
    intro rpcs tip s h hfree hrpcs hmono hkept
    obtain ⟨rpc, rpcs, hrpc, hrest, rfl⟩ := forall₂_cons_left_iff.mp hrpcs
    obtain ⟨hle, hmono⟩ := isChain_cons_cons.mp hmono
    have hround := h.syncRound_cases hfree hrpc le_rfl hle
    split at hround
    case isFalse hgap => exact absurd hround (hkept 1)
    case isTrue hnext =>
      obtain ⟨hplaced, hextends⟩ := hround
      have hgaps := ih hplaced hfree hrest hmono fun n => hkept (n + 1)
      exact isChain_cons_cons.mpr ⟨by omega, hextends.1 ▸ hgaps⟩

theorem strong_isSome_iff : c.strong.isSome = true ↔
    c.window.strong - c.window.start < c.checkpoints.length := by
  rw [BitcoinCheckpointsChain.strong, getByConfirmationDepth_eq _ c.window.contains_strong]
  simp

theorem Extends.strong (h : Extends c c') (hstrong : c.strong.isSome = true) :
    c'.strong.isSome = true := by
  rw [strong_isSome_iff] at hstrong ⊢
  rw [h.1]
  exact Nat.lt_of_lt_of_le hstrong h.2

/-- In every state the chain has checkpoints, and a strong one if there was one to begin
with. -/
def KeptThrough (btc : BitcoinLib) (c : BitcoinCheckpointsChain) (s : CheckpointSynchronizer)
    (rpcs : List (Nat → CheckpointRpc)) : Prop :=
  ∀ n, (afterRounds btc s (rpcs.take n)).checkpointsChain.checkpoints ≠ [] ∧
    (c.strong.isSome = true → (afterRounds btc s (rpcs.take n)).checkpointsChain.strong.isSome = true)

/-- A synchronizer at `tip` whose sync fails at a call, and then rounds against a working node
that only grows: the chain is never emptied and in the end up to date exactly if the failed
sync had pushed as many blocks as the node is then ahead beyond the window, none in
particular, and no two of the rounds are further apart than the window is wide. -/
theorem survives_failure_iff {T₂ : Nat} {tips : List Nat} {rpc₂ : Nat → CheckpointRpc}
    {rpcs : List (Nat → CheckpointRpc)}
    (hfree : Set.InjOn btc.blockHash {h | h ∈ chain.headers}) (h : Follows chain tip s)
    (hne : s.checkpointsChain.checkpoints ≠ []) (hrpc : BreaksAt chain T broken rpc)
    {e procedure : String}
    (hfail : (syncNewBlocks btc rpc s).1 = .error (.syncRpcError e procedure))
    (hrpcs : List.Forall₂ (AnswersFrom chain) (T₂ :: tips) (rpc₂ :: rpcs))
    (hgrows : (tip :: T :: T₂ :: tips).IsChain (· ≤ ·)) :
    KeptThrough btc s.checkpointsChain (syncRound btc s rpc).2 (rpc₂ :: rpcs) ∧
        Follows chain ((T₂ :: tips).getLast (List.cons_ne_nil _ _))
          (afterRounds btc (syncRound btc s rpc).2 (rpc₂ :: rpcs)) ↔
      T₂ - (tip + s.checkpointsChain.window.size) = (broken - 1) / 2 ∧
        (T₂ :: tips).IsChain (fun a b => b ≤ a + s.checkpointsChain.window.size) := by
  obtain ⟨hle, hgrows⟩ := isChain_cons_cons.mp hgrows
  obtain ⟨hle₂, hmono⟩ := isChain_cons_cons.mp hgrows
  obtain ⟨hrpc₂, hrest⟩ := forall₂_cons.mp hrpcs
  obtain ⟨hbroken, hbound, hextends⟩ := (h.placed hne).syncNewBlocks_breaks hfree hrpc hle hfail
  have hround : (syncRound btc s rpc).2 = (syncNewBlocks btc rpc s).2 := by
    rw [syncRound, hfail]
    rfl
  rw [hround]
  have hsecond := hbroken.syncRound_cases hfree hrpc₂ (Nat.le_add_right _ _) (hbound.trans hle₂)
  rw [hextends.1] at hsecond
  constructor
  · intro ⟨hkept, _⟩
    split at hsecond
    case isFalse hgap => exact absurd hsecond (hkept 1).1
    case isTrue hnext =>
      obtain ⟨hplaced, hextends₂⟩ := hsecond
      have hgaps := hplaced.gaps_of_afterRounds hfree hrest hmono fun n => (hkept (n + 1)).1
      rw [hextends₂.1, hextends.1] at hgaps
      exact ⟨by omega, hgaps⟩
  · intro ⟨hpushed, hgaps⟩
    rw [if_pos (by omega)] at hsecond
    obtain ⟨hplaced, hextends₂⟩ := hsecond
    have hwindow := hextends₂.1.trans hextends.1
    rw [← hwindow] at hgaps
    constructor
    · intro n
      cases n with
      | zero => exact ⟨length_pos_iff.mp hbroken.length_pos, hextends.strong⟩
      | succ n =>
        obtain ⟨hlast, hextends₃⟩ := hplaced.afterRounds_of_gaps hfree
          (forall₂_take n hrest) (hmono.take (n + 1)) (hgaps.take (n + 1))
        exact ⟨length_pos_iff.mp hlast.length_pos,
          ((hextends.trans hextends₂).trans hextends₃).strong⟩
    · exact (hplaced.afterRounds_of_gaps hfree hrest hmono hgaps).1.follows

end

/-! ## On the short chain -/

/-- The depths one and two, one being strong. -/
def youngWindow : ConfirmationWindow where
  start := 1
  strong := 1
  stop := 2
  start_pos := Nat.one_pos
  start_le := Nat.le_refl 1
  le_stop := Nat.le_succ 1

/-- A synchronizer that keeps these depths, at block 1. -/
def youngSynced : CheckpointSynchronizer :=
  (syncNewBlocks chainBitcoin (fun _ => shortRpc 1) ⟨empty youngWindow, none⟩).2

theorem youngSynced_follows : Follows shortChain 1 youngSynced := by
  obtain ⟨synced, s', hsync, hfollows, -⟩ := syncNewBlocks_follows
    (.fresh youngWindow) (shortRpc_answersFrom (by decide : 1 < 4))
    (Nat.zero_le _) (.inl rfl)
  rw [youngSynced, hsync]
  exact hfollows

/-- The node at block 3, one of whose calls fails. -/
def brokenRpc (broken n : Nat) : CheckpointRpc :=
  if n = broken then
    ⟨.error "timeout", fun _ => .error "timeout", fun _ => .error "timeout"⟩
  else shortRpc 3

theorem brokenRpc_breaksAt (broken : Nat) : BreaksAt shortChain 3 broken (brokenRpc broken) where
  still := ⟨fun _ => shortRpc 3, shortRpc_answersFrom (by decide), fun n hn => if_neg (by omega)⟩
  getBlockCount := ⟨"timeout", by simp [brokenRpc]⟩
  getBlockHash _ := ⟨"timeout", by simp [brokenRpc]⟩
  getBlockHeader _ := ⟨"timeout", by simp [brokenRpc]⟩

/-- The first call for a block fails, and the next sync has both new blocks. -/
theorem failure_before_push :
    KeptThrough chainBitcoin youngSynced.checkpointsChain
        (syncRound chainBitcoin youngSynced (brokenRpc 1)).2 [fun _ => shortRpc 3] ∧
      Follows shortChain 3 (afterRounds chainBitcoin
        (syncRound chainBitcoin youngSynced (brokenRpc 1)).2 [fun _ => shortRpc 3]) := by
  have hne : youngSynced.checkpointsChain.checkpoints ≠ [] := by decide +kernel
  have hfail : (syncNewBlocks chainBitcoin (brokenRpc 1) youngSynced).1 =
      .error (.syncRpcError "timeout" "get_block_hash") := by decide +kernel
  have hsize : youngSynced.checkpointsChain.window.size = 2 := by decide +kernel
  have hrpcs : List.Forall₂ (AnswersFrom shortChain) [3] [fun _ => shortRpc 3] :=
    .cons (shortRpc_answersFrom (by decide)) .nil
  refine (survives_failure_iff shortChain_injOn youngSynced_follows hne (brokenRpc_breaksAt 1)
    hfail hrpcs (by decide)).mpr ⟨?_, .singleton _⟩
  rw [hsize]

/-- The first call for the second block fails: the next sync against the working node empties
the chain, which had a strong checkpoint. -/
theorem failure_after_push :
    Follows shortChain 1 youngSynced ∧ BreaksAt shortChain 3 3 (brokenRpc 3) ∧
    AnswersFrom shortChain 3 (fun _ => shortRpc 3) ∧
    youngSynced.checkpointsChain.strong.isSome = true ∧
    (syncRound chainBitcoin youngSynced (brokenRpc 3)).1 =
      .error (.syncRpcError "timeout" "get_block_hash") ∧
    (afterRounds chainBitcoin (syncRound chainBitcoin youngSynced (brokenRpc 3)).2
      [fun _ => shortRpc 3]).checkpointsChain.checkpoints = [] ∧
    (afterRounds chainBitcoin (syncRound chainBitcoin youngSynced (brokenRpc 3)).2
      [fun _ => shortRpc 3]).checkpointsChain.strong = none :=
  ⟨youngSynced_follows, brokenRpc_breaksAt 3, shortRpc_answersFrom (by decide),
    by decide +kernel, by decide +kernel, by decide +kernel, by decide +kernel⟩

end Macbeth
