import Macbeth.Bitcoin.Types
import Macbeth.Lib.HashChain

/-!
# The chain of bitcoin checkpoints (`botanix-bitcoin-checkpoint/src/chain.rs`)

Each node keeps the headers of the bitcoin blocks whose number of confirmations lies in a
window around the strong depth.  The parameters of an accepted configuration make up a
`ConfirmationWindow`; a `BitcoinCheckpointsChain` carries the facts `push` maintains: it is
no longer than its window, and every checkpoint names the hash of the one before it.
-/

namespace Macbeth

open List

/-- `BitcoinCheckpoint`: a header, its height, and its hash kept for comparison. -/
structure BitcoinCheckpoint where
  header : Header
  height : BitVec 32
  hash : BlockHash
  deriving DecidableEq, Repr

/-- `BitcoinCheckpoint::new`, with the height cast to `u32`. -/
def BitcoinCheckpoint.new (btc : BitcoinLib) (header : Header) (height : Nat) :
    BitcoinCheckpoint :=
  ⟨header, BitVec.ofNat 32 height, btc.blockHash header⟩

/-- `BitcoinCheckpointError`. -/
inductive BitcoinCheckpointError where
  | staleBlockAdded (expectedPrevBlockHash receivedPrevBlockHash : BlockHash)
  | syncRpcError (error : String) (procedureName : String)
  | zeroStrongConfirmationDepth
  | weakCheckpointsCountTooBig (weakCheckpointsCount strongConfirmationDepth : Nat)
  | chainParamsTooLarge
      (strongConfirmationDepth historicalCheckpointsCount weakCheckpointsCount : Nat)
  deriving DecidableEq, Repr

/-- The range of confirmation depths to keep, both ends included, around the strong one. -/
structure ConfirmationWindow where
  start : Nat
  strong : Nat
  stop : Nat
  start_pos : 0 < start
  start_le : start ≤ strong
  le_stop : strong ≤ stop
  deriving DecidableEq, Repr

/-- `confirmation_window_size`. -/
def ConfirmationWindow.size (w : ConfirmationWindow) : Nat := w.stop - w.start + 1

/-- A depth that `confirmation_window.contains` accepts. -/
def ConfirmationWindow.Contains (w : ConfirmationWindow) (depth : Nat) : Prop :=
  w.start ≤ depth ∧ depth ≤ w.stop

instance (w : ConfirmationWindow) (depth : Nat) : Decidable (w.Contains depth) :=
  inferInstanceAs (Decidable (_ ∧ _))

theorem ConfirmationWindow.contains_strong (w : ConfirmationWindow) : w.Contains w.strong :=
  ⟨w.start_le, w.le_stop⟩

/-- The checkpoints, the oldest first. -/
structure BitcoinCheckpointsChain where
  window : ConfirmationWindow
  checkpoints : List BitcoinCheckpoint
  length_le : checkpoints.length ≤ window.size
  linked : HashChain.Linked BitcoinCheckpoint.hash (·.header.prevBlockhash) checkpoints
  deriving DecidableEq, Repr

namespace BitcoinCheckpointsChain

/-- An empty chain. -/
def empty (window : ConfirmationWindow) : BitcoinCheckpointsChain :=
  ⟨window, [], Nat.zero_le _, .nil⟩

/-- `try_new`.  The sums are those of `usize`. -/
def tryNew (strongConfirmationDepth historicalCheckpointsCount weakCheckpointsCount : Nat) :
    Except BitcoinCheckpointError BitcoinCheckpointsChain :=
  if hzero : strongConfirmationDepth = 0 then .error .zeroStrongConfirmationDepth
  else if hweak : strongConfirmationDepth ≤ weakCheckpointsCount then
    .error (.weakCheckpointsCountTooBig weakCheckpointsCount strongConfirmationDepth)
  else
    let confirmationsFrom := strongConfirmationDepth - weakCheckpointsCount
    let confirmationsTo := strongConfirmationDepth + historicalCheckpointsCount
    if 2 ^ 64 ≤ confirmationsTo ∨ 2 ^ 64 ≤ confirmationsTo - confirmationsFrom + 1 then
      .error (.chainParamsTooLarge strongConfirmationDepth historicalCheckpointsCount
        weakCheckpointsCount)
    else
      .ok (empty ⟨confirmationsFrom, strongConfirmationDepth, confirmationsTo, by omega, by omega,
        by omega⟩)

variable {chain : BitcoinCheckpointsChain}

/-- The window of an accepted configuration. -/
theorem tryNew_eq_ok {strong historical weak : Nat}
    (h : tryNew strong historical weak = .ok chain) :
    chain.checkpoints = [] ∧ chain.window.strong = strong ∧ chain.window.start + weak = strong ∧
      chain.window.stop = strong + historical := by
  unfold tryNew at h
  split at h
  · contradiction
  · split at h
    · contradiction
    · dsimp only at h
      split at h
      · contradiction
      · obtain rfl := Except.ok.inj h
        refine ⟨rfl, rfl, ?_, rfl⟩
        show strong - weak + weak = strong
        omega

/-- What `push` keeps of the old checkpoints: all of them, or all but the oldest when the
window is full. -/
def retained (chain : BitcoinCheckpointsChain) : List BitcoinCheckpoint :=
  if chain.checkpoints.length = chain.window.size then chain.checkpoints.tail
  else chain.checkpoints

theorem retained_suffix (chain : BitcoinCheckpointsChain) :
    chain.retained <:+ chain.checkpoints := by
  unfold retained
  split
  · exact tail_suffix _
  · exact suffix_refl _

theorem length_retained_lt (chain : BitcoinCheckpointsChain) :
    chain.retained.length < chain.window.size := by
  have hle := chain.length_le
  have hpos : 0 < chain.window.size := Nat.succ_pos _
  unfold retained
  split
  · rw [length_tail]
    omega
  · omega

/-- A checkpoint fits on the newest one. -/
def Fits (chain : BitcoinCheckpointsChain) (checkpoint : BitcoinCheckpoint) : Prop :=
  ∀ recent ∈ chain.checkpoints.getLast?, checkpoint.header.prevBlockhash = recent.hash

variable {checkpoint : BitcoinCheckpoint}

theorem linked_push (h : chain.Fits checkpoint) : HashChain.Linked BitcoinCheckpoint.hash
      (·.header.prevBlockhash) (chain.retained ++ [checkpoint]) := by
  obtain ⟨dropped, hsplit⟩ := chain.retained_suffix
  have hold : HashChain.Linked BitcoinCheckpoint.hash (·.header.prevBlockhash) chain.retained :=
    (hsplit ▸ chain.linked).right_of_append
  refine isChain_append.mpr ⟨hold, .singleton _, ?_⟩
  intro recent hrecent new hnew
  obtain rfl : checkpoint = new := by simpa using hnew
  refine h recent ?_
  rw [← hsplit, getLast?_append, Option.mem_def, Option.mem_def.mp hrecent]
  rfl

/-- `push`: the new checkpoint must name the hash of the newest one. -/
def push (chain : BitcoinCheckpointsChain) (checkpoint : BitcoinCheckpoint) :
    Except BitcoinCheckpointError BitcoinCheckpointsChain :=
  match h : chain.checkpoints.getLast? with
  | some recent =>
    if hprev : checkpoint.header.prevBlockhash = recent.hash then
      .ok ⟨chain.window, chain.retained ++ [checkpoint], by
        simpa using chain.length_retained_lt, linked_push (by simpa [Fits, h] using hprev)⟩
    else .error (.staleBlockAdded recent.hash checkpoint.header.prevBlockhash)
  | none =>
    .ok ⟨chain.window, chain.retained ++ [checkpoint], by
      simpa using chain.length_retained_lt, linked_push (by simp [Fits, h])⟩

/-- `contains_by_hash`. -/
def containsByHash (chain : BitcoinCheckpointsChain) (hash : BlockHash) : Bool :=
  chain.checkpoints.any fun checkpoint => checkpoint.hash = hash

/-- `get_by_confirmation_depth`. -/
def getByConfirmationDepth (chain : BitcoinCheckpointsChain) (depth : Nat) :
    Option BitcoinCheckpoint :=
  if ¬ chain.window.Contains depth then none
  else if chain.checkpoints.isEmpty then none
  else
    let lowestConfirmationDepth := chain.window.start
    let indexFromBack := depth - lowestConfirmationDepth
    if chain.checkpoints.length ≤ indexFromBack then none
    else chain.checkpoints[chain.checkpoints.length - 1 - indexFromBack]?

/-- `strong`. -/
def strong (chain : BitcoinCheckpointsChain) : Option BitcoinCheckpoint :=
  chain.getByConfirmationDepth chain.window.strong

/-- `size_limit`. -/
def sizeLimit (chain : BitcoinCheckpointsChain) : Nat := chain.window.size

/-- `clear`. -/
def clear (chain : BitcoinCheckpointsChain) : BitcoinCheckpointsChain := empty chain.window

/-- `recent_height`. -/
def recentHeight (chain : BitcoinCheckpointsChain) : Option (BitVec 32) :=
  chain.checkpoints.getLast?.map BitcoinCheckpoint.height

/-- `lowest_confirmation_depth`. -/
def lowestConfirmationDepth (chain : BitcoinCheckpointsChain) : Nat := chain.window.start

/-- A push succeeds exactly when the checkpoint fits. -/
theorem push_eq_ok {chain' : BitcoinCheckpointsChain} :
    chain.push checkpoint = .ok chain' ↔ chain.Fits checkpoint ∧ chain'.window = chain.window ∧
      chain'.checkpoints = chain.retained ++ [checkpoint] := by
  have hext : ∀ c : BitcoinCheckpointsChain, c = chain' ↔
      chain'.window = c.window ∧ chain'.checkpoints = c.checkpoints := by
    rintro ⟨window, checkpoints, _, _⟩
    cases chain'
    simp only [mk.injEq]
    exact and_congr eq_comm eq_comm
  unfold push Fits
  split
  case h_1 recent hlast =>
    by_cases hprev : checkpoint.header.prevBlockhash = recent.hash <;> simp [hprev, hext, hlast]
  case h_2 hlast => simp [hext, hlast]

theorem exists_push (h : chain.Fits checkpoint) : ∃ chain', chain.push checkpoint = .ok chain' :=
  ⟨⟨chain.window, _, by simpa using chain.length_retained_lt, linked_push h⟩,
    push_eq_ok.mpr ⟨h, rfl, rfl⟩⟩

/-- A checkpoint that does not fit is stale. -/
theorem push_eq_error (h : ¬ chain.Fits checkpoint) :
    ∃ expected received, chain.push checkpoint = .error (.staleBlockAdded expected received) := by
  unfold push
  split
  case h_1 recent hlast =>
    by_cases hprev : checkpoint.header.prevBlockhash = recent.hash
    · exact absurd (by simp [Fits, hlast, hprev]) h
    · exact ⟨recent.hash, checkpoint.header.prevBlockhash, dif_neg hprev⟩
  case h_2 hlast => exact absurd (by simp [Fits, hlast]) h

/-- The lookup by depth counts from the newest checkpoint. -/
theorem getByConfirmationDepth_eq (chain : BitcoinCheckpointsChain) {depth : Nat}
    (h : chain.window.Contains depth) :
    chain.getByConfirmationDepth depth = chain.checkpoints.reverse[depth - chain.window.start]? := by
  unfold getByConfirmationDepth
  rw [if_neg (not_not.mpr h)]
  by_cases hlt : depth - chain.window.start < chain.checkpoints.length
  · have hne : ¬ chain.checkpoints.isEmpty := by
      rw [isEmpty_iff_length_eq_zero]
      omega
    rw [if_neg hne, if_neg (Nat.not_le.mpr hlt), getElem?_reverse hlt]
  · rw [getElem?_eq_none (by simpa using hlt)]
    split
    · rfl
    · exact if_pos (Nat.not_lt.mp hlt)

theorem containsByHash_eq_true {hash : BlockHash} :
    chain.containsByHash hash = true ↔ ∃ c ∈ chain.checkpoints.reverse, c.hash = hash := by
  simp [containsByHash]

end BitcoinCheckpointsChain

end Macbeth
