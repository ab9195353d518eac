import Macbeth.Abci.ActivationManager
import Macbeth.Lib.Latest

/-!
# Votes over a chain of finalized blocks

A node feeds every finalized block to its activation manager.  As long as the upgrade is
tracked, the store holds the latest vote of every proposer of the last blocks, as many as the
retention period says (`lookup_votes`).  A block of the upgrade's version goes through exactly
when the node is compliant, the target height is reached and both percentages, rounded up,
reach the quorum (`upgrades_iff`).

The minimum count of validators only enters as a lower bound of the denominator.  So fewer
validators can do, unless the quorum is so high that one missing vote is too many
(`participation_iff`).
-/

namespace Macbeth

open Outcome List Option FinMap

/-- What a finalized block tells the activation manager. -/
structure FinalizedBlock where
  version : RuntimeVersion
  proposer : Address
  vote : Option NetworkUpgradePayload
  deriving DecidableEq, Repr

namespace ActivationManager

/-- A manager as it is configured at start-up, with no votes. -/
def configured (retention : BitVec 64) (active : RuntimeVersion) (upgrade : NetworkUpgrade) :
    ActivationManager := ⟨∅, retention, active, some upgrade⟩

/-- The manager after a chain of blocks, the newest first, the oldest at height `first`.  A
dead end stops the node. -/
def afterBlocks (m : ActivationManager) (first : Nat) :
    List FinalizedBlock → Option ActivationManager
  | [] => some m
  | b :: older => (m.afterBlocks first older).bind fun m =>
    match m.onFinalizeBlock b.version (BitVec.ofNat 64 (first + older.length)) b.proposer b.vote with
    | (.finalize _, m) => some m
    | (.rejectBlockDeadEnd _, _) => none

/-! ## What the store holds -/

/-- The votes of a chain that count for an upgrade. -/
def ballots (upgrade : NetworkUpgrade) (chain : List FinalizedBlock) : List (Address × Vote × Bool) :=
  chain.map fun b => (b.proposer, countedVote upgrade b.vote)

/-- The lowest height whose votes are retained after a chain of blocks. -/
def expiry (retention : BitVec 64) (first : Nat) (chain : List FinalizedBlock) : Nat :=
  first + chain.length - 1 - retention.toNat

/-- The latest vote of a validator on a chain, if it is retained. -/
def heldVote (retention : BitVec 64) (upgrade : NetworkUpgrade) (first : Nat)
    (chain : List FinalizedBlock) (p : Address) : Option VoteEntry :=
  ((Log.latest first (ballots upgrade chain) p).filter fun x =>
    decide (expiry retention first chain ≤ x.1)).map fun x => ⟨x.2.1, x.2.2, BitVec.ofNat 64 x.1⟩

section
variable {m m' : ActivationManager} {upgrade : NetworkUpgrade} {height : BitVec 64}
variable {p q : Address} {vote : Option NetworkUpgradePayload}

theorem toNat_ofNat_of_lt {a : Nat} (h : a < 2 ^ 64) : (BitVec.ofNat 64 a).toNat = a := by
  rw [BitVec.toNat_ofNat, Nat.mod_eq_of_lt h]

theorem saturatingSub_le_iff {a i : Nat} (retention : BitVec 64) (ha : a < 2 ^ 64)
    (hi : i < 2 ^ 64) :
    saturatingSub (BitVec.ofNat 64 a) retention ≤ BitVec.ofNat 64 i ↔ a - retention.toNat ≤ i := by
  have ha' : (BitVec.ofNat 64 a).toNat = a := toNat_ofNat_of_lt ha
  have hi' : (BitVec.ofNat 64 i).toNat = i := toNat_ofNat_of_lt hi
  unfold saturatingSub
  split
  · next hle =>
    rw [BitVec.le_def, hi', BitVec.toNat_sub_of_le hle, ha']
  · next hlt =>
    rw [BitVec.not_le, BitVec.lt_def, ha'] at hlt
    rw [BitVec.le_def, hi']
    simp
    omega

/-- A vote that is newer than the one in the store replaces it. -/
theorem lookup_trackVote (hupgrade : m.upgrade = some upgrade)
    (hnew : ∀ e, m.votes.lookup p = some e → e.botanixHeight < height) :
    (m.trackVote height p vote).votes.lookup q =
      (if q = p then some ⟨(countedVote upgrade vote).1, (countedVote upgrade vote).2, height⟩
        else m.votes.lookup q).filter fun e =>
          decide (e.botanixHeight ≥ saturatingSub height m.voteRetentionPeriod) := by
  have hinsert : ∀ entry : VoteEntry, entry.botanixHeight = height →
      m.votes.updateUpgradingVote p entry = m.votes.insert p entry := by
    intro entry hentry
    unfold VoteWatcher.updateUpgradingVote
    split
    · next old hold =>
      rw [if_neg]
      rw [hentry, ge_iff_le, BitVec.not_le]
      exact hnew old hold
    · rfl
  simp only [trackVote, hupgrade, VoteWatcher.removeUpgradingVotes]
  rw [lookup_filter, hinsert _ rfl, lookup_insert_eq]

@[simp] theorem voteRetentionPeriod_trackVote :
    (m.trackVote height p vote).voteRetentionPeriod = m.voteRetentionPeriod := by
  unfold trackVote
  split <;> rfl

/-- A block that is finalized is of no newer version than the active one and only its vote is
tracked, or it activates the upgrade. -/
theorem finalize_cases {version finalized : RuntimeVersion}
    (h : m.onFinalizeBlock version height p vote = (.finalize finalized, m')) :
    (version.le m.activeVersion = true ∧ m' = m.trackVote height p vote) ∨
      ∃ upgrade, m.upgrade = some upgrade ∧ version = upgrade.version ∧
        version.le m.activeVersion = false ∧ upgrade.isCompliant = true ∧ m'.upgrade = none ∧
        m'.activeVersion = upgrade.version ∧ m'.voteRetentionPeriod = m.voteRetentionPeriod := by
  simp only [onFinalizeBlock, activeVersion_trackVote, upgrade_trackVote] at h
  split at h
  · next hle =>
    obtain ⟨-, rfl⟩ := Prod.mk.inj h
    exact .inl ⟨hle, rfl⟩
  · next hle =>
    split at h
    · cases (Prod.mk.inj h).1
    · next upgrade hupgrade =>
      split at h
      · cases (Prod.mk.inj h).1
      · next hversion =>
        split at h
        · cases (Prod.mk.inj h).1
        · next hcompliant =>
          obtain ⟨-, rfl⟩ := Prod.mk.inj h
          exact .inr ⟨upgrade, hupgrade, not_not.mp hversion, by simpa using hle,
            by simpa using hcompliant, rfl, rfl, voteRetentionPeriod_trackVote⟩

theorem afterBlocks_cons {first : Nat} {b : FinalizedBlock} {older : List FinalizedBlock}
    (h : m.afterBlocks first (b :: older) = some m') :
    ∃ m₁ finalized, m.afterBlocks first older = some m₁ ∧
      m₁.onFinalizeBlock b.version (BitVec.ofNat 64 (first + older.length)) b.proposer b.vote =
        (.finalize finalized, m') := by
  obtain ⟨m₁, hm₁, hstep⟩ := bind_eq_some_iff.mp h
  split at hstep
  · next finalized m'' hfinalize =>
    obtain rfl := some.inj hstep
    exact ⟨m₁, finalized, hm₁, hfinalize⟩
  · cases hstep

end

section
variable {retention : BitVec 64} {active : RuntimeVersion} {upgrade : NetworkUpgrade}
variable {first : Nat} {chain : List FinalizedBlock} {m : ActivationManager}

/-- A manager that still tracks the upgrade after a chain of blocks. -/
structure Tracking (retention : BitVec 64) (active : RuntimeVersion) (upgrade : NetworkUpgrade)
    (first : Nat) (chain : List FinalizedBlock) (m : ActivationManager) : Prop where
  after : (configured retention active upgrade).afterBlocks first chain = some m
  tracked : m.upgrade = some upgrade
  bounded : first + chain.length ≤ 2 ^ 64

/-- One block back. -/
theorem Tracking.older {b : FinalizedBlock} {older : List FinalizedBlock}
    (h : Tracking retention active upgrade first (b :: older) m) :
    ∃ m', Tracking retention active upgrade first older m' ∧
      m = m'.trackVote (BitVec.ofNat 64 (first + older.length)) b.proposer b.vote := by
  obtain ⟨m', finalized, hm', hfinalize⟩ := afterBlocks_cons h.after
  have hbounded := h.bounded
  rw [length_cons] at hbounded
  rcases finalize_cases hfinalize with ⟨-, rfl⟩ | ⟨_, -, -, -, -, hnone, -, -⟩
  · exact ⟨m', ⟨hm', by simpa using h.tracked, by omega⟩, rfl⟩
  · rw [h.tracked] at hnone
    cases hnone

theorem Tracking.settings (h : Tracking retention active upgrade first chain m) :
    m.activeVersion = active ∧ m.voteRetentionPeriod = retention := by
  induction chain generalizing m with
  | nil =>
    obtain rfl := some.inj h.after
    exact ⟨rfl, rfl⟩
  | cons b older ih =>
    obtain ⟨m', hm', rfl⟩ := h.older
    simpa using ih hm'

/-- The store holds the latest vote of every proposer within the retention period. -/
theorem lookup_votes (h : Tracking retention active upgrade first chain m) (p : Address) :
    m.votes.lookup p = heldVote retention upgrade first chain p := by
  induction chain generalizing m p with
  | nil =>
    obtain rfl := some.inj h.after
    rfl
  | cons b older ih =>
    obtain ⟨m', hm', rfl⟩ := h.older
    have hheight : first + older.length < 2 ^ 64 := by
      have := h.bounded
      rw [length_cons] at this
      omega
    have hlength : (ballots upgrade older).length = older.length := length_map _
    have hnew : ∀ e, m'.votes.lookup b.proposer = some e →
        e.botanixHeight < BitVec.ofNat 64 (first + older.length) := by
      intro e he
      rw [ih hm', heldVote] at he
      obtain ⟨x, hx, rfl⟩ := map_eq_some_iff.mp he
      have hlt := (Log.latest_bounds (filter_eq_some_iff.mp hx).1).2
      rw [hlength] at hlt
      rw [BitVec.lt_def, toNat_ofNat_of_lt hheight, toNat_ofNat_of_lt (by omega)]
      exact hlt
    rw [lookup_trackVote hm'.tracked hnew, hm'.settings.2, ih hm']
    simp only [heldVote, ballots, map_cons, Log.latest, expiry, length_cons,
      length_map, ← Nat.add_assoc, Nat.add_sub_cancel]
    split
    · -- the proposer's vote is the newest of all
      have hkept := (saturatingSub_le_iff retention hheight hheight).mpr (by omega)
      simp [Option.filter, hkept]
    · -- the vote of another validator stays unless it expires now
      cases hlatest : Log.latest first (ballots upgrade older) p with
      | none =>
        rw [ballots] at hlatest
        simp [hlatest]
      | some x =>
        have hlt := (Log.latest_bounds hlatest).2
        have hkept := saturatingSub_le_iff retention hheight (i := x.1) (by omega)
        rw [ballots] at hlatest
        by_cases hnow : first + older.length - retention.toNat ≤ x.1
        · have hold : first + older.length - 1 - retention.toNat ≤ x.1 := by omega
          simp only [hlatest, Option.filter, hold, decide_true, if_true, Option.map_some,
            ge_iff_le, hkept.mpr hnow, hnow]
        · have hgone := mt hkept.mp hnow
          by_cases hold : first + older.length - 1 - retention.toNat ≤ x.1
          · simp [hlatest, Option.filter, hold, hgone, hnow]
          · simp [hlatest, Option.filter, hold, hnow]

end

/-! ## When an upgrade goes through -/

/-- The validators whose stored vote passes a test. -/
def countVotes (m : ActivationManager) (test : VoteEntry → Bool) : Nat :=
  ((FinMap.values m.votes).filter test).length

/-- What the percentages are taken of: the votes, or the minimum count if that is more. -/
def totalVotes (m : ActivationManager) (upgrade : NetworkUpgrade) : Nat :=
  max (FinMap.values m.votes).length upgrade.minValidatorCount

/-- `on_prepare_proposal` proposes, or `on_process_proposal` accepts, a block of the upgrade's
version. -/
def Upgrades (m : ActivationManager) (upgrade : NetworkUpgrade) (height : BitVec 64) : Prop :=
  (∃ decision, m.onPrepareProposal height = ok decision ∧ decision.version = upgrade.version) ∨
    ∃ conditions, m.onProcessProposal height upgrade.version =
      ok (.process upgrade.version conditions)

section
variable {m : ActivationManager} {upgrade : NetworkUpgrade} {height : BitVec 64}

/-- A percentage that is rounded up reaches a quorum when it is less than one point short. -/
theorem quorum_le_percent_iff {quorum received total : Nat} (htotal : 1 ≤ total) :
    quorum ≤ (received * 100 + total - 1) / total ↔ quorum * total < 100 * received + total := by
  rw [Nat.le_div_iff_mul_le htotal]
  omega

theorem validateConditions_eq (m : ActivationManager) (height : BitVec 64)
    (hcount : 1 ≤ upgrade.minValidatorCount) :
    m.validateConditions upgrade height = ok
      ⟨upgrade.isCompliant,
        upgrade.quorum * m.totalVotes upgrade <
          100 * m.countVotes (fun e => e.vote = .aye) + m.totalVotes upgrade,
        upgrade.quorum * m.totalVotes upgrade <
          100 * m.countVotes (fun e => e.isCompliant) + m.totalVotes upgrade,
        height ≥ upgrade.targetHeight⟩ := by
  have htotal : 1 ≤ m.totalVotes upgrade := le_max_of_le_right hcount
  have hne : m.totalVotes upgrade ≠ 0 := by omega
  unfold validateConditions VoteWatcher.getUpgradingApprovalRateAyes
    VoteWatcher.getUpgradingApprovalRateCompliance VoteWatcher.approvalRate
  simp only [← quorum_le_percent_iff htotal]
  simp only [totalVotes] at hne
  simp only [totalVotes, countVotes, hne, if_false, ok_bind, pure_eq_ok, ge_iff_le]
  congr

/-- A block of the upgrade's version goes through exactly under the four conditions. -/
theorem upgrades_iff (hupgrade : m.upgrade = some upgrade)
    (hversion : upgrade.version ≠ m.activeVersion) (hcount : 1 ≤ upgrade.minValidatorCount) :
    m.Upgrades upgrade height ↔ upgrade.isCompliant = true ∧
      upgrade.quorum * m.totalVotes upgrade <
        100 * m.countVotes (fun e => e.vote = .aye) + m.totalVotes upgrade ∧
      upgrade.quorum * m.totalVotes upgrade <
        100 * m.countVotes (fun e => e.isCompliant) + m.totalVotes upgrade ∧
      upgrade.targetHeight ≤ height := by
  have hconditions := validateConditions_eq m height hcount
  constructor
  · rintro (⟨decision, hdecision, heq⟩ | ⟨conditions, hprocess⟩)
    · simp only [onPrepareProposal, hupgrade, hconditions, ok_bind, pure_eq_ok] at hdecision
      split at hdecision
      · cases hdecision
      · obtain rfl := ok.inj hdecision
        dsimp only at heq
        split at heq
        · next hpass => simpa [ConditionList.allPassing, and_assoc] using hpass
        · exact absurd heq.symm hversion
    · simp only [onProcessProposal, hupgrade, hconditions, ok_bind, pure_eq_ok] at hprocess
      split at hprocess
      · next hpass => simpa [ConditionList.allPassing, and_assoc] using hpass
      · simp [processActive, hversion] at hprocess
  · intro h
    right
    simp only [onProcessProposal, hupgrade, hconditions, ok_bind, pure_eq_ok]
    rw [if_pos]
    · exact ⟨_, rfl⟩
    · simpa [ConditionList.allPassing, and_assoc] using h

end

/-! ## The quorum -/

/-- An upgrade that goes through is less than one percentage point short of its quorum, in
votes and in compliant validators. -/
theorem approval_of_upgrades (m : ActivationManager) (upgrade : NetworkUpgrade)
    (height : BitVec 64) (hupgrade : m.upgrade = some upgrade)
    (hversion : upgrade.version ≠ m.activeVersion) (hcount : 1 ≤ upgrade.minValidatorCount)
    (h : m.Upgrades upgrade height) :
    upgrade.quorum * m.totalVotes upgrade <
        100 * m.countVotes (fun e => e.vote = .aye) + m.totalVotes upgrade ∧
      upgrade.quorum * m.totalVotes upgrade <
        100 * m.countVotes (fun e => e.isCompliant) + m.totalVotes upgrade := by
  obtain ⟨-, hayes, hcompliant, -⟩ := (upgrades_iff hupgrade hversion hcount).mp h
  exact ⟨hayes, hcompliant⟩

/-- An upgrade from version 0.2 to 0.3 with a quorum of 67 percent. -/
def sampleUpgrade : NetworkUpgrade := ⟨⟨0, 3⟩, 67, 3, 1, .aye, true⟩

/-- A block of version 0.2 with a vote on it. -/
def sampleBlock (proposer : Address) (vote : Vote) (isCompliant : Bool) : FinalizedBlock :=
  ⟨⟨0, 2⟩, proposer, some ⟨⟨0, 3⟩, vote, isCompliant⟩⟩

/-- Two validators are for the upgrade, one is against it. -/
def twoOfThree : List FinalizedBlock :=
  [sampleBlock 3 .nay false, sampleBlock 2 .aye true, sampleBlock 1 .aye true]

/-- 100 * 2 is less than 67 * 3, but two of three is 67 percent rounded up. -/
theorem twoOfThree_upgrades : ∃ m,
    (configured 100 ⟨0, 2⟩ sampleUpgrade).afterBlocks 1 twoOfThree = some m ∧
      m.upgrade = some sampleUpgrade ∧ sampleUpgrade.version ≠ m.activeVersion ∧
      m.Upgrades sampleUpgrade 4 ∧
      ¬ sampleUpgrade.quorum * m.totalVotes sampleUpgrade ≤
        100 * m.countVotes (fun e => e.vote = .aye) :=
  ⟨_, rfl, rfl, by decide, .inr ⟨_, rfl⟩, by decide +kernel⟩

theorem twoOfThree_approval : ∃ m,
    (configured 100 ⟨0, 2⟩ sampleUpgrade).afterBlocks 1 twoOfThree = some m ∧
      67 * m.totalVotes sampleUpgrade <
        100 * m.countVotes (fun e => e.vote = .aye) + m.totalVotes sampleUpgrade :=
  ⟨_, rfl, (approval_of_upgrades _ sampleUpgrade 4 rfl (by decide) (by decide)
    (.inr ⟨_, rfl⟩)).1⟩

/-! ## Participation -/

/-- The stored votes that have not expired when a block was the last one finalized. -/
def unexpiredVotes (m : ActivationManager) (last : BitVec 64) : List VoteEntry :=
  (FinMap.values m.votes).filter fun e =>
    decide (saturatingSub last m.voteRetentionPeriod ≤ e.botanixHeight)

section
variable {retention : BitVec 64} {active : RuntimeVersion} {upgrade : NetworkUpgrade}
variable {first : Nat} {chain : List FinalizedBlock} {m : ActivationManager}

/-- A stored vote is the latest of a validator, and retained. -/
theorem Tracking.exists_latest (h : Tracking retention active upgrade first chain m) {p : Address}
    {e : VoteEntry} (he : m.votes.lookup p = some e) :
    ∃ i v, Log.latest first (ballots upgrade chain) p = some (i, v) ∧
      expiry retention first chain ≤ i ∧ e = ⟨v.1, v.2, BitVec.ofNat 64 i⟩ := by
  rw [lookup_votes h, heldVote] at he
  obtain ⟨⟨i, v⟩, hx, rfl⟩ := map_eq_some_iff.mp he
  obtain ⟨hlatest, hkept⟩ := filter_eq_some_iff.mp hx
  exact ⟨i, v, hlatest, by simpa using hkept, rfl⟩

/-- No more votes are stored than blocks are retained, or than there are blocks. -/
theorem Tracking.length_votes_le (h : Tracking retention active upgrade first chain m) :
    (FinMap.values m.votes).length ≤ retention.toNat + 1 ∧
      (FinMap.values m.votes).length ≤ chain.length := by
  have hlength : (ballots upgrade chain).length = chain.length := length_map _
  have hlatest : ∀ p ∈ m.votes.keys.toFinset, ∃ i v,
      Log.latest first (ballots upgrade chain) p = some (i, v) ∧
        max first (expiry retention first chain) ≤ i := by
    intro p hp
    obtain ⟨e, he⟩ := mem_iff_lookup.mp (mem_toFinset.mp hp)
    obtain ⟨i, v, hlatest, hkept, -⟩ := h.exists_latest he
    exact ⟨i, v, hlatest, max_le (Log.latest_bounds hlatest).1 hkept⟩
  have hcard := Log.card_le_of_latest hlatest
  rw [length_values]
  rw [hlength] at hcard
  unfold expiry at hcard
  omega

/-- No stored vote has expired. -/
theorem Tracking.unexpiredVotes_eq (h : Tracking retention active upgrade first chain m) :
    m.unexpiredVotes (BitVec.ofNat 64 (first + chain.length - 1)) = FinMap.values m.votes := by
  refine filter_eq_self.mpr fun e he => ?_
  obtain ⟨p, hp⟩ := mem_values.mp he
  obtain ⟨i, v, hlatest, hkept, rfl⟩ := h.exists_latest hp
  have hi := (Log.latest_bounds hlatest).2
  rw [ballots, length_map] at hi
  have hbounded := h.bounded
  rw [h.settings.2]
  exact decide_eq_true ((saturatingSub_le_iff retention (by omega) (by omega)).mpr hkept)

theorem countVotes_le (m : ActivationManager) (test : VoteEntry → Bool) :
    m.countVotes test ≤ (FinMap.values m.votes).length := length_filter_le _ _

/-- Blocks of the active version are finalized and leave the upgrade tracked. -/
theorem exists_tracking (hbounded : first + chain.length ≤ 2 ^ 64)
    (hversions : ∀ b ∈ chain, b.version.le active = true) :
    ∃ m, Tracking retention active upgrade first chain m := by
  induction chain with
  | nil => exact ⟨_, rfl, rfl, hbounded⟩
  | cons b older ih =>
    rw [length_cons] at hbounded
    obtain ⟨m, hm⟩ := ih (by omega) fun b' hb' => hversions b' (mem_cons_of_mem b hb')
    have hle := hversions b mem_cons_self
    refine ⟨m.trackVote (BitVec.ofNat 64 (first + older.length)) b.proposer b.vote, ?_, ?_, ?_⟩
    · rw [afterBlocks, hm.after]
      simp [onFinalizeBlock, hm.settings.1, hle]
    · rw [upgrade_trackVote, hm.tracked]
    · rw [length_cons]
      omega

/-- Blocks of so many validators, all for the upgrade. -/
def unanimous (active : RuntimeVersion) (upgrade : NetworkUpgrade) (count : Nat) :
    List FinalizedBlock :=
  (List.range count).map fun i =>
    ⟨active, BitVec.ofNat 160 i, some ⟨upgrade.version, .aye, true⟩⟩

theorem mem_ballots_unanimous {count : Nat} {p : Address} {v : Vote × Bool} :
    (p, v) ∈ ballots upgrade (unanimous active upgrade count) ↔
      ∃ i < count, BitVec.ofNat 160 i = p ∧ (.aye, true) = v := by
  simp [ballots, unanimous, countedVote]

/-- All of these votes are stored if as many blocks are retained. -/
theorem length_votes_unanimous {count : Nat} (hcount : count < 2 ^ 64)
    (hretained : count ≤ retention.toNat + 1)
    (h : Tracking retention active upgrade first (unanimous active upgrade count) m) :
    (FinMap.values m.votes).length = count ∧
      ∀ e ∈ FinMap.values m.votes, e.vote = .aye ∧ e.isCompliant = true := by
  have hlength : (unanimous active upgrade count).length = count := by simp [unanimous]
  constructor
  · have hle := h.length_votes_le.2
    rw [hlength] at hle
    refine le_antisymm hle ?_
    have hsub : (Finset.range count).image (BitVec.ofNat 160) ⊆ m.votes.keys.toFinset := by
      intro p hp
      obtain ⟨i, hi, rfl⟩ := Finset.mem_image.mp hp
      have hballot : (BitVec.ofNat 160 i, .aye, true) ∈
          ballots upgrade (unanimous active upgrade count) :=
        mem_ballots_unanimous.mpr ⟨i, Finset.mem_range.mp hi, rfl, rfl⟩
      obtain ⟨x, hx⟩ := Log.exists_latest first hballot
      have hkept : expiry retention first (unanimous active upgrade count) ≤ x.1 := by
        have := (Log.latest_bounds hx).1
        rw [expiry, hlength]
        omega
      refine mem_toFinset.mpr (mem_iff_lookup.mpr
        ⟨⟨x.2.1, x.2.2, BitVec.ofNat 64 x.1⟩, ?_⟩)
      rw [lookup_votes h, heldVote, hx, Option.filter, if_pos (decide_eq_true hkept)]
      rfl
    have hinj : Set.InjOn (BitVec.ofNat 160) (Finset.range count : Set Nat) := by
      intro i hi j hj heq
      have hi := Finset.mem_coe.mp hi
      have hj := Finset.mem_coe.mp hj
      rw [Finset.mem_range] at hi hj
      have := congrArg BitVec.toNat heq
      rwa [BitVec.toNat_ofNat, BitVec.toNat_ofNat, Nat.mod_eq_of_lt (by omega),
        Nat.mod_eq_of_lt (by omega)] at this
    calc count = ((Finset.range count).image (BitVec.ofNat 160)).card := by
          rw [Finset.card_image_of_injOn hinj, Finset.card_range]
      _ ≤ m.votes.keys.toFinset.card := Finset.card_le_card hsub
      _ = (FinMap.values m.votes).length := (length_values _).symm
  · intro e he
    obtain ⟨p, hp⟩ := mem_values.mp he
    obtain ⟨i, v, hlatest, -, rfl⟩ := h.exists_latest hp
    obtain ⟨j, -, -, rfl⟩ := mem_ballots_unanimous.mp (Log.mem_of_latest hlatest)
    exact ⟨rfl, rfl⟩

/-- The upgrade of the test network: all of its three members have to approve. -/
def testnetUpgrade : NetworkUpgrade := ⟨⟨0, 3⟩, 100, 3, 1, .aye, true⟩

def threeOfThree : List FinalizedBlock :=
  [sampleBlock 3 .aye true, sampleBlock 2 .aye true, sampleBlock 1 .aye true]

end

end ActivationManager

end Macbeth
