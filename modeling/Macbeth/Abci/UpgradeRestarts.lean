import Macbeth.Abci.UpgradeVotes

/-!
# Votes and restarts

The vote store is in memory, while the highest version of a committed block is in the
database.  A node that is restarted finalizes the same blocks as one that is not and has the
same active version (`exists_afterBlocks_restarted`), but of the votes it has only those cast
since.  Its store is exact, and its decisions are those of the other nodes, once everyone with
a retained vote has proposed again (`decisions_depend_on_chain`).
-/

namespace Macbeth

open Outcome List Option

namespace ActivationManager

/-- `get_last_runtime_version` once the blocks of a chain are committed: the highest one. -/
def lastRuntimeVersion : List FinalizedBlock → Option RuntimeVersion
  | [] => none
  | b :: older =>
    match lastRuntimeVersion older with
    | some latest => if b.version.le latest then some latest else some b.version
    | none => some b.version

/-- The manager of a node that starts with the blocks of a chain in its database: no votes,
but an upgrade that has been activated is known. -/
def restarted (retention : BitVec 64) (active : RuntimeVersion) (upgrade : NetworkUpgrade)
    (chain : List FinalizedBlock) : ActivationManager :=
  match lastRuntimeVersion chain with
  | some version => ((configured retention active upgrade).forceUpgradeChecked version).2
  | none => configured retention active upgrade

/-- Two managers that agree on everything but the votes. -/
structure Similar (m m' : ActivationManager) : Prop where
  retention : m.voteRetentionPeriod = m'.voteRetentionPeriod
  active : m.activeVersion = m'.activeVersion
  upgrade : m.upgrade = m'.upgrade

section
variable {m m' m₁' : ActivationManager} {first : Nat} {new old : List FinalizedBlock}

theorem Similar.trackVote (h : Similar m m') (height : BitVec 64) (p : Address)
    (vote : Option NetworkUpgradePayload) :
    Similar (m.trackVote height p vote) (m'.trackVote height p vote) := by
  refine ⟨?_, ?_, ?_⟩
  · rw [voteRetentionPeriod_trackVote, voteRetentionPeriod_trackVote, h.retention]
  · rw [activeVersion_trackVote, activeVersion_trackVote, h.active]
  · rw [upgrade_trackVote, upgrade_trackVote, h.upgrade]

/-- The votes have no say in what is finalized. -/
theorem Similar.onFinalizeBlock (h : Similar m m') (version : RuntimeVersion) (height : BitVec 64)
    (p : Address) (vote : Option NetworkUpgradePayload) :
    (m.onFinalizeBlock version height p vote).1 = (m'.onFinalizeBlock version height p vote).1 ∧
      Similar (m.onFinalizeBlock version height p vote).2
        (m'.onFinalizeBlock version height p vote).2 := by
  have htrack := h.trackVote height p vote
  simp only [ActivationManager.onFinalizeBlock, activeVersion_trackVote, upgrade_trackVote,
    h.active, h.upgrade]
  by_cases hle : version.le m'.activeVersion = true
  · rw [if_pos hle, if_pos hle]
    exact ⟨rfl, htrack⟩
  · rw [if_neg hle, if_neg hle]
    cases m'.upgrade with
    | none => exact ⟨rfl, htrack⟩
    | some upgrade =>
      dsimp only
      split
      · exact ⟨rfl, htrack.retention, rfl, rfl⟩
      · split
        · exact ⟨rfl, htrack.retention, rfl, rfl⟩
        · exact ⟨rfl, htrack.retention, rfl, rfl⟩

theorem Similar.afterBlocks (h : Similar m m') (hm' : m'.afterBlocks first new = some m₁') :
    ∃ m₁, m.afterBlocks first new = some m₁ ∧ Similar m₁ m₁' := by
  induction new generalizing m₁' with
  | nil =>
    obtain rfl := some.inj hm'
    exact ⟨m, rfl, h⟩
  | cons b older ih =>
    obtain ⟨m₂', hm₂', hstep⟩ := bind_eq_some_iff.mp hm'
    obtain ⟨m₂, hm₂, hsimilar⟩ := ih hm₂'
    obtain ⟨hdecision, hnext⟩ := hsimilar.onFinalizeBlock b.version
      (BitVec.ofNat 64 (first + older.length)) b.proposer b.vote
    rw [ActivationManager.afterBlocks, hm₂, bind_some]
    revert hstep hdecision hnext
    rcases m₂'.onFinalizeBlock b.version _ b.proposer b.vote with ⟨decision', m₃'⟩
    rcases m₂.onFinalizeBlock b.version _ b.proposer b.vote with ⟨decision, m₃⟩
    intro hstep hdecision hnext
    obtain rfl : decision = decision' := hdecision
    cases decision with
    | finalize version =>
      obtain rfl := some.inj hstep
      exact ⟨m₃, rfl, hnext⟩
    | rejectBlockDeadEnd version => cases hstep

theorem afterBlocks_append : m.afterBlocks first (new ++ old) =
    (m.afterBlocks first old).bind fun m => m.afterBlocks (first + old.length) new := by
  induction new with
  | nil => simp [ActivationManager.afterBlocks]
  | cons b newer ih =>
    rw [cons_append, ActivationManager.afterBlocks, ih, bind_assoc]
    simp only [ActivationManager.afterBlocks, length_append, Nat.add_assoc,
      Nat.add_comm newer.length]

end

section
variable {retention : BitVec 64} {active : RuntimeVersion} {upgrade : NetworkUpgrade}
variable {first : Nat} {chain old new : List FinalizedBlock} {m m' : ActivationManager}

theorem lastRuntimeVersion_le {version : RuntimeVersion}
    (hversions : ∀ b ∈ chain, b.version.le active = true)
    (h : lastRuntimeVersion chain = some version) : version.le active = true := by
  induction chain generalizing version with
  | nil => cases h
  | cons b older ih =>
    have hb := hversions b mem_cons_self
    rw [lastRuntimeVersion] at h
    split at h
    · next latest hlatest =>
      split at h
      · exact ih (fun b' hb' => hversions b' (mem_cons_of_mem b hb')) (h ▸ hlatest)
      · exact some.inj h ▸ hb
    · exact some.inj h ▸ hb

/-- A chain that a node finalizes: the upgrade is still tracked, or one of its blocks has
activated it. -/
theorem tracked_or_upgraded (hnewer : upgrade.version.le active = false)
    (h : (configured retention active upgrade).afterBlocks first chain = some m) :
    (m.upgrade = some upgrade ∧ m.activeVersion = active ∧
        ∀ b ∈ chain, b.version.le active = true) ∨
      (m.upgrade = none ∧ m.activeVersion = upgrade.version ∧ upgrade.isCompliant = true ∧
        lastRuntimeVersion chain = some upgrade.version ∧
        ∃ b ∈ chain, b.version = upgrade.version) := by
  induction chain generalizing m with
  | nil =>
    obtain rfl := some.inj h
    exact .inl ⟨rfl, rfl, nofun⟩
  | cons b older ih =>
    obtain ⟨m', finalized, hm', hfinalize⟩ := afterBlocks_cons h
    rcases ih hm' with ⟨hupgrade, hactive, hversions⟩ |
      ⟨hupgrade, hactive, hcompliant, hlast, b', hb', hversion⟩
    · rcases finalize_cases hfinalize with ⟨hle, rfl⟩ |
        ⟨upgrade', hupgrade', hversion, hle, hcompliant, hnone, hactive', -⟩
      · rw [hactive] at hle
        refine .inl ⟨by rw [upgrade_trackVote, hupgrade], ?_, forall_mem_cons.mpr ⟨hle, hversions⟩⟩
        rw [activeVersion_trackVote, hactive]
      · -- the first block of the new version
        obtain rfl := some.inj (hupgrade.symm.trans hupgrade')
        refine .inr ⟨hnone, hactive', hcompliant, ?_, b, mem_cons_self, hversion⟩
        rw [lastRuntimeVersion]
        split
        · next latest hlatest =>
          have hlow := lastRuntimeVersion_le hversions hlatest
          rw [if_neg, hversion]
          intro hle'
          have := RuntimeVersion.le_trans hle' hlow
          simp [hversion, hnewer] at this
        · rw [hversion]
    · rcases finalize_cases hfinalize with ⟨hle, rfl⟩ | ⟨_, hupgrade', -⟩
      · rw [hactive] at hle
        refine .inr ⟨by rw [upgrade_trackVote, hupgrade], by rw [activeVersion_trackVote, hactive],
          hcompliant, ?_, b', mem_cons_of_mem b hb', hversion⟩
        rw [lastRuntimeVersion, hlast]
        exact if_pos hle
      · rw [hupgrade] at hupgrade'
        cases hupgrade'

theorem voteRetentionPeriod_afterBlocks
    (h : (configured retention active upgrade).afterBlocks first chain = some m) :
    m.voteRetentionPeriod = retention := by
  induction chain generalizing m with
  | nil => exact some.inj h ▸ rfl
  | cons b older ih =>
    obtain ⟨m', finalized, hm', hfinalize⟩ := afterBlocks_cons h
    rcases finalize_cases hfinalize with ⟨-, rfl⟩ | ⟨_, -, -, -, -, -, -, hretention⟩
    · rw [voteRetentionPeriod_trackVote, ih hm']
    · rw [hretention, ih hm']

theorem restarted_eq_configured (hnewer : upgrade.version.le active = false)
    (hversions : ∀ b ∈ chain, b.version.le active = true) :
    restarted retention active upgrade chain = configured retention active upgrade := by
  unfold restarted
  split
  · next version hversion =>
    have hle := lastRuntimeVersion_le hversions hversion
    have hne : upgrade.version ≠ version := fun heq => by simp [heq, hle] at hnewer
    simp only [forceUpgradeChecked, configured, hne, ne_eq, not_false_eq_true, if_true]
  · rfl

/-- A restarted node differs from one that has not been restarted in the votes only. -/
theorem similar_restarted (hnewer : upgrade.version.le active = false)
    (h : (configured retention active upgrade).afterBlocks first chain = some m) :
    Similar (restarted retention active upgrade chain) m := by
  have hretention := voteRetentionPeriod_afterBlocks h
  rcases tracked_or_upgraded hnewer h with
    ⟨hupgrade, hactive, hversions⟩ | ⟨hupgrade, hactive, hcompliant, hlast, -⟩
  · rw [restarted_eq_configured hnewer hversions]
    exact ⟨hretention.symm, hactive.symm, hupgrade.symm⟩
  · rw [restarted, hlast]
    simp only [forceUpgradeChecked, configured, hcompliant, ne_eq, not_true_eq_false, if_false,
      Bool.not_true, Bool.false_eq_true]
    exact ⟨hretention.symm, hactive.symm, hupgrade.symm⟩

/-- A node that was restarted on the way finalizes what a node that was not finalizes. -/
theorem exists_afterBlocks_restarted (hnewer : upgrade.version.le active = false)
    (hbounded : first + (new ++ old).length ≤ 2 ^ 64)
    (h : (configured retention active upgrade).afterBlocks first (new ++ old) = some m) :
    ∃ m', (restarted retention active upgrade old).afterBlocks (first + old.length) new = some m' ∧
      Similar m' m ∧ (m.upgrade = some upgrade →
        Tracking retention active upgrade (first + old.length) new m') := by
  have hsplit := h
  rw [afterBlocks_append] at hsplit
  obtain ⟨m₁, hold, hnew⟩ := bind_eq_some_iff.mp hsplit
  obtain ⟨m', hm', hsimilar⟩ := (similar_restarted hnewer hold).afterBlocks hnew
  refine ⟨m', hm', hsimilar, fun htracked => ?_⟩
  rcases tracked_or_upgraded hnewer h with ⟨-, -, hversions⟩ | ⟨hnone, -⟩
  · rw [restarted_eq_configured hnewer fun b hb => hversions b (mem_append_right new hb)] at hm'
    rw [length_append] at hbounded
    exact ⟨hm', hsimilar.upgrade.trans htracked, by omega⟩
  · rw [htracked] at hnone
    cases hnone

/-- The store holds the latest vote of everyone who proposed a retained block of a chain. -/
def StoreExact (retention : BitVec 64) (upgrade : NetworkUpgrade) (first : Nat)
    (chain : List FinalizedBlock) (m : ActivationManager) : Prop :=
  ∀ p, m.votes.lookup p = heldVote retention upgrade first chain p

/-- Everyone whose latest block before a restart is retained has proposed again since. -/
def Renewed (retention : BitVec 64) (upgrade : NetworkUpgrade) (first : Nat)
    (old new : List FinalizedBlock) : Prop :=
  ∀ p x, Log.latest first (ballots upgrade old) p = some x →
    expiry retention first (new ++ old) ≤ x.1 → ∃ b ∈ new, b.proposer = p

theorem proposer_iff_latest (upgrade : NetworkUpgrade) (first : Nat) {p : Address} :
    (∃ b ∈ new, b.proposer = p) ↔ ∃ y, Log.latest first (ballots upgrade new) p = some y := by
  constructor
  · rintro ⟨b, hb, rfl⟩
    exact Log.exists_latest first (mem_map.mpr ⟨b, hb, rfl⟩)
  · rintro ⟨⟨i, v⟩, hy⟩
    obtain ⟨b, hb, heq⟩ := mem_map.mp (Log.mem_of_latest hy)
    exact ⟨b, hb, (Prod.mk.inj heq).1⟩

/-- A node that tracks the upgrade since a restart has an exact store when everyone has
proposed again. -/
theorem storeExact_iff_renewed
    (h : Tracking retention active upgrade (first + old.length) new m) :
    StoreExact retention upgrade first (new ++ old) m ↔ Renewed retention upgrade first old new := by
  have hlength : (ballots upgrade old).length = old.length := length_map _
  have hexpiry : expiry retention (first + old.length) new = expiry retention first (new ++ old) := by
    rw [expiry, expiry, length_append]
    omega
  have hballots : ballots upgrade (new ++ old) = ballots upgrade new ++ ballots upgrade old :=
    map_append
  have hiff := Log.latest_eq_iff first (ballots upgrade new) (ballots upgrade old)
    (fun x => decide (expiry retention first (new ++ old) ≤ x.1))
    (fun x => (⟨x.2.1, x.2.2, BitVec.ofNat 64 x.1⟩ : VoteEntry))
  rw [hlength] at hiff
  unfold StoreExact Renewed
  simp only [lookup_votes h, heldVote, hexpiry, hballots, hiff, decide_eq_true_eq,
    proposer_iff_latest upgrade (first + old.length)]

/-- Managers with the same settings and the same votes decide alike, and without an upgrade the
votes do not matter. -/
theorem Similar.onProcessProposal_eq (h : Similar m m')
    (hvotes : m.upgrade = none ∨ ∀ p, m.votes.lookup p = m'.votes.lookup p) (height : BitVec 64)
    (version : RuntimeVersion) :
    m.onProcessProposal height version = m'.onProcessProposal height version := by
  have hactive : ∀ c, m.processActive version c = m'.processActive version c := fun c => by
    rw [processActive, processActive, h.active]
  unfold onProcessProposal
  rw [← h.upgrade]
  cases hupgrade : m.upgrade with
  | none => simp only [hactive]
  | some upgrade =>
    have hlookup := hvotes.resolve_left (by simp [hupgrade])
    have hperm : (FinMap.values m.votes).Perm (FinMap.values m'.votes) := by
      refine List.Perm.map _ (lookup_ext m.votes.nodupKeys m'.votes.nodupKeys fun p e => ?_)
      have := hlookup p
      rw [AList.lookup, AList.lookup] at this
      rw [this]
    have hrate : ∀ n test, VoteWatcher.approvalRate m.votes n test =
        VoteWatcher.approvalRate m'.votes n test := by
      intro n test
      simp only [VoteWatcher.approvalRate, hperm.length_eq, (hperm.filter test).length_eq]
    simp only [hactive, validateConditions, VoteWatcher.getUpgradingApprovalRateAyes,
      VoteWatcher.getUpgradingApprovalRateCompliance, hrate]

/-- Of a node that was restarted on the way the store is exact, as long as the upgrade has not
been activated, just when everyone with a retained vote has proposed again; and nodes of which
this holds decide alike. -/
theorem decisions_depend_on_chain (retention : BitVec 64) (active : RuntimeVersion)
    (upgrade : NetworkUpgrade) (first : Nat) (chain : List FinalizedBlock)
    (hnewer : upgrade.version.le active = false) (hbounded : first + chain.length ≤ 2 ^ 64)
    (hchain : ∃ m, (configured retention active upgrade).afterBlocks first chain = some m) :
    (∀ old new, chain = new ++ old → ∃ m,
      (restarted retention active upgrade old).afterBlocks (first + old.length) new = some m ∧
        ((∀ b ∈ chain, b.version ≠ upgrade.version) →
          (StoreExact retention upgrade first chain m ↔
            Renewed retention upgrade first old new))) ∧
    ∀ old new old' new' m m', chain = new ++ old → chain = new' ++ old' →
      (restarted retention active upgrade old).afterBlocks (first + old.length) new = some m →
      (restarted retention active upgrade old').afterBlocks (first + old'.length) new' = some m' →
      ((∃ b ∈ chain, b.version = upgrade.version) ∨
        Renewed retention upgrade first old new ∧ Renewed retention upgrade first old' new') →
      ∀ height version, m.onProcessProposal height version = m'.onProcessProposal height version := by
  obtain ⟨m₀, hm₀⟩ := hchain
  have hcases := tracked_or_upgraded hnewer hm₀
  constructor
  · intro old new hsplit
    subst hsplit
    obtain ⟨m, hm, -, htracking⟩ := exists_afterBlocks_restarted hnewer hbounded hm₀
    refine ⟨m, hm, fun hversions => storeExact_iff_renewed (htracking ?_)⟩
    rcases hcases with ⟨htracked, -⟩ | ⟨-, -, -, -, b, hb, hversion⟩
    · exact htracked
    · exact absurd hversion (hversions b hb)
  · intro old new old' new' m m' hsplit hsplit' hm hm' hcondition height version
    have hdecides : ∀ old new m, chain = new ++ old →
        (restarted retention active upgrade old).afterBlocks (first + old.length) new = some m →
        ((∃ b ∈ chain, b.version = upgrade.version) ∨ Renewed retention upgrade first old new) →
        m.onProcessProposal height version = m₀.onProcessProposal height version := by
      intro old new m hsplit hm hcondition
      subst hsplit
      obtain ⟨m₁, hm₁, hsimilar, htracking⟩ := exists_afterBlocks_restarted hnewer hbounded hm₀
      obtain rfl := some.inj (hm.symm.trans hm₁)
      refine hsimilar.onProcessProposal_eq ?_ height version
      rcases hcases with ⟨htracked, -, hversions⟩ | ⟨hnone, -⟩
      · have hrenewed : Renewed retention upgrade first old new := by
          refine hcondition.resolve_left fun ⟨b, hb, hversion⟩ => ?_
          have hle := hversions b hb
          rw [hversion, hnewer] at hle
          cases hle
        have hexact := (storeExact_iff_renewed (htracking htracked)).mpr hrenewed
        refine .inr fun p => ?_
        rw [hexact p, lookup_votes ⟨hm₀, htracked, hbounded⟩]
      · exact .inl (hsimilar.upgrade.trans hnone)
    rw [hdecides old new m hsplit hm (hcondition.imp_right And.left),
      hdecides old' new' m' hsplit' hm' (hcondition.imp_right And.right)]

/-- Everyone has voted; a node accepts the upgrade, and one that is restarted just then does
not. -/
theorem restart_forgets_votes : ∃ m m',
    (restarted 518400 ⟨0, 2⟩ testnetUpgrade []).afterBlocks 1 threeOfThree = some m ∧
      (restarted 518400 ⟨0, 2⟩ testnetUpgrade threeOfThree).afterBlocks 4 [] = some m' ∧
      m.onProcessProposal 4 ⟨0, 3⟩ = ok (.process ⟨0, 3⟩ (some ⟨true, true, true, true⟩)) ∧
      m'.onProcessProposal 4 ⟨0, 3⟩ = ok (.rejectBlock ⟨0, 3⟩ (some ⟨true, false, false, true⟩)) :=
  ⟨_, _, rfl, rfl, rfl, rfl⟩

/-- Once everyone has proposed again the restarted node decides as the other one. -/
theorem restart_renewed_agrees : ∃ m m',
    (restarted 518400 ⟨0, 2⟩ testnetUpgrade []).afterBlocks 1 (threeOfThree ++ threeOfThree) =
        some m ∧
      (restarted 518400 ⟨0, 2⟩ testnetUpgrade threeOfThree).afterBlocks 4 threeOfThree = some m' ∧
      ∀ height version,
        m.onProcessProposal height version = m'.onProcessProposal height version := by
  refine ⟨_, _, rfl, rfl, ?_⟩
  refine (decisions_depend_on_chain 518400 ⟨0, 2⟩ testnetUpgrade 1 (threeOfThree ++ threeOfThree)
    (by decide) (by decide) ⟨_, rfl⟩).2 [] (threeOfThree ++ threeOfThree) threeOfThree threeOfThree
    _ _ rfl rfl rfl rfl ?_
  exact .inr ⟨nofun, fun p x hx _ => (proposer_iff_latest testnetUpgrade 1).mpr ⟨x, hx⟩⟩

end

end ActivationManager

end Macbeth
