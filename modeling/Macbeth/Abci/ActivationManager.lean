import Macbeth.Bitcoin.Types
import Macbeth.Lib.FinMap
import Macbeth.Lib.Outcome

/-!
# Network upgrades (`manager.rs`, `vote_tracker.rs`)

The activation manager decides which runtime version a block may have.  A node knows an
active version and at most one upgrade it tracks.  Every finalized block carries its
proposer's vote; the tracker keeps the last vote of each proposer for a number of blocks.  A
block of the upgrade's version is proposed and accepted once the node is compliant, enough of
the votes are in favour and compliant, and the target height is reached.  Finalizing such a
block makes the version the active one.
-/

namespace Macbeth

open Outcome

/-- `RuntimeVersion`. -/
structure RuntimeVersion where
  major : BitVec 16
  minor : BitVec 16
  deriving DecidableEq, Repr

/-- The order of versions: by the major part first. -/
def RuntimeVersion.le (a b : RuntimeVersion) : Bool :=
  a.major < b.major ∨ (a.major = b.major ∧ a.minor ≤ b.minor)

theorem RuntimeVersion.le_refl (a : RuntimeVersion) : a.le a = true := by
  simp [RuntimeVersion.le]

theorem RuntimeVersion.le_trans {a b c : RuntimeVersion} (h : a.le b = true) (h' : b.le c = true) :
    a.le c = true := by
  simp only [RuntimeVersion.le, decide_eq_true_eq, BitVec.lt_def, BitVec.le_def] at h h' ⊢
  rcases h with h | ⟨hab, h⟩
  · rcases h' with h' | ⟨hbc, h'⟩
    · exact .inl (h.trans h')
    · exact .inl (hbc ▸ h)
  · rcases h' with h' | ⟨hbc, h'⟩
    · exact .inl (hab ▸ h')
    · exact .inr ⟨hab.trans hbc, h.trans h'⟩

/-- `max`, as the order derives it. -/
def RuntimeVersion.max (a b : RuntimeVersion) : RuntimeVersion := if a.le b then b else a

/-- `Vote`. -/
inductive Vote where
  | abstain
  | nay
  | aye
  deriving DecidableEq, Repr

/-- `NetworkUpgradePayload`: the vote a proposer puts into a block. -/
structure NetworkUpgradePayload where
  version : RuntimeVersion
  vote : Vote
  isCompliant : Bool
  deriving DecidableEq, Repr

/-! ## Votes -/

/-- `VoteEntry`. -/
structure VoteEntry where
  vote : Vote
  isCompliant : Bool
  botanixHeight : BitVec 64
  deriving DecidableEq, Repr

/-- `VoteWatcher`: the last vote of each validator. -/
abbrev VoteWatcher := FinMap Address VoteEntry

namespace VoteWatcher

/-- `update_upgrading_vote`: a later vote replaces an earlier one. -/
def updateUpgradingVote (votes : VoteWatcher) (auth : Address) (entry : VoteEntry) : VoteWatcher :=
  match votes.lookup auth with
  | some old => if old.botanixHeight ≥ entry.botanixHeight then votes else votes.insert auth entry
  | none => votes.insert auth entry

/-- `remove_upgrading_votes`. -/
def removeUpgradingVotes (votes : VoteWatcher) (height : BitVec 64) : VoteWatcher :=
  FinMap.filter votes fun _ entry => entry.botanixHeight ≥ height

/-- The percentage, rounded up, of validators that pass a test, out of the votes or of the
minimum count if that is more; a division by zero panics. -/
def approvalRate (votes : VoteWatcher) (minValidatorCount : Nat) (test : VoteEntry → Bool) :
    Outcome Empty Nat :=
  let total := max (FinMap.values votes).length minValidatorCount
  let received := ((FinMap.values votes).filter test).length
  if total = 0 then panic else ok ((received * 100 + total - 1) / total)

/-- `get_upgrading_approval_rate_ayes`. -/
def getUpgradingApprovalRateAyes (votes : VoteWatcher) (minValidatorCount : Nat) :
    Outcome Empty Nat :=
  approvalRate votes minValidatorCount fun entry => entry.vote = .aye

/-- `get_upgrading_approval_rate_compliance`. -/
def getUpgradingApprovalRateCompliance (votes : VoteWatcher) (minValidatorCount : Nat) :
    Outcome Empty Nat :=
  approvalRate votes minValidatorCount fun entry => entry.isCompliant

end VoteWatcher

/-! ## The manager -/

/-- `MIN_QUORUM`. -/
def minQuorum : Nat := 67

/-- `NetworkUpgrade`. -/
structure NetworkUpgrade where
  version : RuntimeVersion
  quorum : Nat
  minValidatorCount : Nat
  targetHeight : BitVec 64
  ourVote : Vote
  isCompliant : Bool
  deriving DecidableEq, Repr

/-- `ConditionList`. -/
structure ConditionList where
  compReq : Bool
  ayeApprovalReq : Bool
  compApprovalReq : Bool
  blockHeightReq : Bool
  deriving DecidableEq, Repr

def ConditionList.allPassing (c : ConditionList) : Bool :=
  c.compReq && c.ayeApprovalReq && c.compApprovalReq && c.blockHeightReq

/-- `ActivationManager`. -/
structure ActivationManager where
  votes : VoteWatcher
  voteRetentionPeriod : BitVec 64
  activeVersion : RuntimeVersion
  upgrade : Option NetworkUpgrade

/-- `OnPrepareProposalDecision`. -/
structure OnPrepareProposalDecision where
  version : RuntimeVersion
  vote : Option NetworkUpgradePayload
  conditions : Option ConditionList
  deriving DecidableEq, Repr

/-- `OnProcessProposalDecision`. -/
inductive OnProcessProposalDecision where
  | process (version : RuntimeVersion) (conditions : Option ConditionList)
  | rejectBlock (version : RuntimeVersion) (conditions : Option ConditionList)
  deriving DecidableEq, Repr

/-- `OnFinalizeBlockDecision`. -/
inductive OnFinalizeBlockDecision where
  | finalize (version : RuntimeVersion)
  | rejectBlockDeadEnd (version : RuntimeVersion)
  deriving DecidableEq, Repr

namespace ActivationManager

variable (m : ActivationManager)

/-- `_validate_conditions`. -/
def validateConditions (upgrade : NetworkUpgrade) (blockHeight : BitVec 64) :
    Outcome Empty ConditionList := do
  let ayes ← m.votes.getUpgradingApprovalRateAyes upgrade.minValidatorCount
  let compliance ← m.votes.getUpgradingApprovalRateCompliance upgrade.minValidatorCount
  return ⟨upgrade.isCompliant, ayes ≥ upgrade.quorum, compliance ≥ upgrade.quorum,
    blockHeight ≥ upgrade.targetHeight⟩

/-- `on_prepare_proposal`. -/
def onPrepareProposal (blockHeight : BitVec 64) : Outcome Empty OnPrepareProposalDecision :=
  match m.upgrade with
  | none => ok ⟨m.activeVersion, none, none⟩
  | some upgrade =>
    if upgrade.quorum < minQuorum then panic
    else do
      let vote : NetworkUpgradePayload := ⟨upgrade.version, upgrade.ourVote, upgrade.isCompliant⟩
      let c ← m.validateConditions upgrade blockHeight
      return ⟨if c.allPassing then upgrade.version else m.activeVersion, some vote, some c⟩

/-- A block that is not of the upgrade's version, or too early. -/
def processActive (blockVersion : RuntimeVersion) (conditions : Option ConditionList) :
    OnProcessProposalDecision :=
  if blockVersion = m.activeVersion then .process m.activeVersion conditions
  else .rejectBlock blockVersion conditions

/-- `on_process_proposal`. -/
def onProcessProposal (blockHeight : BitVec 64) (blockVersion : RuntimeVersion) :
    Outcome Empty OnProcessProposalDecision :=
  match m.upgrade with
  | none => ok (m.processActive blockVersion none)
  | some upgrade => do
    let c ← m.validateConditions upgrade blockHeight
    if c.allPassing ∧ blockVersion = upgrade.version then
      return .process upgrade.version (some c)
    else return m.processActive blockVersion (some c)

/-- The vote that counts for an upgrade: an abstention if there is none for its version. -/
def countedVote (upgrade : NetworkUpgrade) (vote : Option NetworkUpgradePayload) :
    Vote × Bool :=
  match vote with
  | some vote => if vote.version = upgrade.version then (vote.vote, vote.isCompliant)
    else (.abstain, false)
  | none => (.abstain, false)

/-- `saturating_sub`. -/
def saturatingSub (a b : BitVec 64) : BitVec 64 := if b ≤ a then a - b else 0

/-- `saturating_add(1)`. -/
def saturatingSucc (a : BitVec 64) : BitVec 64 := if a = BitVec.allOnes 64 then a else a + 1

/-- `_track_vote`. -/
def trackVote (blockHeight : BitVec 64) (addr : Address) (vote : Option NetworkUpgradePayload) :
    ActivationManager :=
  match m.upgrade with
  | none => m
  | some upgrade =>
    let (vote, isCompliant) := countedVote upgrade vote
    let votes := m.votes.updateUpgradingVote addr ⟨vote, isCompliant, blockHeight⟩
    { m with votes := votes.removeUpgradingVotes (saturatingSub blockHeight m.voteRetentionPeriod) }

/-- `on_finalize_block`. -/
def onFinalizeBlock (blockVersion : RuntimeVersion) (blockHeight : BitVec 64)
    (proposerAddress : Address) (proposerVote : Option NetworkUpgradePayload) :
    OnFinalizeBlockDecision × ActivationManager :=
  let m := m.trackVote blockHeight proposerAddress proposerVote
  if blockVersion.le m.activeVersion then (.finalize blockVersion, m)
  else match m.upgrade with
    | none => (.rejectBlockDeadEnd blockVersion, m)
    | some upgrade =>
      let m := { m with votes := m.votes.removeUpgradingVotes (saturatingSucc blockHeight) }
      if blockVersion ≠ upgrade.version then (.rejectBlockDeadEnd blockVersion, m)
      else if !upgrade.isCompliant then
        (.rejectBlockDeadEnd blockVersion, { m with upgrade := none })
      else (.finalize upgrade.version, { m with activeVersion := upgrade.version, upgrade := none })

/-- `force_upgrade_checked`. -/
def forceUpgradeChecked (version : RuntimeVersion) : Bool × ActivationManager :=
  match m.upgrade with
  | none => (false, m)
  | some upgrade =>
    if upgrade.version ≠ version then (false, m)
    else if !upgrade.isCompliant then (false, m)
    else (true, { m with upgrade := none, activeVersion := version })

/-! ## Decisions -/

variable {m} {blockHeight : BitVec 64} {blockVersion : RuntimeVersion}

/-- A node that goes on after finalizing a block of this version: it is not above the active
one, or it is that of the tracked upgrade and the node is compliant. -/
def Follows (m : ActivationManager) (blockVersion : RuntimeVersion) : Prop :=
  blockVersion.le m.activeVersion = true ∨
    ∃ upgrade, m.upgrade = some upgrade ∧ blockVersion = upgrade.version ∧
      upgrade.isCompliant = true

@[simp] theorem activeVersion_trackVote (addr : Address) (vote : Option NetworkUpgradePayload) :
    (m.trackVote blockHeight addr vote).activeVersion = m.activeVersion := by
  unfold trackVote
  split <;> rfl

@[simp] theorem upgrade_trackVote (addr : Address) (vote : Option NetworkUpgradePayload) :
    (m.trackVote blockHeight addr vote).upgrade = m.upgrade := by
  unfold trackVote
  split
  · rfl
  · rfl

/-- A block is finalized exactly by the nodes that follow its version, whatever the votes. -/
theorem onFinalizeBlock_eq_finalize (blockHeight : BitVec 64) (addr : Address)
    (vote : Option NetworkUpgradePayload) :
    (∃ version, (m.onFinalizeBlock blockVersion blockHeight addr vote).1 = .finalize version) ↔
      m.Follows blockVersion := by
  simp only [onFinalizeBlock, activeVersion_trackVote, upgrade_trackVote, Follows]
  by_cases hle : blockVersion.le m.activeVersion = true
  · simp [hle]
  · cases hupgrade : m.upgrade with
    | none => simp [hle]
    | some upgrade =>
      by_cases hversion : blockVersion = upgrade.version
      · subst hversion
        cases hcompliant : upgrade.isCompliant <;> simp [hle, hcompliant]
      · simp [hle, hversion]

/-- The version a block is processed with is its own. -/
theorem version_of_onProcessProposal {version : RuntimeVersion}
    {conditions : Option ConditionList}
    (h : m.onProcessProposal blockHeight blockVersion = ok (.process version conditions)) :
    version = blockVersion ∧ m.Follows blockVersion := by
  have hactive : ∀ c, m.processActive blockVersion c = .process version conditions →
      version = blockVersion ∧ m.Follows blockVersion := by
    intro c hprocess
    unfold processActive at hprocess
    split at hprocess
    · next heq =>
      obtain ⟨rfl, -⟩ := OnProcessProposalDecision.process.inj hprocess
      exact ⟨heq.symm, .inl (heq ▸ RuntimeVersion.le_refl _)⟩
    · cases hprocess
  unfold onProcessProposal at h
  split at h
  · exact hactive none (ok.inj h)
  · next upgrade hupgrade =>
    obtain ⟨c, hc, h⟩ := bind_eq_ok.mp h
    obtain ⟨ayes, -, hc⟩ := bind_eq_ok.mp hc
    obtain ⟨compliance, -, hc⟩ := bind_eq_ok.mp hc
    split at h
    · next hpass =>
      obtain ⟨rfl, -⟩ := OnProcessProposalDecision.process.inj (ok.inj h)
      have hcompliant : upgrade.isCompliant = true := by
        have hall := hpass.1
        rw [← ok.inj hc, ConditionList.allPassing] at hall
        simp only [Bool.and_eq_true] at hall
        exact hall.1.1.1
      exact ⟨hpass.2.symm, .inr ⟨upgrade, hupgrade, hpass.2, hcompliant⟩⟩
    · exact hactive (some c) (ok.inj h)

/-! ## Agreement of the three decisions -/

/-- A block of a version the node follows is finalized, and the larger version is active. -/
theorem Follows.onFinalizeBlock (h : m.Follows blockVersion) (blockHeight : BitVec 64)
    (addr : Address) (vote : Option NetworkUpgradePayload) :
    (m.onFinalizeBlock blockVersion blockHeight addr vote).1 = .finalize blockVersion ∧
      (m.onFinalizeBlock blockVersion blockHeight addr vote).2.activeVersion =
        blockVersion.max m.activeVersion := by
  by_cases hle : blockVersion.le m.activeVersion = true
  · simp [ActivationManager.onFinalizeBlock, RuntimeVersion.max, hle]
  · obtain ⟨upgrade, hupgrade, rfl, hcompliant⟩ := h.resolve_left hle
    simp [ActivationManager.onFinalizeBlock, RuntimeVersion.max, hle, hupgrade, hcompliant]

/-- What a node proposes it also accepts, for the same reasons. -/
theorem onProcessProposal_of_onPrepareProposal {d : OnPrepareProposalDecision}
    (h : m.onPrepareProposal blockHeight = ok d) :
    m.onProcessProposal blockHeight d.version = ok (.process d.version d.conditions) := by
  unfold onPrepareProposal at h
  split at h
  · next hnone =>
    obtain rfl := ok.inj h
    simp [onProcessProposal, hnone, processActive]
  · next upgrade hupgrade =>
    split at h
    · cases h
    · obtain ⟨c, hc, h⟩ := bind_eq_ok.mp h
      obtain rfl := ok.inj h
      by_cases hpass : c.allPassing = true
      · simp [onProcessProposal, hupgrade, hc, hpass]
      · simp [onProcessProposal, hupgrade, hc, hpass, processActive]

/-- The version a node proposes at a height is accepted there in the same state.  Whoever the
proposer is and whatever it votes, the block is then finalized, and the larger of its version and
the one before is active. -/
theorem proposed_version_is_finalized (m : ActivationManager) (blockHeight : BitVec 64)
    (d : OnPrepareProposalDecision) (h : m.onPrepareProposal blockHeight = ok d) :
    m.onProcessProposal blockHeight d.version = ok (.process d.version d.conditions) ∧
      ∀ addr vote,
        (m.onFinalizeBlock d.version blockHeight addr vote).1 = .finalize d.version ∧
        (m.onFinalizeBlock d.version blockHeight addr vote).2.activeVersion =
          d.version.max m.activeVersion := by
  have hprocess := onProcessProposal_of_onPrepareProposal h
  have hfollows := (version_of_onProcessProposal hprocess).2
  exact ⟨hprocess, fun addr vote => hfollows.onFinalizeBlock blockHeight addr vote⟩

/-- Two of two validators are in favour of an upgrade from height five on. -/
def unanimousManager : ActivationManager where
  votes := ((∅ : VoteWatcher).insert 1 ⟨.aye, true, 4⟩).insert 2 ⟨.aye, true, 3⟩
  voteRetentionPeriod := 10
  activeVersion := ⟨0, 2⟩
  upgrade := some ⟨⟨0, 3⟩, 67, 2, 5, .aye, true⟩

theorem unanimous_upgrade_is_finalized :
    (unanimousManager.onFinalizeBlock ⟨0, 3⟩ 5 1 none).1 = .finalize ⟨0, 3⟩ ∧
      (unanimousManager.onFinalizeBlock ⟨0, 3⟩ 5 1 none).2.activeVersion = ⟨0, 3⟩ :=
  (proposed_version_is_finalized unanimousManager 5
    ⟨⟨0, 3⟩, some ⟨⟨0, 3⟩, .aye, true⟩, some ⟨true, true, true, true⟩⟩ (by decide)).2 1 none

end ActivationManager

end Macbeth
