import Macbeth.Dkg.Network

/-!
# Transitions of the key generation that fail

The transition to the next round takes the packages out of the state, and then computes with
them.  When FROST's second part fails the machine is aborted.  When the third part fails, or
the authentication layer cannot be finished, the machine stays in its round without its
packages: it is neither aborted nor as it was (`failed_transition_clean_iff`).
-/

namespace Macbeth.Dkg

open Handler Outcome DkgStateMachine

variable (lib : Lib)

/-- The test of `transition_stage2_checked` passes. -/
def StartsStage2 (n : DkgStateMachine) (r : RoundOne) : Prop :=
  r.inRound1Packages.keys.length = n.members.keys.length - 1 ∧ r.outRound1Packages.keys = []

/-- The test and the assertions of `transition_stage3_checked` pass. -/
def StartsStage3 (n : DkgStateMachine) (r : RoundTwo) : Prop :=
  r.inRound2Packages.keys.length = n.members.keys.length - 1 ∧ r.outRound2Packages.keys = [] ∧
    (lib.debugAssertions = true →
      r.inRound1Packages.keys.length = n.members.keys.length - 1 ∧ r.pending = false)

/-- The transition that follows a message is started, and then a part of FROST or the
authentication layer's `finalize` fails. -/
def TransitionFails (payload : DkgPayload) (n : DkgStateMachine) : Prop :=
  match payload.msg, n.state with
  | .round1 .., .roundOne r | .ackRound1 _, .roundOne r => StartsStage2 n r ∧
      (lib.part2 r.secretPackage r.inRound1Packages = none ∨ ∃ e, r.auth.finalize lib = .err e)
  | .round2 .., .roundTwo r | .ackRound2 .., .roundTwo r => StartsStage3 lib n r ∧
      (lib.part3 r.secretPackage r.inRound1Packages r.inRound2Packages = none ∨
        ∃ e, r.auth.finalize = .error e)
  | _, _ => False

/-- FROST's second part fails, or there is no package to lose. -/
def LosesNothing (n : DkgStateMachine) : Prop :=
  match n.state with
  | .roundOne r =>
    lib.part2 r.secretPackage r.inRound1Packages = none ∨ r.inRound1Packages = ∅
  | .roundTwo r => r.inRound1Packages = ∅ ∧ r.inRound2Packages = ∅
  | _ => True

variable {lib} {n : DkgStateMachine}

/-! ## What a failed transition leaves -/

variable {r : RoundOne}

theorem transitionStage2Checked_aborts (hr : n.state = .roundOne r) (hstarts : StartsStage2 n r)
    (hpart2 : lib.part2 r.secretPackage r.inRound1Packages = none) :
    (transitionStage2Checked lib n).2 = { n with state := .aborted } := by
  have htest : ¬ (r.inRound1Packages.keys.length ≠ n.members.keys.length - 1 ∨
      r.outRound1Packages.keys ≠ []) := by simp [hstarts.1, hstarts.2]
  simp only [transitionStage2Checked, bind_run, get_run, hr, if_neg htest, hpart2]
  rfl

theorem transitionStage2Checked_loses (hr : n.state = .roundOne r) (hstarts : StartsStage2 n r)
    {shares : Secret × FinMap Identifier Round2Package}
    (hpart2 : lib.part2 r.secretPackage r.inRound1Packages = some shares) {e : EncryptionError}
    (hfinalize : r.auth.finalize lib = .err e) :
    (transitionStage2Checked lib n).2 =
      { n with state := .roundOne { r with inRound1Packages := ∅ } } := by
  have htest : ¬ (r.inRound1Packages.keys.length ≠ n.members.keys.length - 1 ∨
      r.outRound1Packages.keys ≠ []) := by simp [hstarts.1, hstarts.2]
  simp only [transitionStage2Checked, bind_run, get_run, hr, if_neg htest, hpart2, hfinalize]
  rfl

theorem transitionStage3Checked_eq_of_none {r : RoundTwo} (hr : n.state = .roundTwo r)
    (hstarts : StartsStage3 lib n r)
    (hpart3 : lib.part3 r.secretPackage r.inRound1Packages r.inRound2Packages = none) :
    transitionStage3Checked lib n = (.ok (), { n with
      state := .roundTwo { r with inRound1Packages := ∅, inRound2Packages := ∅ } }) := by
  obtain ⟨hin, hout, hasserts⟩ := hstarts
  have htest : ¬ (r.inRound2Packages.keys.length ≠ n.members.keys.length - 1 ∨
      r.outRound2Packages.keys ≠ []) := by simp [hin, hout]
  simp only [transitionStage3Checked, bind_run, get_run, hr,
    debugAssert_run fun h => (hasserts h).1, if_neg htest, debugAssert_run fun h => (hasserts h).2,
    hpart3]
  rfl

theorem transitionStage3Checked_loses {r : RoundTwo} (hr : n.state = .roundTwo r)
    (hstarts : StartsStage3 lib n r)
    (hfails : lib.part3 r.secretPackage r.inRound1Packages r.inRound2Packages = none ∨
      ∃ e, r.auth.finalize = .error e) :
    (transitionStage3Checked lib n).2 =
      { n with state := .roundTwo { r with inRound1Packages := ∅, inRound2Packages := ∅ } } := by
  cases hpart3 : lib.part3 r.secretPackage r.inRound1Packages r.inRound2Packages with
  | none => rw [transitionStage3Checked_eq_of_none hr hstarts hpart3]
  | some keys =>
    obtain ⟨hin, hout, hasserts⟩ := hstarts
    have htest : ¬ (r.inRound2Packages.keys.length ≠ n.members.keys.length - 1 ∨
        r.outRound2Packages.keys ≠ []) := by simp [hin, hout]
    obtain ⟨e, he⟩ := hfails.resolve_left (by simp [hpart3])
    simp only [transitionStage3Checked, bind_run, get_run, hr,
      debugAssert_run fun h => (hasserts h).1, if_neg htest,
      debugAssert_run fun h => (hasserts h).2, hpart3, orEncryption, he]
    rfl

/-! ## Clean failures -/

/-- The packages of round one were taken out of a state that had none. -/
theorem eq_withoutRound1_iff (hr : n.state = .roundOne r) :
    { n with state := .roundOne { r with inRound1Packages := ∅ } } = n ↔
      r.inRound1Packages = ∅ := by
  constructor
  · intro h
    have hstate : StageState.roundOne { r with inRound1Packages := ∅ } = .roundOne r :=
      (congrArg DkgStateMachine.state h).trans hr
    exact (congrArg RoundOne.inRound1Packages (StageState.roundOne.inj hstate)).symm
  · intro h
    rw [← h, ← hr]

theorem eq_withoutRound2_iff {r : RoundTwo} (hr : n.state = .roundTwo r) :
    { n with state := .roundTwo { r with inRound1Packages := ∅, inRound2Packages := ∅ } } = n ↔
      r.inRound1Packages = ∅ ∧ r.inRound2Packages = ∅ := by
  constructor
  · intro h
    have hstate : StageState.roundTwo { r with inRound1Packages := ∅, inRound2Packages := ∅ } =
        .roundTwo r := (congrArg DkgStateMachine.state h).trans hr
    have hround := StageState.roundTwo.inj hstate
    exact ⟨(congrArg RoundTwo.inRound1Packages hround).symm,
      (congrArg RoundTwo.inRound2Packages hround).symm⟩
  · intro ⟨h₁, h₂⟩
    have hround : { r with inRound1Packages := ∅, inRound2Packages := ∅ } = r := by
      cases r
      simp_all
    rw [hround, ← hr]

/-- A failed transition leaves the machine aborted or as it was before it. -/
def Clean (n n' : DkgStateMachine) : Prop := n'.state = .aborted ∨ n' = n

theorem clean_stage2_iff (hr : n.state = .roundOne r) (hstarts : StartsStage2 n r)
    (hfails : lib.part2 r.secretPackage r.inRound1Packages = none ∨
      ∃ e, r.auth.finalize lib = .err e) :
    Clean n (transitionStage2Checked lib n).2 ↔ LosesNothing lib n := by
  simp only [LosesNothing, hr]
  cases hpart2 : lib.part2 r.secretPackage r.inRound1Packages with
  | none =>
    rw [transitionStage2Checked_aborts hr hstarts hpart2]
    simp [Clean]
  | some shares =>
    obtain ⟨e, he⟩ := hfails.resolve_left (by simp [hpart2])
    rw [transitionStage2Checked_loses hr hstarts hpart2 he, Clean, eq_withoutRound1_iff hr]
    simp

theorem clean_stage3_iff {r : RoundTwo} (hr : n.state = .roundTwo r)
    (hstarts : StartsStage3 lib n r)
    (hfails : lib.part3 r.secretPackage r.inRound1Packages r.inRound2Packages = none ∨
      ∃ e, r.auth.finalize = .error e) :
    Clean n (transitionStage3Checked lib n).2 ↔ LosesNothing lib n := by
  rw [transitionStage3Checked_loses hr hstarts hfails, Clean, eq_withoutRound2_iff hr]
  simp [LosesNothing, hr]

/-- Whenever a transition fails after a message was handled, the failure is clean exactly if it
is that of FROST's second part, or the round had no packages. -/
theorem failed_transition_clean_iff {n₁ : DkgStateMachine} {payload : DkgPayload} {rand : Rand}
    (hrecipient : payload.recipient = n.myFrostId)
    (hhandle : handle lib payload rand n = (.ok (), n₁))
    (hfails : TransitionFails lib payload n₁) :
    Clean n₁ (recv lib payload rand n).2 ↔ LosesNothing lib n₁ := by
  rw [recv_eq lib rand hrecipient, bind_run, hhandle]
  unfold TransitionFails at hfails
  dsimp only [advance]
  split at hfails
  case h_1 hmsg hr => rw [hmsg]; exact clean_stage2_iff hr hfails.1 hfails.2
  case h_2 hmsg hr => rw [hmsg]; exact clean_stage2_iff hr hfails.1 hfails.2
  case h_3 hmsg hr => rw [hmsg]; exact clean_stage3_iff hr hfails.1 hfails.2
  case h_4 hmsg hr => rw [hmsg]; exact clean_stage3_iff hr hfails.1 hfails.2
  case h_5 => exact hfails.elim

/-! ## The last acknowledgment of a round -/

/-- The coordinator of a federation of two, before a round. -/
def pairNode (state : StageState) : DkgStateMachine :=
  { awaiting 1 11 1 pairNetwork.members pairNetwork.config with state }

/-- Everything of round one is there, and acknowledged. -/
def completeOne : RoundOne where
  context := sessionContext
  nonce := 1
  auth := ⟨⟨sessionContext, 1⟩, 1, 11, 101, ⟨false, 101⟩, pairNetwork.members, ∅, ∅⟩
  secretPackage := [1]
  inRound1Packages := FinMap.ofList [(2, [2])]
  outRound1Packages := ∅

/-- Everything of round two is there, and acknowledged. -/
def completeTwo : RoundTwo where
  pending := false
  auth := ⟨⟨⟨sessionContext, 1⟩, []⟩, 1, 11, pairNetwork.members, ∅, {1, 2}⟩
  secretPackage := [1]
  inRound1Packages := FinMap.ofList [(2, [2])]
  inRound2Packages := FinMap.ofList [(2, [3])]
  outRound2Packages := ∅

/-- FROST fails in its second or third part. -/
def failingLib : Lib :=
  { pairLib with
    part2 := fun _ _ => none
    part3 := fun _ _ _ => none }

/-- When the second part fails, the machine is aborted. -/
theorem part2_failure_clean :
    Clean (pairNode (.roundOne completeOne)) (recv failingLib ⟨2, 1, .ackRound1 1⟩ 0
      (pairNode (.roundOne completeOne))).2 := by
  have hhandle : handle failingLib ⟨2, 1, .ackRound1 1⟩ 0 (pairNode (.roundOne completeOne)) =
      (.ok (), pairNode (.roundOne completeOne)) := rfl
  have hfails : TransitionFails failingLib ⟨2, 1, .ackRound1 1⟩
      (pairNode (.roundOne completeOne)) := ⟨⟨by decide, rfl⟩, .inl rfl⟩
  exact (failed_transition_clean_iff rfl hhandle hfails).mpr (.inl rfl)

/-- When the third part fails, the packages of both rounds are gone and nothing is aborted. -/
theorem part3_failure_loses :
    handle failingLib ⟨2, 1, .ackRound2 1 2⟩ 0 (pairNode (.roundTwo completeTwo)) =
        (.ok (), pairNode (.roundTwo completeTwo)) ∧
      TransitionFails failingLib ⟨2, 1, .ackRound2 1 2⟩ (pairNode (.roundTwo completeTwo)) ∧
      ¬ Clean (pairNode (.roundTwo completeTwo)) (recv failingLib ⟨2, 1, .ackRound2 1 2⟩ 0
        (pairNode (.roundTwo completeTwo))).2 := by
  have hstarts : StartsStage3 failingLib (pairNode (.roundTwo completeTwo)) completeTwo :=
    ⟨by decide, rfl, fun _ => ⟨by decide, rfl⟩⟩
  refine ⟨rfl, ⟨hstarts, .inl rfl⟩, ?_⟩
  rw [show recv failingLib ⟨2, 1, .ackRound2 1 2⟩ 0 (pairNode (.roundTwo completeTwo)) =
    transitionStage3Checked failingLib (pairNode (.roundTwo completeTwo)) from rfl,
    clean_stage3_iff rfl hstarts (.inl rfl)]
  intro hempty
  exact absurd (congrArg (·.keys.length) hempty.1) (by decide)

end Macbeth.Dkg
