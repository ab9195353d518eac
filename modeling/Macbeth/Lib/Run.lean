import Mathlib

/-!
# Runs of a machine

A machine takes its inputs one at a time and answers each.  A history lists the transitions
of a run, the newest first, so that what came before a transition is the tail of the list.
A property of runs is proved with `Run.invariant`: it may speak of the whole history, and
each step may use a condition on the step that speaks of the history before it.  An infinite
run is the `trace` of a sequence of inputs; `exists_served` is the rule for progress.
-/

/-- One step of a machine: the state it starts in, the input, the output, the next state. -/
structure Transition (σ ι ο : Type) where
  pre : σ
  input : ι
  output : ο
  post : σ

/-- The transitions of a run, the newest first. -/
abbrev History (σ ι ο : Type) := List (Transition σ ι ο)

variable {σ ι ο : Type} (step : σ → ι → ο × σ) (s₀ : σ)

/-- The transition an input causes. -/
def fire (s : σ) (i : ι) : Transition σ ι ο := ⟨s, i, (step s i).1, (step s i).2⟩

/-- The histories of a machine from a state, and the state each ends in. -/
inductive Run : History σ ι ο → σ → Prop
  | start : Run [] s₀
  | next {h : History σ ι ο} {s : σ} (i : ι) : Run h s → Run (fire step s i :: h) (step s i).2

/-- Every step of a history meets a condition on the history before it, the state and the
input. -/
def Meets (C : History σ ι ο → σ → ι → Prop) : History σ ι ο → Prop
  | [] => True
  | t :: h => C h t.pre t.input ∧ Meets C h

instance Meets.decidable {C : History σ ι ο → σ → ι → Prop} [∀ h s i, Decidable (C h s i)] :
    ∀ h : History σ ι ο, Decidable (Meets C h)
  | [] => inferInstanceAs (Decidable True)
  | t :: h => @instDecidableAnd _ _ (inferInstanceAs (Decidable (C h t.pre t.input)))
      (Meets.decidable h)

/-- The run on given inputs, the newest first. -/
def play : List ι → History σ ι ο × σ
  | [] => ([], s₀)
  | i :: is => (fire step (play is).2 i :: (play is).1, (step (play is).2 i).2)

theorem mem_of_mem_play : ∀ {is : List ι} {t : Transition σ ι ο}, t ∈ (play step s₀ is).1 →
    t.input ∈ is
  | [], _, h => absurd h List.not_mem_nil
  | i :: is, t, h => by
    obtain rfl | h := List.mem_cons.mp h
    · exact List.mem_cons_self
    · exact List.mem_cons_of_mem i (mem_of_mem_play h)

namespace Run

variable {step s₀}

theorem play : ∀ is : List ι, Run step s₀ (play step s₀ is).1 (play step s₀ is).2
  | [] => .start
  | i :: is => .next i (play is)

/-- What holds at the start and is kept by every step that meets the condition holds after
every run whose steps do. -/
theorem invariant {C : History σ ι ο → σ → ι → Prop} {I : History σ ι ο → σ → Prop}
    (hstart : I [] s₀)
    (hstep : ∀ h s i, Run step s₀ h s → I h s → C h s i → I (fire step s i :: h) (step s i).2)
    {h : History σ ι ο} {s : σ} (hrun : Run step s₀ h s) (hmeets : Meets C h) : I h s := by
  induction hrun with
  | start => exact hstart
  | next i hrun ih => exact hstep _ _ i hrun (ih hmeets.2) hmeets.1

/-- The case of an invariant of the states that needs no condition. -/
theorem always {I : σ → Prop} (hstart : I s₀) (hstep : ∀ s i, I s → I (step s i).2)
    {h : History σ ι ο} {s : σ} (hrun : Run step s₀ h s) : I s := by
  induction hrun with
  | start => exact hstart
  | next i _ ih => exact hstep _ i ih

end Run

/-! ## Infinite runs -/

/-- The states an infinite sequence of inputs leads through. -/
def trace (inputs : Nat → ι) : Nat → σ
  | 0 => s₀
  | n + 1 => (step (trace inputs n) (inputs n)).2

/-- What the machine puts out at a step of an infinite run. -/
def emitted (inputs : Nat → ι) (n : Nat) : ο := (step (trace step s₀ inputs n) (inputs n)).1

/-- An obligation that every step keeps or serves is served before it is gone. -/
theorem exists_served {owed served : Nat → Prop} {a b : Nat} (hle : a ≤ b)
    (hstep : ∀ n, a ≤ n → owed n → served n ∨ owed (n + 1)) (hstart : owed a) (hend : ¬ owed b) :
    ∃ n, a ≤ n ∧ served n := by
  by_contra hnone
  have hkept : ∀ n, a ≤ n → owed n := by
    intro n hn
    induction n, hn using Nat.le_induction with
    | base => exact hstart
    | succ n hn ih => exact (hstep n hn ih).resolve_left fun h => hnone ⟨n, hn, h⟩
  exact hend (hkept b hle)
