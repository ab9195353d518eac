import Mathlib

/-!
# Loops without a bound

The body of a loop either leaves it with a result or goes round again with a new state.
`Loop.run` goes round a bounded number of times; the loop halts if some bound is enough.  A
state that the body leaves as it is never halts.
-/

namespace Loop

variable {σ β : Type} (body : σ → β ⊕ σ)

/-- What the loop returns within a number of rounds. -/
def run : Nat → σ → Option β
  | 0, _ => none
  | fuel + 1, s => (body s).elim some (run fuel)

/-- The loop returns after finitely many rounds. -/
def Halts (s : σ) : Prop := ∃ fuel result, run body fuel s = some result

variable {body}

theorem run_of_leaves {s : σ} {result : β} (h : body s = .inl result) (fuel : Nat) :
    run body (fuel + 1) s = some result := by simp [run, h]

theorem run_of_again {s s' : σ} (h : body s = .inr s') (fuel : Nat) :
    run body (fuel + 1) s = run body fuel s' := by simp [run, h]

theorem halts_of_leaves {s : σ} {result : β} (h : body s = .inl result) : Halts body s :=
  ⟨1, result, run_of_leaves h 0⟩

theorem halts_iff_of_again {s s' : σ} (h : body s = .inr s') : Halts body s ↔ Halts body s' := by
  constructor
  · intro ⟨fuel, result, hrun⟩
    cases fuel with
    | zero => simp [run] at hrun
    | succ fuel => exact ⟨fuel, result, by rwa [run_of_again h] at hrun⟩
  · intro ⟨fuel, result, hrun⟩
    exact ⟨fuel + 1, result, by rwa [run_of_again h]⟩

/-- A state the body leaves as it is: the loop goes round for ever. -/
theorem not_halts_of_fixed {s : σ} (h : body s = .inr s) : ¬ Halts body s := by
  have hrun : ∀ fuel, run body fuel s = none := by
    intro fuel
    induction fuel with
    | zero => rfl
    | succ fuel ih => rw [run_of_again h, ih]
  simp [Halts, hrun]

/-- A result was returned by the body, in a state that keeps what the body keeps. -/
theorem exists_of_run {P : σ → Prop} (hagain : ∀ s s', P s → body s = .inr s' → P s') :
    ∀ {fuel : Nat} {s : σ} {result : β}, P s → run body fuel s = some result →
      ∃ s', P s' ∧ body s' = .inl result
  | 0, _, _, _, h => by simp [run] at h
  | fuel + 1, s, result, hs, h => by
    cases hbody : body s with
    | inl r =>
      rw [run_of_leaves hbody, Option.some.injEq] at h
      exact ⟨s, hs, by rw [hbody, h]⟩
    | inr s' =>
      rw [run_of_again hbody] at h
      exact exists_of_run hagain (hagain s s' hs hbody) h

end Loop
