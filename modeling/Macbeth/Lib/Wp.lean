import Macbeth.Lib.Handler

/-!
# Weakest preconditions of handlers

`wp x s Q E panics` says how a call from a given state may end: with a result in `Q`, with a
failure in `E`, and with a panic only if `panics`.  With `panics := True` a panic is the end of
the run and nothing is asked of it; with `panics := False` the call does not panic.

The rules are equivalences that follow the code, so that `simp` turns a call into conditions on
the state it started from.
-/

namespace Handler

variable {σ ε α β : Type} {Q : α → σ → Prop} {R : β → σ → Prop} {E : σ → Prop} {panics : Prop}
variable {s : σ}

/-- How a call may end. -/
def wp (x : Handler σ ε α) (s : σ) (Q : α → σ → Prop) (E : σ → Prop) (panics : Prop) : Prop :=
  match x s with
  | (.ok a, s') => Q a s'
  | (.err _, s') => E s'
  | (.panic, _) => panics

variable {x : Handler σ ε α}

theorem wp_bind {f : α → Handler σ ε β} :
    wp (x >>= f) s R E panics ↔ wp x s (fun a s' => wp (f a) s' R E panics) E panics := by
  unfold wp
  rw [bind_run]
  rcases x s with ⟨_ | _ | _, s'⟩ <;> rfl

@[simp] theorem wp_pure {a : α} : wp (pure a : Handler σ ε α) s Q E panics ↔ Q a s := Iff.rfl

@[simp] theorem wp_get {Q : σ → σ → Prop} :
    wp (Handler.get : Handler σ ε σ) s Q E panics ↔ Q s s := Iff.rfl

@[simp] theorem wp_update {Q : Unit → σ → Prop} {f : σ → σ} :
    wp (update f : Handler σ ε Unit) s Q E panics ↔ Q () (f s) := Iff.rfl

theorem wp_ite {c : Prop} [Decidable c] {y : Handler σ ε α} :
    wp (if c then x else y) s Q E panics ↔ (c → wp x s Q E panics) ∧ (¬ c → wp y s Q E panics) := by
  by_cases h : c <;> simp [h]

/-- Weaker ends. -/
theorem wp.mono {Q' : α → σ → Prop} {E' : σ → Prop} (h : wp x s Q E panics)
    (hQ : ∀ a s', Q a s' → Q' a s') (hE : ∀ s', E s' → E' s') : wp x s Q' E' panics := by
  unfold wp at h ⊢
  rcases hx : x s with ⟨a | _ | _, s'⟩
  · exact hQ a s' (by simpa [hx] using h)
  · exact hE s' (by simpa [hx] using h)
  · simpa [hx] using h

/-- The end of a call that did not panic. -/
theorem wp.of_run {Q : σ → Prop} {o : Outcome ε α} {s' : σ} (h : wp x s (fun _ => Q) Q panics)
    (hrun : x s = (o, s')) (ho : o ≠ .panic) : Q s' := by
  unfold wp at h
  rw [hrun] at h
  cases o with
  | ok a => exact h
  | err e => exact h
  | panic => exact absurd rfl ho

end Handler
