import Macbeth.Lib.Outcome

/-!
# Stateful computations and their rules

A request handler changes its state as it goes, and what it has changed stays changed when
it then fails: the state after an error, or after a panic, is the one reached so far.  So a
`Handler` returns the state in all three outcomes.

`Triple P x Q E` is partial correctness for both exits: from a state with `P`, a run of `x`
that returns leaves `Q`, one that fails leaves `E`.  `Preserves` is the special case of an
invariant.  The rules follow the constructors of the monad, with one for loops over a list.
`EqOn P x y` is that two handlers cannot be told apart from the states with `P`, and
`Coupled R x y` that they cannot from any two states that `R` relates.
-/

/-- A computation on a state `σ` that returns, fails or panics. -/
def Handler (σ ε α : Type) := σ → Outcome ε α × σ

namespace Handler

open List

variable {σ ε α β : Type}

protected def bind (x : Handler σ ε α) (f : α → Handler σ ε β) : Handler σ ε β := fun s =>
  match x s with
  | (.ok a, s') => f a s'
  | (.err e, s') => (.err e, s')
  | (.panic, s') => (.panic, s')

instance : Monad (Handler σ ε) where
  pure a := fun s => (.ok a, s)
  bind := Handler.bind

/-- The current state. -/
protected def get : Handler σ ε σ := fun s => (.ok s, s)

/-- Change the state. -/
def update (f : σ → σ) : Handler σ ε Unit := fun s => (.ok (), f s)

/-- A computation that does not touch the state. -/
def lift (x : Outcome ε α) : Handler σ ε α := fun s => (x, s)

/-- Return with an error. -/
def fail (e : ε) : Handler σ ε α := lift (.err e)

/-- The source's `x.expect(..)`. -/
def expect (x : Option α) : Handler σ ε α := lift (match x with | some a => .ok a | none => .panic)

/-- The source's `assert!`. -/
def assert (c : Prop) [Decidable c] : Handler σ ε Unit := lift (if c then .ok () else .panic)

/-- Run a handler on a part of the state, with its own errors. -/
def zoom {τ δ : Type} (part : σ → τ) (put : τ → σ → σ) (err : δ → ε) (x : Handler τ δ α) :
    Handler σ ε α := fun s =>
  let r := x (part s)
  (r.1.mapErr err, put r.2 s)

/-! ## Evaluation -/

@[simp] theorem pure_run (a : α) (s : σ) : (pure a : Handler σ ε α) s = (.ok a, s) := rfl

@[simp] theorem get_run (s : σ) : (Handler.get : Handler σ ε σ) s = (.ok s, s) := rfl

@[simp] theorem update_run (f : σ → σ) (s : σ) :
    (update f : Handler σ ε Unit) s = (.ok (), f s) := rfl

@[simp] theorem lift_run (x : Outcome ε α) (s : σ) : (lift x : Handler σ ε α) s = (x, s) := rfl

@[simp] theorem fail_run (e : ε) (s : σ) : (fail e : Handler σ ε α) s = (.err e, s) := rfl

theorem bind_run (x : Handler σ ε α) (f : α → Handler σ ε β) (s : σ) :
    (x >>= f) s = match x s with
      | (.ok a, s') => f a s'
      | (.err e, s') => (.err e, s')
      | (.panic, s') => (.panic, s') := rfl

variable {s s' : σ}

/-- A sequence returns exactly when both halves do. -/
theorem bind_eq_ok {x : Handler σ ε α} {f : α → Handler σ ε β} {b : β} :
    (x >>= f) s = (.ok b, s') ↔ ∃ a s₁, x s = (.ok a, s₁) ∧ f a s₁ = (.ok b, s') := by
  rw [bind_run]
  rcases x s with ⟨_ | _ | _, s₁⟩ <;> simp

theorem bind_assoc {γ : Type} (x : Handler σ ε α) (f : α → Handler σ ε β) (g : β → Handler σ ε γ) :
    (x >>= f) >>= g = x >>= fun a => f a >>= g := by
  funext s
  rw [bind_run, bind_run, bind_run]
  rcases x s with ⟨_ | _ | _, s₁⟩ <;> rfl

/-- What follows a computation that does not return is not looked at. -/
theorem bind_of_not_ok {x : Handler σ ε α} (hx : ∀ a s', x s ≠ (.ok a, s'))
    (f g : α → Handler σ ε β) : (x >>= f) s = (x >>= g) s ∧ ∀ b s', (x >>= f) s ≠ (.ok b, s') := by
  rw [bind_run, bind_run]
  rcases h : x s with ⟨a | _ | _, s₁⟩
  · exact absurd h (hx a s₁)
  · simp
  · simp

theorem get_bind_eq_ok {f : σ → Handler σ ε β} {b : β} :
    (Handler.get >>= f) s = (.ok b, s') ↔ f s s = (.ok b, s') := Iff.rfl

theorem lift_eq_ok {x : Outcome ε α} {a : α} :
    (lift x : Handler σ ε α) s = (.ok a, s') ↔ x = .ok a ∧ s' = s := by
  rw [lift_run, Prod.mk.injEq]
  exact and_congr_right fun _ => eq_comm

theorem zoom_eq_ok {τ δ : Type} {part : σ → τ} {put : τ → σ → σ} {err : δ → ε} {x : Handler τ δ α}
    {a : α} :
    zoom part put err x s = (.ok a, s') ↔ ∃ t, x (part s) = (.ok a, t) ∧ s' = put t s := by
  unfold zoom
  rcases x (part s) with ⟨_ | _ | _, t⟩ <;> simp [Outcome.mapErr, eq_comm]

/-! ## Partial correctness -/

/-- From `P`, a run that returns ends in `Q`, one that fails or panics ends in `E`. -/
def Triple (P : σ → Prop) (x : Handler σ ε α) (Q : α → σ → Prop) (E : σ → Prop) : Prop :=
  ∀ s, P s → match x s with
    | (.ok a, s') => Q a s'
    | (_, s') => E s'

/-- `P` holds after every run that starts in it, however the run ends. -/
def Preserves (P : σ → Prop) (x : Handler σ ε α) : Prop := Triple P x (fun _ => P) P

section rules
variable {P P' : σ → Prop} {Q : α → σ → Prop} {R : β → σ → Prop} {E : σ → Prop}
variable {x : Handler σ ε α}

theorem Triple.conseq {Q' : α → σ → Prop} {E' : σ → Prop} (h : Triple P x Q E)
    (hP : ∀ s, P' s → P s) (hQ : ∀ a s, Q a s → Q' a s) (hE : ∀ s, E s → E' s) :
    Triple P' x Q' E' := by
  intro s hs
  have := h s (hP s hs)
  revert this
  rcases x s with ⟨_ | _ | _, s'⟩
  · exact hQ _ _
  · exact hE _
  · exact hE _

/-- What both exits leave holds of the state after a run. -/
theorem Triple.after {T : σ → Prop} (h : Triple P x (fun _ => T) T) {s : σ} (hs : P s) :
    T (x s).2 := by
  have := h s hs
  revert this
  rcases x s with ⟨_ | _ | _, s'⟩ <;> exact id

/-- What a run that returned has left. -/
theorem Triple.of_run (h : Triple P x Q E) {s s' : σ} {a : α} (hs : P s)
    (hrun : x s = (.ok a, s')) : Q a s' := by
  have := h s hs
  rwa [hrun] at this

/-- What every run that returns leaves, whatever the others do. -/
theorem Triple.of_ok (h : ∀ s s' a, P s → x s = (.ok a, s') → Q a s') :
    Triple P x Q fun _ => True := by
  intro s hs
  rcases hx : x s with ⟨a | _ | _, s'⟩
  · exact h s s' a hs hx
  · exact trivial
  · exact trivial

theorem Triple.pure {a : α} (h : ∀ s, P s → Q a s) : Triple P (pure a : Handler σ ε α) Q E := h

theorem Triple.bind {f : α → Handler σ ε β} (hx : Triple P x Q E)
    (hf : ∀ a, Triple (Q a) (f a) R E) : Triple P (x >>= f) R E := by
  intro s hs
  have hxs := hx s hs
  rw [bind_run]
  revert hxs
  rcases x s with ⟨a | _ | _, s₁⟩
  · exact hf a s₁
  · exact id
  · exact id

theorem Triple.update {T : σ → Prop} {f : σ → σ} (h : ∀ s, P s → T (f s)) :
    Triple P (update f : Handler σ ε Unit) (fun _ => T) E := h

theorem Triple.lift {x : Outcome ε α} (hok : ∀ a, x = .ok a → ∀ s, P s → Q a s)
    (hE : ∀ s, P s → E s) : Triple P (lift x : Handler σ ε α) Q E := by
  intro s hs
  cases x with
  | ok a => exact hok a rfl s hs
  | err e => exact hE s hs
  | panic => exact hE s hs

/-- A computation that returned has the value it returned. -/
theorem Triple.lift_eq {x : Outcome ε α} (hE : ∀ s, P s → E s) :
    Triple P (Handler.lift x : Handler σ ε α) (fun a s => x = .ok a ∧ P s) E :=
  Triple.lift (fun _ ha _ hs => ⟨ha, hs⟩) hE

/-- A fact about no state can be taken out of the precondition. -/
theorem Triple.of_fact {φ : Prop} (h : φ → Triple P x Q E) :
    Triple (fun s => φ ∧ P s) x Q E := fun s hs => h hs.1 s hs.2

theorem Triple.fail {e : ε} (h : ∀ s, P s → E s) : Triple P (fail e : Handler σ ε α) Q E := h

theorem Triple.expect {x : Option α} (h : ∀ a, x = some a → ∀ s, P s → Q a s)
    (hE : ∀ s, P s → E s) : Triple P (expect x : Handler σ ε α) Q E := by
  refine Triple.lift (fun a ha => ?_) hE
  cases x with
  | none => cases ha
  | some b => exact h a (congrArg some (Outcome.ok.inj ha))

theorem Triple.assert {c : Prop} [Decidable c] {Q : Unit → σ → Prop}
    (h : c → ∀ s, P s → Q () s) (hE : ∀ s, P s → E s) :
    Triple P (assert c : Handler σ ε Unit) Q E := by
  refine Triple.lift (fun a ha => ?_) hE
  by_cases hc : c
  · exact h hc
  · rw [if_neg hc] at ha
    cases ha

/-- A handler on a part of the state, seen from the whole. -/
theorem Triple.zoom {τ δ : Type} {part : σ → τ} {put : τ → σ → σ} {err : δ → ε}
    {x : Handler τ δ α}
    (h : ∀ s, P s → Triple (fun t => t = part s) x (fun a t => Q a (put t s)) fun t => E (put t s)) :
    Triple P (zoom part put err x) Q E := by
  intro s hs
  have hx := h s hs (part s) rfl
  revert hx
  unfold Handler.zoom
  rcases x (part s) with ⟨_ | _ | _, t⟩ <;> exact id

/-- A loop keeps what its body keeps. -/
theorem Triple.forM {γ : Type} {f : γ → Handler σ ε Unit} :
    ∀ {xs : List γ}, (∀ x ∈ xs, Triple P (f x) (fun _ => P) E) →
      Triple P (xs.forM f) (fun _ => P) E
  | [], _ => fun _ hs => hs
  | x :: _, h => Triple.bind (h x mem_cons_self) fun _ =>
      Triple.forM fun y hy => h y (mem_cons_of_mem x hy)

/-- Reading the state and going on from it. -/
theorem Triple.get_bind {f : σ → Handler σ ε β}
    (h : ∀ s, P s → Triple (fun s' => s' = s) (f s) R E) : Triple P (Handler.get >>= f) R E :=
  fun s hs => h s hs s rfl

theorem Triple.ite {c : Prop} [Decidable c] {y : Handler σ ε α} (hx : c → Triple P x Q E)
    (hy : ¬ c → Triple P y Q E) : Triple P (if c then x else y) Q E := by
  by_cases h : c
  · rw [if_pos h]; exact hx h
  · rw [if_neg h]; exact hy h

end rules

/-! ## Agreement -/

/-- Two handlers do the same from every state with `P`. -/
def EqOn (P : σ → Prop) (x y : Handler σ ε α) : Prop := ∀ s, P s → x s = y s

section agreement
variable {P P' : σ → Prop} {Q : α → σ → Prop} {E : σ → Prop}
variable {x : Handler σ ε α}

theorem EqOn.rfl : EqOn P x x := fun _ _ => Eq.refl _

variable {y : Handler σ ε α}

theorem EqOn.mono (h : EqOn P x y) (hP : ∀ s, P' s → P s) : EqOn P' x y :=
  fun s hs => h s (hP s hs)

theorem EqOn.get_bind {f g : σ → Handler σ ε β} (h : ∀ s, P s → EqOn (· = s) (f s) (g s)) :
    EqOn P (Handler.get >>= f) (Handler.get >>= g) :=
  fun s hs => h s hs s (Eq.refl s)

/-- The second halves need to agree only where the first one can end. -/
theorem EqOn.bind {f g : α → Handler σ ε β} (hxy : EqOn P x y) (hy : Triple P y Q E)
    (hfg : ∀ a, EqOn (Q a) (f a) (g a)) : EqOn P (x >>= f) (y >>= g) := by
  intro s hs
  have hys := hy s hs
  rw [bind_run, bind_run, hxy s hs]
  revert hys
  rcases y s with ⟨a | _ | _, s₁⟩
  · exact hfg a s₁
  · exact fun _ => Eq.refl _
  · exact fun _ => Eq.refl _

theorem EqOn.bind_left (h : EqOn P x y) (f : α → Handler σ ε β) : EqOn P (x >>= f) (y >>= f) := by
  intro s hs
  rw [bind_run, bind_run, h s hs]

theorem EqOn.ite {c : Prop} [Decidable c] {x' y' : Handler σ ε α} (hx : c → EqOn P x x')
    (hy : ¬ c → EqOn P y y') : EqOn P (if c then x else y) (if c then x' else y') := by
  by_cases h : c
  · rw [if_pos h, if_pos h]; exact hx h
  · rw [if_neg h, if_neg h]; exact hy h

theorem EqOn.forM {γ : Type} {f g : γ → Handler σ ε Unit} :
    ∀ {xs : List γ}, (∀ x ∈ xs, EqOn P (f x) (g x)) →
      (∀ x ∈ xs, Triple P (g x) (fun _ => P) E) → EqOn P (xs.forM f) (xs.forM g)
  | [], _, _ => EqOn.rfl
  | x :: _, h, hkeep => EqOn.bind (h x mem_cons_self) (hkeep x mem_cons_self) fun _ =>
      EqOn.forM (fun y hy => h y (mem_cons_of_mem x hy))
        fun y hy => hkeep y (mem_cons_of_mem x hy)

theorem EqOn.zoom {τ δ : Type} {part : σ → τ} {put : τ → σ → σ} {err : δ → ε} {x y : Handler τ δ α}
    (h : ∀ s, P s → x (part s) = y (part s)) :
    EqOn P (Handler.zoom part put err x) (Handler.zoom part put err y) := by
  intro s hs
  rw [Handler.zoom, Handler.zoom, h s hs]

end agreement

/-! ## Two runs -/

/-- From related states two handlers end in the same way and in related states. -/
def Coupled (R : σ → σ → Prop) (x y : Handler σ ε α) : Prop :=
  ∀ s s', R s s' → (x s).1 = (y s').1 ∧ R (x s).2 (y s').2

section coupled
variable {R : σ → σ → Prop}

theorem Coupled.pure (a : α) : Coupled R (pure a : Handler σ ε α) (pure a) :=
  fun _ _ hs => ⟨Eq.refl _, hs⟩

theorem Coupled.lift (x : Outcome ε α) : Coupled R (Handler.lift x : Handler σ ε α) (Handler.lift x) :=
  fun _ _ hs => ⟨Eq.refl _, hs⟩

theorem Coupled.update {f g : σ → σ} (h : ∀ s s', R s s' → R (f s) (g s')) :
    Coupled R (Handler.update f : Handler σ ε Unit) (Handler.update g) :=
  fun s s' hs => ⟨Eq.refl _, h s s' hs⟩

variable {x y : Handler σ ε α}

/-- The second halves are run only where both first halves have returned. -/
theorem Coupled.run_bind {f g : α → Handler σ ε β} {T : σ → σ → Prop} (hxy : Coupled R x y)
    (hRT : ∀ s s', R s s' → T s s') {s s' : σ} (hs : R s s')
    (hok : ∀ a t t', x s = (.ok a, t) → y s' = (.ok a, t') → R t t' →
      (f a t).1 = (g a t').1 ∧ T (f a t).2 (g a t').2) :
    ((x >>= f) s).1 = ((y >>= g) s').1 ∧ T ((x >>= f) s).2 ((y >>= g) s').2 := by
  obtain ⟨hout, hstate⟩ := hxy s s' hs
  rw [bind_run, bind_run]
  rcases hx : x s with ⟨a | e | _, t⟩ <;> rcases hy : y s' with ⟨a' | e' | _, t'⟩ <;>
    rw [hx, hy] at hout hstate <;> cases hout
  · exact hok a t t' hx hy hstate
  · exact ⟨Eq.refl _, hRT t t' hstate⟩
  · exact ⟨Eq.refl _, hRT t t' hstate⟩

theorem Coupled.bind {f g : α → Handler σ ε β} (hxy : Coupled R x y)
    (hfg : ∀ a, Coupled R (f a) (g a)) : Coupled R (x >>= f) (y >>= g) :=
  fun _ _ hs => hxy.run_bind (fun _ _ => id) hs fun a t t' _ _ => hfg a t t'

/-- Both runs go on from the states they have read. -/
theorem Coupled.get_bind {f g : σ → Handler σ ε β} (h : ∀ s s', R s s' → Coupled R (f s) (g s')) :
    Coupled R (Handler.get >>= f) (Handler.get >>= g) :=
  fun s s' hs => h s s' hs s s' hs

theorem Coupled.ite {c : Prop} [Decidable c] {x' y' : Handler σ ε α} (hx : Coupled R x x')
    (hy : Coupled R y y') : Coupled R (if c then x else y) (if c then x' else y') := by
  by_cases h : c
  · rw [if_pos h, if_pos h]; exact hx
  · rw [if_neg h, if_neg h]; exact hy

theorem Coupled.forM {γ : Type} {f g : γ → Handler σ ε Unit} (h : ∀ x, Coupled R (f x) (g x)) :
    ∀ xs : List γ, Coupled R (xs.forM f) (xs.forM g)
  | [] => Coupled.pure ()
  | x :: xs => Coupled.bind (h x) fun _ => Coupled.forM h xs

end coupled

end Handler
