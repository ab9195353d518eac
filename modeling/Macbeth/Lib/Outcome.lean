import Mathlib

/-!
# Outcomes of a Rust-like computation

A function of a systems language ends in one of three ways: it returns a value,
it returns an error through its result type, or it panics (an index out of
range, an `unwrap` of nothing, a checked subtraction below zero).  A panic is
not an error a caller can handle, so it is kept apart from `err`: the statements
about crash freedom are statements about the constructor `panic` alone.

The monad stops at the first error or panic, as `?` and unwinding do.  The rules
below peel a `do` block apart one bind at a time: `bind_eq_ok` for what a
successful run has passed, `bind_eq_panic` for where a crash can come from.
-/

/-- The result of a computation that may return, fail or panic. -/
inductive Outcome.{u, v} (ε : Type u) (α : Type v) where
  | ok (a : α)
  | err (e : ε)
  | panic
  deriving Repr, DecidableEq

namespace Outcome

open List Option

universe u v w
variable {ε : Type u} {α : Type v} {β : Type v} {γ : Type w}

/-- Sequencing: the first error or panic ends the computation. -/
protected def bind (x : Outcome ε α) (f : α → Outcome ε β) : Outcome ε β :=
  match x with
  | ok a => f a
  | err e => err e
  | panic => panic

instance : Monad (Outcome ε) where
  pure := ok
  bind := Outcome.bind

@[simp] theorem pure_eq_ok (a : α) : (pure a : Outcome ε α) = ok a := rfl

@[simp] theorem ok_bind (a : α) (f : α → Outcome ε β) : (ok a >>= f) = f a := rfl

@[simp] theorem err_bind (e : ε) (f : α → Outcome ε β) : (err e >>= f) = err e := rfl

@[simp] theorem panic_bind (f : α → Outcome ε β) : ((panic : Outcome ε α) >>= f) = panic := rfl

instance : LawfulMonad (Outcome ε) :=
  LawfulMonad.mk' (Outcome ε) (by intro α x; cases x <;> rfl) (by intros; rfl)
    (by intro α β γ x f g; cases x <;> rfl)

/-- The value, or a default if there is none. -/
def getD (x : Outcome ε α) (d : α) : α :=
  match x with
  | ok a => a
  | _ => d

def isOk : Outcome ε α → Bool
  | ok _ => true
  | _ => false

variable {x : Outcome ε α}

theorem eq_ok_getD (h : x.isOk = true) (d : α) : x = ok (x.getD d) := by
  cases x <;> first | rfl | cases h

/-- The error, if there is one. -/
def getErr? : Outcome ε α → Option ε
  | err e => some e
  | _ => none

variable {e : ε}

theorem eq_err_of_getErr? (h : x.getErr? = some e) : x = err e := by
  cases x with
  | err e' => exact congrArg err (some.inj h)
  | ok a => cases h
  | panic => cases h

def isPanic : Outcome ε α → Bool
  | panic => true
  | _ => false

theorem eq_panic_of_isPanic (h : x.isPanic = true) : x = panic := by
  cases x <;> first | rfl | cases h

/-! ## Inversion of a bind -/

variable {f : α → Outcome ε β}

/-- A sequence succeeds exactly when both halves do. -/
theorem bind_eq_ok {b : β} : (x >>= f) = ok b ↔ ∃ a, x = ok a ∧ f a = ok b := by
  cases x <;> simp

variable {u : PUnit}

/-- Two checks pass when both do. -/
theorem andThen_eq_ok {x y : Outcome ε PUnit} : (do x; y) = ok u ↔ x = ok () ∧ y = ok () := by
  rw [bind_eq_ok]
  constructor
  · intro ⟨_, hx, hy⟩
    exact ⟨hx, hy⟩
  · intro ⟨hx, hy⟩
    exact ⟨(), hx, hy⟩

/-- A sequence panics in its first half, or after it. -/
theorem bind_eq_panic : (x >>= f) = panic ↔ x = panic ∨ ∃ a, x = ok a ∧ f a = panic := by
  cases x <;> simp

/-- A sequence is free of panics when its first half is and every continuation
that is reached is. -/
theorem bind_ne_panic (hx : x ≠ panic) (hf : ∀ a, x = ok a → f a ≠ panic) : (x >>= f) ≠ panic := by
  intro h
  rcases bind_eq_panic.mp h with h | ⟨a, ha, h⟩
  · exact hx h
  · exact hf a ha h

/-- The same inversion for a computation that cannot panic. -/
theorem except_bind_eq_ok {x : Except ε α} {f : α → Except ε β} {b : β} :
    (x >>= f) = .ok b ↔ ∃ a, x = .ok a ∧ f a = .ok b := by
  cases x <;> simp [Bind.bind, Except.bind]

variable {a : α}

/-- A check that answers early lets a value through if it does not apply. -/
theorem except_check_eq_ok {p : Prop} [Decidable p] {x : Except ε α} :
    (if p then .error e else x) = .ok a ↔ ¬ p ∧ x = .ok a := by
  by_cases hp : p <;> simp [hp]

/-! ## Elementary steps -/

/-- Continue when the condition holds, fail with `e` otherwise: the source's
`if !c { return Err(e) }`. -/
def ensure (c : Prop) [Decidable c] (e : ε) : Outcome ε PUnit :=
  if c then ok ⟨⟩ else err e

@[simp] theorem ensure_eq_ok {c : Prop} [Decidable c] : ensure c e = ok u ↔ c := by
  unfold ensure; split <;> simp_all

@[simp] theorem ensure_ne_panic {c : Prop} [Decidable c] : ensure c e ≠ panic := by
  unfold ensure; split <;> simp

/-- The source's `x.ok_or(e)?`. -/
def ofOption (x : Option α) (e : ε) : Outcome ε α :=
  match x with
  | some a => ok a
  | none => err e

@[simp] theorem ofOption_eq_ok {x : Option α} : ofOption x e = ok a ↔ x = some a := by
  cases x <;> simp [ofOption]

@[simp] theorem ofOption_ne_panic {x : Option α} : ofOption x e ≠ panic := by
  cases x <;> simp [ofOption]

/-- The source's `x.expect(..)`. -/
def expect (x : Option α) : Outcome ε α :=
  match x with
  | some a => ok a
  | none => panic

@[simp] theorem expect_eq_ok {x : Option α} : (expect x : Outcome ε α) = ok a ↔ x = some a := by
  cases x <;> simp [expect]

/-- The source's `x.map_err(f)?` on a computation that cannot panic. -/
def ofExcept {δ : Type w} (x : Except δ α) (f : δ → ε) : Outcome ε α :=
  match x with
  | .ok a => ok a
  | .error e => err (f e)

variable {δ : Type w}

@[simp] theorem ofExcept_eq_ok {x : Except δ α} {f : δ → ε} : ofExcept x f = ok a ↔ x = .ok a := by
  cases x <;> simp [ofExcept]

@[simp] theorem ofExcept_ne_panic {x : Except δ α} {f : δ → ε} : ofExcept x f ≠ panic := by
  cases x <;> simp [ofExcept]

/-- The source's `x.map_err(f)` on a computation that may panic. -/
def mapErr {δ : Type w} (x : Outcome ε α) (f : ε → δ) : Outcome δ α :=
  match x with
  | ok a => ok a
  | err e => err (f e)
  | panic => panic

@[simp] theorem mapErr_eq_ok {f : ε → δ} : x.mapErr f = ok a ↔ x = ok a := by
  cases x <;> simp [mapErr]

/-- The source's `xs[i]`, which panics out of range. -/
def index (xs : List α) (i : Nat) : Outcome ε α :=
  match xs[i]? with
  | some a => ok a
  | none => panic

@[simp] theorem index_eq_ok {xs : List α} {i : Nat} :
    (index xs i : Outcome ε α) = ok a ↔ xs[i]? = some a := by
  unfold index; cases xs[i]? <;> simp

@[simp] theorem index_eq_panic {xs : List α} {i : Nat} :
    (index xs i : Outcome ε α) = panic ↔ xs.length ≤ i := by
  unfold index
  cases h : xs[i]? with
  | none => simpa using h
  | some a =>
    obtain ⟨hi, -⟩ := List.getElem?_eq_some_iff.mp h
    simpa using hi

/-- Whether a computation returns a value that passes a test. -/
def returns (x : Outcome ε α) (p : α → Bool) : Bool :=
  match x with
  | ok a => p a
  | _ => false

theorem returns_eq_true {p : α → Bool} : x.returns p = true ↔ ∃ a, x = ok a ∧ p a = true := by
  cases x <;> simp [returns]

/-! ## A computation that refuses more -/

/-- `y` returns what `x` returns if it is in `S` and fails otherwise; where `x` fails, so does
`y`. -/
def Narrows (S : α → Prop) (x y : Outcome ε α) : Prop :=
  match x with
  | ok a => (S a → y = ok a) ∧ (¬ S a → ∃ e, y = err e)
  | err _ => ∃ e, y = err e
  | panic => True

variable {S : α → Prop}

theorem Narrows.refl (h : ∀ a, x = ok a → S a) : Narrows S x x := by
  cases x with
  | ok a => exact ⟨fun _ => rfl, fun hS => absurd (h a rfl) hS⟩
  | err e => exact ⟨e, rfl⟩
  | panic => exact trivial

/-- A computation that fails narrows any one that returns nothing in `S`. -/
theorem Narrows.of_err (h : ∀ a, x = ok a → ¬ S a) : Narrows S x (err e) := by
  cases x with
  | ok a => exact ⟨fun hS => absurd hS (h a rfl), fun _ => ⟨e, rfl⟩⟩
  | err _ => exact ⟨e, rfl⟩
  | panic => exact trivial

theorem Narrows.bind {T : β → Prop} {y : Outcome ε α} {g : α → Outcome ε β} (h : Narrows S x y)
    (hf : ∀ a, x = ok a → S a → Narrows T (f a) (g a))
    (hT : ∀ a b, x = ok a → f a = ok b → T b → S a) : Narrows T (x >>= f) (y >>= g) := by
  cases x with
  | ok a =>
    by_cases hS : S a
    · rw [h.1 hS]
      exact hf a rfl hS
    · obtain ⟨e, he⟩ := h.2 hS
      rw [he]
      exact .of_err fun b hb hTb => hS (hT a b rfl hb hTb)
  | err _ =>
    obtain ⟨e, he⟩ := h
    rw [he]
    exact ⟨e, rfl⟩
  | panic => exact trivial

/-! ## Which errors a computation can end with -/

/-- A sequence fails in its first half, or after it. -/
theorem bind_eq_err : (x >>= f) = err e ↔ x = err e ∨ ∃ a, x = ok a ∧ f a = err e := by
  cases x <;> simp

/-- Every error of the computation is in `P`. -/
def FailsIn (P : ε → Prop) (x : Outcome ε α) : Prop := ∀ e, x = err e → P e

section failing
variable {P : ε → Prop}

theorem failsIn_ok (a : α) : FailsIn P (ok a) := by simp [FailsIn]

theorem failsIn_panic : FailsIn P (panic : Outcome ε α) := by simp [FailsIn]

variable {e : ε}

theorem failsIn_err (h : P e) : FailsIn P (err e : Outcome ε α) := by simpa [FailsIn]

theorem FailsIn.bind {x : Outcome ε α} {f : α → Outcome ε β} (hx : FailsIn P x)
    (hf : ∀ a, x = .ok a → FailsIn P (f a)) : FailsIn P (x >>= f) := by
  intro e h
  rcases bind_eq_err.mp h with h | ⟨a, ha, h⟩
  · exact hx e h
  · exact hf a ha e h

/-- An error the first half does not have comes from the second. -/
theorem FailsIn.bind_eq_err {x : Outcome ε α} {f : α → Outcome ε β} (hx : FailsIn (· ≠ e) x) :
    (x >>= f) = err e ↔ ∃ a, x = ok a ∧ f a = err e := by
  rw [Outcome.bind_eq_err]
  exact or_iff_right fun h => hx e h rfl

theorem failsIn_ensure {c : Prop} [Decidable c] (h : P e) : FailsIn P (ensure c e) := by
  unfold ensure
  split
  · exact failsIn_ok _
  · exact failsIn_err h

theorem failsIn_ofOption {x : Option α} (h : P e) : FailsIn P (ofOption x e) := by
  cases x with
  | none => exact failsIn_err h
  | some a => exact failsIn_ok a

theorem failsIn_ofExcept {δ : Type w} {x : Except δ α} {f : δ → ε} (h : ∀ d, P (f d)) :
    FailsIn P (ofExcept x f) := by
  cases x with
  | error d => exact failsIn_err (h d)
  | ok a => exact failsIn_ok a

theorem failsIn_mapErr {δ : Type w} {x : Outcome δ α} {f : δ → ε} (h : ∀ d, P (f d)) :
    FailsIn P (x.mapErr f) := by
  cases x with
  | ok a => exact failsIn_ok a
  | err d => exact failsIn_err (h d)
  | panic => exact failsIn_panic

theorem failsIn_foldlM {σ : Type v} {step : σ → γ → Outcome ε σ}
    (h : ∀ s x, FailsIn P (step s x)) (xs : List γ) (s : σ) : FailsIn P (xs.foldlM step s) := by
  induction xs generalizing s with
  | nil => exact failsIn_ok s
  | cons x xs ih =>
    rw [foldlM_cons]
    exact (h s x).bind fun s' _ => ih s'

end failing

/-! ## Machine arithmetic -/

section arith
variable {w : Nat}

/-- Addition of a big-integer type: an overflow panics in every build. -/
def add (a b : BitVec w) : Outcome ε (BitVec w) :=
  if a.toNat + b.toNat < 2 ^ w then ok (a + b) else panic

variable {a b c : BitVec w}

theorem add_eq_ok (h : (add a b : Outcome ε _) = ok c) : c.toNat = a.toNat + b.toNat := by
  unfold add at h
  split at h
  case isTrue hlt =>
    obtain rfl : a + b = c := by simpa using h
    rw [BitVec.toNat_add, Nat.mod_eq_of_lt hlt]
  case isFalse => contradiction

theorem add_of_lt (h : a.toNat + b.toNat < 2 ^ w) : (add a b : Outcome ε _) = ok (a + b) :=
  if_pos h

theorem lt_of_add_eq_ok (h : (add a b : Outcome ε _) = ok c) : a.toNat + b.toNat < 2 ^ w := by
  rw [← add_eq_ok h]
  exact c.isLt

theorem add_eq_panic : (add a b : Outcome ε _) = panic ↔ 2 ^ w ≤ a.toNat + b.toNat := by
  unfold add
  split <;> simp_all

/-- Subtraction of a primitive integer: below zero it panics in a build with
overflow checks and wraps in one without. -/
def sub (checks : Bool) (a b : BitVec w) : Outcome ε (BitVec w) :=
  if checks = true ∧ a.toNat < b.toNat then panic else ok (a - b)

variable {checks : Bool}

theorem sub_eq_ok (h : (sub checks a b : Outcome ε _) = ok c) : c = a - b := by
  unfold sub at h
  split at h
  · contradiction
  · simpa using h.symm

theorem sub_eq_panic :
    (sub checks a b : Outcome ε _) = panic ↔ checks = true ∧ a.toNat < b.toNat := by
  unfold sub
  split <;> simp_all

/-- Subtraction of two counts (`usize`, unbounded here). -/
def subCount (checks : Bool) (a b : Nat) : Outcome ε Nat :=
  if b ≤ a then ok (a - b) else if checks then panic else ok (2 ^ 64 + a - b)

theorem subCount_of_le {a b : Nat} (h : b ≤ a) :
    (subCount checks a b : Outcome ε Nat) = ok (a - b) :=
  if_pos h

end arith

/-! ## Loops over a list -/

/-- What every accepted step preserves, a whole accepted loop preserves: the
invariant rule for a `for` loop that returns early on an error. -/
theorem foldlM_ok_induction {σ : Type v} {step : σ → γ → Outcome ε σ} (Inv : List γ → σ → Prop)
    (hstep : ∀ done x s s', Inv done s → step s x = ok s' → Inv (done ++ [x]) s') :
    ∀ (done rest : List γ) (s s' : σ), Inv done s → rest.foldlM step s = ok s' →
      Inv (done ++ rest) s'
  | done, [], s, s', hInv, h => by
    have hs : s = s' := by simpa using h
    simpa [hs] using hInv
  | done, x :: rest, s, s', hInv, h => by
    rw [foldlM_cons] at h
    obtain ⟨s₁, hx, hrest⟩ := bind_eq_ok.mp h
    have := foldlM_ok_induction Inv hstep (done ++ [x]) rest s₁ s' (hstep done x s s₁ hInv hx) hrest
    simpa [append_assoc] using this

/-- A loop of checks passes exactly when every check does. -/
theorem forM_eq_ok {check : γ → Outcome ε PUnit} :
    ∀ {xs : List γ}, xs.forM check = ok u ↔ ∀ x ∈ xs, check x = ok ⟨⟩
  | [] => by simp [List.forM]
  | x :: xs => by
    show (check x >>= fun _ => xs.forM check) = ok u ↔ _
    simp only [bind_eq_ok, forM_eq_ok, forall_mem_cons, exists_and_right]
    exact and_congr_left fun _ => ⟨fun ⟨_, h⟩ => h, fun h => ⟨_, h⟩⟩

/-- A pass over a list succeeds with the results of the elements. -/
theorem mapM_eq_ok {f : γ → Outcome ε α} :
    ∀ {xs : List γ} {ys : List α}, xs.mapM f = ok ys ↔ List.Forall₂ (fun x y => f x = ok y) xs ys
  | [], ys => by cases ys <;> simp
  | x :: xs, ys => by
    have hrest : ∀ ys, xs.mapM f = ok ys ↔ List.Forall₂ (fun x y => f x = ok y) xs ys :=
      fun _ => mapM_eq_ok
    rw [mapM_cons, bind_eq_ok]
    simp only [bind_eq_ok, pure_eq_ok, ok.injEq, hrest]
    constructor
    · rintro ⟨y, hy, ys, hys, rfl⟩
      exact .cons hy hys
    · rintro (_ | ⟨hy, hys⟩)
      exact ⟨_, hy, _, hys, rfl⟩

/-- What a pass returns comes from the elements, one for one. -/
theorem exists_of_mapM_eq_ok {f : γ → Outcome ε α} {xs : List γ} {ys : List α}
    (h : xs.mapM f = ok ys) :
    (∀ y ∈ ys, ∃ x ∈ xs, f x = ok y) ∧ ∀ x ∈ xs, ∃ y ∈ ys, f x = ok y := by
  have hall := mapM_eq_ok.mp h
  induction hall with
  | nil => simp
  | cons hxy hrest ih =>
    obtain ⟨hback, hforth⟩ := ih (mapM_eq_ok.mpr hrest)
    simp only [forall_mem_cons, exists_mem_cons_iff]
    exact ⟨⟨.inl hxy, fun y hy => .inr (hback y hy)⟩, .inl hxy, fun x hx => .inr (hforth x hx)⟩

/-- A pass over elements that all succeed succeeds. -/
theorem exists_mapM_eq_ok {f : γ → Outcome ε α} : ∀ {xs : List γ}, (∀ x ∈ xs, ∃ y, f x = ok y) →
    ∃ ys, xs.mapM f = ok ys
  | [], _ => ⟨[], rfl⟩
  | x :: xs, h => by
    obtain ⟨y, hy⟩ := h x mem_cons_self
    obtain ⟨ys, hys⟩ := exists_mapM_eq_ok fun x' hx' => h x' (mem_cons_of_mem x hx')
    exact ⟨y :: ys, mapM_eq_ok.mpr (.cons hy (mapM_eq_ok.mp hys))⟩

/-- A pass of partial steps, each with the same error. -/
theorem mapM_ofOption_eq_ok {f : γ → Option α} :
    ∀ {xs : List γ} {ys : List α}, (xs.mapM fun x => ofOption (f x) e) = ok ys ↔ xs.mapM f = some ys
  | [], ys => by simp
  | x :: xs, ys => by
    have hrest : ∀ ys, (xs.mapM fun x => ofOption (f x) e) = ok ys ↔ xs.mapM f = some ys :=
      fun _ => mapM_ofOption_eq_ok
    rw [mapM_cons, mapM_cons, bind_eq_ok]
    simp only [bind_eq_ok, pure_eq_ok, ok.injEq, ofOption_eq_ok, hrest, bind_eq_bind,
      Option.bind_eq_some_iff, Option.pure_def, Option.some.injEq]

/-- A loop panics exactly at a step that panics after all earlier steps were
accepted. -/
theorem foldlM_eq_panic_iff {σ : Type v} {step : σ → γ → Outcome ε σ} :
    ∀ (xs : List γ) (s : σ), xs.foldlM step s = panic ↔
      ∃ done x rest s₁, xs = done ++ x :: rest ∧ done.foldlM step s = ok s₁ ∧ step s₁ x = panic
  | [], s => by simp
  | y :: ys, s => by
    rw [foldlM_cons, bind_eq_panic]
    constructor
    · rintro (h | ⟨s₁, h₁, h₂⟩)
      · exact ⟨[], y, ys, s, rfl, rfl, h⟩
      · obtain ⟨done, x, rest, s₂, rfl, hdone, hx⟩ := (foldlM_eq_panic_iff ys s₁).mp h₂
        refine ⟨y :: done, x, rest, s₂, rfl, ?_, hx⟩
        rw [foldlM_cons, h₁]
        exact hdone
    · rintro ⟨done, x, rest, s₁, hxs, hdone, hx⟩
      cases done with
      | nil =>
        obtain ⟨rfl, rfl⟩ : y = x ∧ ys = rest := by simpa using hxs
        have hs : s = s₁ := by simpa using hdone
        exact .inl (hs ▸ hx)
      | cons z done =>
        obtain ⟨rfl, rfl⟩ : y = z ∧ ys = done ++ x :: rest := by simpa using hxs
        rw [foldlM_cons] at hdone
        obtain ⟨s₂, h₂, hdone⟩ := bind_eq_ok.mp hdone
        exact .inr ⟨s₂, h₂, (foldlM_eq_panic_iff _ s₂).mpr ⟨done, x, rest, s₁, rfl, hdone, hx⟩⟩

end Outcome
