import Macbeth.Lib.Outcome

/-!
# Checked arithmetic on machine words

The `checked_*` operations of a fixed-width unsigned type, as functions into `Option`.
Each is characterised on the integers by one lemma: the result is the exact one, and it
exists exactly when the exact result fits.  `checkedSum` folds a list; `addWord`,
`mulWord` and `sumWord` are the plain operations, which panic or wrap on overflow.
-/

namespace Checked

open Option BitVec Outcome

variable {w : Nat}

def checkedAdd (a b : BitVec w) : Option (BitVec w) :=
  if a.toNat + b.toNat < 2 ^ w then some (a + b) else none

def checkedSub (a b : BitVec w) : Option (BitVec w) :=
  if b.toNat ≤ a.toNat then some (a - b) else none

def checkedMul (a b : BitVec w) : Option (BitVec w) :=
  if a.toNat * b.toNat < 2 ^ w then some (a * b) else none

/-- Division by a count. -/
def checkedDiv (a : BitVec w) (n : Nat) : Option (BitVec w) :=
  if n = 0 then none else some (BitVec.ofNat w (a.toNat / n))

variable {a b c : BitVec w}

theorem checkedAdd_eq_some : checkedAdd a b = some c ↔ c.toNat = a.toNat + b.toNat := by
  unfold checkedAdd
  by_cases h : a.toNat + b.toNat < 2 ^ w
  · rw [if_pos h, some.injEq, ← toNat_inj, toNat_add, Nat.mod_eq_of_lt h,
      eq_comm]
  · rw [if_neg h]
    have := c.isLt
    simp only [reduceCtorEq, false_iff]
    omega

theorem checkedSub_eq_some : checkedSub a b = some c ↔ c.toNat + b.toNat = a.toNat := by
  unfold checkedSub
  by_cases h : b.toNat ≤ a.toNat
  · rw [if_pos h, some.injEq, ← toNat_inj,
      toNat_sub_of_le (le_def.mpr h)]
    omega
  · rw [if_neg h]
    simp only [reduceCtorEq, false_iff]
    omega

theorem checkedSub_eq_none : checkedSub a b = none ↔ a.toNat < b.toNat := by
  unfold checkedSub
  by_cases h : b.toNat ≤ a.toNat
  · simp [h]
  · simp [if_neg h, Nat.not_le.mp h]

theorem checkedMul_eq_some : checkedMul a b = some c ↔ c.toNat = a.toNat * b.toNat := by
  unfold checkedMul
  by_cases h : a.toNat * b.toNat < 2 ^ w
  · rw [if_pos h, some.injEq, ← toNat_inj, toNat_mul, Nat.mod_eq_of_lt h,
      eq_comm]
  · rw [if_neg h]
    have := c.isLt
    simp only [reduceCtorEq, false_iff]
    omega

theorem checkedDiv_eq_some {n : Nat} : checkedDiv a n = some c ↔ n ≠ 0 ∧ c.toNat = a.toNat / n := by
  unfold checkedDiv
  by_cases h : n = 0
  · simp [h]
  · have hlt : a.toNat / n < 2 ^ w := Nat.lt_of_le_of_lt (Nat.div_le_self _ _) a.isLt
    rw [if_neg h, some.injEq, ← toNat_inj, toNat_ofNat,
      Nat.mod_eq_of_lt hlt, eq_comm]
    simp [h]

/-! ## Sums -/

/-- The integer sum of a list of words. -/
def natSum (xs : List (BitVec w)) : Nat := (xs.map BitVec.toNat).sum

@[simp] theorem natSum_nil : natSum ([] : List (BitVec w)) = 0 := rfl

@[simp] theorem natSum_cons (x : BitVec w) (xs : List (BitVec w)) :
    natSum (x :: xs) = x.toNat + natSum xs := by
  simp [natSum]

@[simp] theorem natSum_append (xs ys : List (BitVec w)) :
    natSum (xs ++ ys) = natSum xs + natSum ys := by
  simp [natSum]

/-- Replacing one element changes the sum by the difference. -/
theorem natSum_set {x y : BitVec w} : ∀ {xs : List (BitVec w)} {i : Nat}, xs[i]? = some x →
    natSum (xs.set i y) + x.toNat = natSum xs + y.toNat
  | z :: zs, 0, h => by
    obtain rfl : z = x := by simpa using h
    rw [List.set_cons_zero, natSum_cons, natSum_cons]
    omega
  | z :: zs, i + 1, h => by
    have ih : natSum (zs.set i y) + x.toNat = natSum zs + y.toNat := natSum_set (by simpa using h)
    rw [List.set_cons_succ, natSum_cons, natSum_cons]
    omega

/-- The checked sum of a list, from an accumulator. -/
def checkedSumFrom : BitVec w → List (BitVec w) → Option (BitVec w)
  | acc, [] => some acc
  | acc, x :: xs => (checkedAdd acc x).bind fun acc => checkedSumFrom acc xs

/-- `CheckedSum::checked_sum`. -/
def checkedSum (xs : List (BitVec w)) : Option (BitVec w) := checkedSumFrom 0 xs

theorem checkedSumFrom_eq_some : ∀ {acc c : BitVec w} {xs : List (BitVec w)},
    checkedSumFrom acc xs = some c ↔ c.toNat = acc.toNat + natSum xs
  | acc, c, [] => by
    rw [checkedSumFrom, some.injEq, ← toNat_inj, eq_comm]
    simp
  | acc, c, x :: xs => by
    rw [checkedSumFrom, bind_eq_some_iff]
    constructor
    · rintro ⟨acc', hadd, hrest⟩
      rw [checkedSumFrom_eq_some.mp hrest, checkedAdd_eq_some.mp hadd, natSum_cons]
      omega
    · intro hc
      rw [natSum_cons] at hc
      have hlt := c.isLt
      have hadd : checkedAdd acc x = some (acc + x) := if_pos (by omega)
      refine ⟨acc + x, hadd, checkedSumFrom_eq_some.mpr ?_⟩
      rw [checkedAdd_eq_some.mp hadd]
      omega

variable {xs : List (BitVec w)}

/-- The checked sum is the integer sum, and exists exactly when that fits. -/
theorem checkedSum_eq_some : checkedSum xs = some c ↔ c.toNat = natSum xs := by
  rw [checkedSum, checkedSumFrom_eq_some]
  simp

/-- The plain `+` of primitive words: an overflow panics in a build with overflow checks and
wraps in one without. -/
def addWord {ε : Type} (checks : Bool) (a b : BitVec w) : Outcome ε (BitVec w) :=
  if checks = true ∧ 2 ^ w ≤ a.toNat + b.toNat then .panic else .ok (a + b)

variable {ε : Type} {checks : Bool}

theorem addWord_eq_ok (h : (addWord checks a b : Outcome ε _) = .ok c) : c = a + b := by
  unfold addWord at h
  split at h
  · cases h
  · exact (ok.inj h).symm

/-- The plain `*` of primitive words. -/
def mulWord {ε : Type} (checks : Bool) (a b : BitVec w) : Outcome ε (BitVec w) :=
  if checks = true ∧ 2 ^ w ≤ a.toNat * b.toNat then .panic else .ok (a * b)

theorem mulWord_eq_ok (h : (mulWord checks a b : Outcome ε _) = .ok c) : c = a * b := by
  unfold mulWord at h
  split at h
  · cases h
  · exact (ok.inj h).symm

/-- The plain sum of primitive words: an overflow panics in a build with overflow
checks and wraps in one without. -/
def sumWord {ε : Type} (checks : Bool) (xs : List (BitVec w)) : Outcome ε (BitVec w) :=
  if checks = true ∧ 2 ^ w ≤ natSum xs then .panic else .ok (BitVec.ofNat w (natSum xs))

theorem sumWord_eq_ok (h : (sumWord checks xs : Outcome ε _) = .ok c) :
    c = BitVec.ofNat w (natSum xs) := by
  unfold sumWord at h
  split at h
  · contradiction
  · exact (ok.inj h).symm

theorem sumWord_of_lt (h : natSum xs < 2 ^ w) :
    (sumWord checks xs : Outcome ε _) = .ok (BitVec.ofNat w (natSum xs)) :=
  if_neg fun hover => absurd h (Nat.not_lt.mpr hover.2)

/-- A sum that fits is exact. -/
theorem toNat_of_sumWord (h : (sumWord checks xs : Outcome ε _) = .ok c)
    (hfit : natSum xs < 2 ^ w) : c.toNat = natSum xs := by
  rw [sumWord_eq_ok h, toNat_ofNat, Nat.mod_eq_of_lt hfit]

end Checked
