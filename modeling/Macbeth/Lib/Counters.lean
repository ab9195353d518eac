import Mathlib

/-!
# Numbers issued by counters

A family of counters, one for each key, that only ever go up.  A number is issued for a key
by setting the key's counter to it, which must be higher than it was.  `Issued f g pairs`
says that `pairs` are the numbers that were issued, each with its key, while the counters
went from `f` to `g`: no pair is issued twice.  Numbers may be listed later than the counter
was set, so the list need not be in order (`Issued.issue`).
-/

variable {κ ν : Type} [Preorder ν]

/-- The pairs are distinct, and each lies between the old and the new counter of its key. -/
structure Issued (f g : κ → ν) (pairs : List (κ × ν)) : Prop where
  le : ∀ k, f k ≤ g k
  between : ∀ p ∈ pairs, f p.1 < p.2 ∧ p.2 ≤ g p.1
  nodup : pairs.Nodup

namespace Issued

open List

theorem nil (f : κ → ν) : Issued f f [] := ⟨fun _ => le_rfl, nofun, .nil⟩

/-- What is issued later is above what was issued before. -/
theorem append {f g h : κ → ν} {ps qs : List (κ × ν)} (hps : Issued f g ps)
    (hqs : Issued g h qs) : Issued f h (ps ++ qs) where
  le k := (hps.le k).trans (hqs.le k)
  between p hp := by
    rcases mem_append.mp hp with hp | hp
    · obtain ⟨hlow, hhigh⟩ := hps.between p hp
      exact ⟨hlow, hhigh.trans (hqs.le p.1)⟩
    · obtain ⟨hlow, hhigh⟩ := hqs.between p hp
      exact ⟨(hps.le p.1).trans_lt hlow, hhigh⟩
  nodup := by
    refine nodup_append.mpr ⟨hps.nodup, hqs.nodup, fun p hp q hq heq => ?_⟩
    subst heq
    exact ((hps.between p hp).2.trans_lt (hqs.between p hq).1).false

variable [DecidableEq κ]

/-- A number is issued, and listed after what is issued from then on. -/
theorem issue {f g : κ → ν} {ps : List (κ × ν)} {k : κ} {n : ν} (hn : f k < n)
    (hps : Issued (Function.update f k n) g ps) : Issued f g (ps ++ [(k, n)]) := by
  have hle : ∀ k', f k' ≤ Function.update f k n k' := by
    intro k'
    by_cases hk : k' = k
    · rw [hk, Function.update_self]
      exact hn.le
    · rw [Function.update_of_ne hk]
  have hk : n ≤ g k := by
    have := hps.le k
    rwa [Function.update_self] at this
  refine ⟨fun k' => (hle k').trans (hps.le k'), fun p hp => ?_, ?_⟩
  · rcases mem_append.mp hp with hp | hp
    · exact ⟨(hle p.1).trans_lt (hps.between p hp).1, (hps.between p hp).2⟩
    · obtain rfl := mem_singleton.mp hp
      exact ⟨hn, hk⟩
  · refine nodup_append.mpr ⟨hps.nodup, nodup_singleton _, fun p hp q hq heq => ?_⟩
    obtain rfl := mem_singleton.mp hq
    subst heq
    have hlow := (hps.between _ hp).1
    rw [Function.update_self] at hlow
    exact hlow.false

end Issued
