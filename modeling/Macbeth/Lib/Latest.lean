import Mathlib

/-!
# The latest entries of a log

A log is a list of keyed values, the newest first; its entries are numbered upwards from the
oldest.  `latest` finds the newest entry of a key and its number.  A reader that keeps only
the entries from some number on holds at most one entry per number (`card_le_of_latest`), and
a reader that has seen only the newer part of a log holds the same entries exactly when every
key with an entry to keep comes up again in that part (`latest_eq_iff`).
-/

namespace Log

variable {κ ν : Type*} [DecidableEq κ]

/-- The number and the value of the newest entry of a key. -/
def latest (first : Nat) : List (κ × ν) → κ → Option (Nat × ν)
  | [], _ => none
  | (k', v) :: older, k => if k = k' then some (first + older.length, v) else latest first older k

variable {first i : Nat} {log new old : List (κ × ν)} {k k' : κ} {v v' : ν}

theorem latest_bounds (h : latest first log k = some (i, v)) :
    first ≤ i ∧ i < first + log.length := by
  induction log with
  | nil => cases h
  | cons x older ih =>
    rw [latest] at h
    rw [List.length_cons]
    split at h
    · obtain ⟨rfl, -⟩ := Prod.mk.inj (Option.some.inj h)
      omega
    · have := ih h
      omega

theorem mem_of_latest (h : latest first log k = some (i, v)) : (k, v) ∈ log := by
  induction log with
  | nil => cases h
  | cons x older ih =>
    rw [latest] at h
    split at h
    · next hk =>
      obtain ⟨-, rfl⟩ := Prod.mk.inj (Option.some.inj h)
      exact hk ▸ List.mem_cons_self
    · exact List.mem_cons_of_mem x (ih h)

theorem exists_latest (first : Nat) (h : (k, v) ∈ log) : ∃ x, latest first log k = some x := by
  induction log with
  | nil => cases h
  | cons x older ih =>
    rw [latest]
    split
    · exact ⟨_, rfl⟩
    · next hk =>
      rcases List.mem_cons.mp h with rfl | h
      · exact absurd rfl hk
      · exact ih h

/-- A number has one key. -/
theorem key_eq_of_latest (h : latest first log k = some (i, v))
    (h' : latest first log k' = some (i, v')) : k = k' := by
  induction log with
  | nil => cases h
  | cons x older ih =>
    have hlt : ∀ {k v}, latest first older k = some (i, v) → i < first + older.length :=
      fun h => (latest_bounds h).2
    rw [latest] at h h'
    split at h <;> split at h'
    · next hk hk' => exact hk.trans hk'.symm
    · obtain ⟨rfl, -⟩ := Prod.mk.inj (Option.some.inj h)
      exact absurd (hlt h') (lt_irrefl _)
    · obtain ⟨rfl, -⟩ := Prod.mk.inj (Option.some.inj h')
      exact absurd (hlt h) (lt_irrefl _)
    · exact ih h h'

/-- The keys whose newest entry is from some number on. -/
theorem card_le_of_latest {ks : Finset κ} {cutoff : Nat}
    (h : ∀ k ∈ ks, ∃ i v, latest first log k = some (i, v) ∧ cutoff ≤ i) :
    ks.card ≤ first + log.length - cutoff := by
  choose! number value hlatest hcutoff using h
  have hmaps : ∀ k ∈ ks, number k ∈ Finset.Ico cutoff (first + log.length) := fun k hk =>
    Finset.mem_Ico.mpr ⟨hcutoff k hk, (latest_bounds (hlatest k hk)).2⟩
  have hinj : Set.InjOn number ks := fun k hk k' hk' heq =>
    key_eq_of_latest (hlatest k hk) (heq ▸ hlatest k' hk')
  simpa using Finset.card_le_card_of_injOn number hmaps hinj

theorem latest_append : latest first (new ++ old) k =
    (latest (first + old.length) new k).or (latest first old k) := by
  induction new with
  | nil => rfl
  | cons x newer ih =>
    rw [List.cons_append, latest, latest]
    split
    · simp [Nat.add_assoc, Nat.add_comm]
    · exact ih

/-- What is kept of the newer part is what is kept of the whole log. -/
theorem latest_eq_iff {β : Type*} (first : Nat) (new old : List (κ × ν)) (keep : Nat × ν → Bool)
    (f : Nat × ν → β) :
    (∀ k, ((latest (first + old.length) new k).filter keep).map f =
        ((latest first (new ++ old) k).filter keep).map f) ↔
      ∀ k x, latest first old k = some x → keep x = true →
        ∃ y, latest (first + old.length) new k = some y := by
  constructor
  · intro h k x hx hkeep
    by_contra hnone
    have hnew : latest (first + old.length) new k = none :=
      Option.eq_none_iff_forall_ne_some.mpr fun y hy => hnone ⟨y, hy⟩
    have heq := h k
    rw [latest_append, hnew, hx] at heq
    simp [Option.filter, hkeep] at heq
  · intro h k
    rw [latest_append]
    cases hnew : latest (first + old.length) new k with
    | some y => rfl
    | none =>
      cases hold : latest first old k with
      | none => rfl
      | some x =>
        have hdrop : keep x = false := by
          by_contra hkeep
          obtain ⟨y, hy⟩ := h k x hold (by simpa using hkeep)
          simp [hnew] at hy
        simp [Option.filter, hdrop]

end Log
