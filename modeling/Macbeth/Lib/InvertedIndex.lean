import Macbeth.Lib.FinMap

/-!
# Inverted indexes

A map `m` whose values mention items, and beside it an index that lists under every item the
keys of the values that mention it.  `Indexes` says that the index is right; it is kept

* by `Indexes.insert`, when a value is stored and its key is pushed under its items, and
* by `Indexes.erase`, when a value goes together with the whole entries of its items, as long
  as no other value mentions one of them.
-/

namespace FinMap

variable {κ ν ι : Type}

section definitions
variable [DecidableEq ι]

/-- Add a key to the list of an item. -/
def push (index : FinMap ι (List κ)) (i : ι) (k : κ) : FinMap ι (List κ) :=
  index.insert i ((index.lookup i).getD [] ++ [k])

/-- The keys listed under an item. -/
def listed (index : FinMap ι (List κ)) (i : ι) : List κ := (index.lookup i).getD []

/-- Under every item the index lists the keys of the values that mention it. -/
def Indexes [DecidableEq κ] (items : ν → List ι) (index : FinMap ι (List κ)) (m : FinMap κ ν) : Prop :=
  ∀ i k, k ∈ index.listed i ↔ ∃ v, m.lookup k = some v ∧ i ∈ items v

theorem mem_listed_push {index : FinMap ι (List κ)} {i j : ι} {k k' : κ} :
    k' ∈ (index.push i k).listed j ↔ (j = i ∧ k' = k) ∨ k' ∈ index.listed j := by
  rw [listed, push, lookup_insert_eq]
  by_cases h : j = i
  · subst h
    simp [listed, or_comm]
  · simp [h, listed]

theorem mem_listed_foldl_push {k k' : κ} {j : ι} : ∀ {is : List ι} {index : FinMap ι (List κ)},
    k' ∈ (is.foldl (fun m i => m.push i k) index).listed j ↔
      (j ∈ is ∧ k' = k) ∨ k' ∈ index.listed j
  | [], index => by simp
  | i :: is, index => by
    rw [List.foldl_cons, mem_listed_foldl_push, mem_listed_push, List.mem_cons]
    tauto

theorem lookup_eraseAll {j : ι} : ∀ {is : List ι} {m : FinMap ι ν},
    (m.eraseAll is).lookup j = if j ∈ is then none else m.lookup j
  | [], m => by simp [eraseAll]
  | i :: is, m => by
    show (eraseAll (m.erase i) is).lookup j = _
    rw [lookup_eraseAll, lookup_erase_eq]
    by_cases hj : j = i
    · simp [hj]
    · simp [hj]

end definitions

variable [DecidableEq κ]

/-- No value under another key mentions an item of the value under `k`. -/
def Unshared (items : ν → List ι) (m : FinMap κ ν) (k : κ) : Prop :=
  ∀ v, m.lookup k = some v → ∀ k' v', k' ≠ k → m.lookup k' = some v' →
    ∀ i ∈ items v, i ∉ items v'

instance [DecidableEq ι] (items : ν → List ι) (m : FinMap κ ν) (k : κ) :
    Decidable (Unshared items m k) :=
  decidable_of_iff
    (∀ v ∈ m.lookup k, ∀ e ∈ m.entries, e.1 ≠ k → ∀ i ∈ items v, i ∉ items e.2)
    ⟨fun h v hv k' v' hne hv' => h v hv ⟨k', v'⟩ (AList.mem_lookup_iff.mp hv') hne,
      fun h v hv e he hne => h v hv e.1 e.2 hne (AList.mem_lookup_iff.mpr he)⟩

theorem Unshared.mono {items : ν → List ι} {m m' : FinMap κ ν} {k : κ} (h : Unshared items m k)
    (hsub : ∀ k v, m'.lookup k = some v → m.lookup k = some v) : Unshared items m' k :=
  fun v hv k' v' hne hv' => h v (hsub k v hv) k' v' hne (hsub k' v' hv')

section kept
variable [DecidableEq ι] {items : ν → List ι} {index : FinMap ι (List κ)} {m : FinMap κ ν} {k : κ} {v : ν}

theorem indexes_empty : Indexes items (∅ : FinMap ι (List κ)) (∅ : FinMap κ ν) := by
  intro i k
  simp [listed]

/-- A value that takes the place of none, or of one with the same items. -/
theorem Indexes.insert (h : Indexes items index m)
    (hsame : ∀ old, m.lookup k = some old → items old = items v) :
    Indexes items ((items v).foldl (fun m i => m.push i k) index) (m.insert k v) := by
  intro i k'
  rw [mem_listed_foldl_push, h i k', lookup_insert_eq]
  by_cases hk : k' = k
  · subst hk
    simp only [and_true, if_true, Option.some.injEq, exists_eq_left']
    constructor
    · rintro (hi | ⟨old, hold, hi⟩)
      · exact hi
      · rwa [← hsame old hold]
    · exact .inl
  · simp [hk]

/-- A value goes with the entries of its items, which no other value mentions. -/
theorem Indexes.erase (h : Indexes items index m) (hv : m.lookup k = some v)
    (hunshared : Unshared items m k) :
    Indexes items (index.eraseAll (items v)) (m.erase k) := by
  intro i k'
  rw [listed, lookup_eraseAll, lookup_erase_eq]
  by_cases hi : i ∈ items v
  · rw [if_pos hi]
    simp only [Option.getD_none, List.not_mem_nil, false_iff]
    rintro ⟨v', hv', hi'⟩
    by_cases hk : k' = k
    · simp [hk] at hv'
    · rw [if_neg hk] at hv'
      exact hunshared v hv k' v' hk hv' i hi hi'
  · rw [if_neg hi]
    refine (h i k').trans ?_
    by_cases hk : k' = k
    · subst hk
      simp [hv, hi]
    · rw [if_neg hk]

end kept

end FinMap
