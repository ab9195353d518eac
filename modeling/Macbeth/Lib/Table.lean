import Mathlib

/-!
# Ordered tables

A table of a key-value store with a cursor: entries in ascending order of their keys, at most
one for each key.  Writing replaces the entry of the key or puts it in its place; a cursor
reads the first and the last entry and walks over a range of keys.

New records often get the key after the last one, and then the table is a log: the entry is
added at the end (`entries_put_of_lt`), the last entry is replaced in place
(`entries_put_last`), and removing the keys up to one of them leaves the entries behind it.
-/

/-- Entries in ascending order of their keys. -/
structure Table (ν : Type) where
  entries : List (Nat × ν)
  ascending : entries.Pairwise fun a b => a.1 < b.1

namespace Table

open List Option

variable {ν : Type}

/-- The table without entries. -/
def empty : Table ν := ⟨[], .nil⟩

instance : EmptyCollection (Table ν) := ⟨empty⟩

/-- The entry of a key is replaced, or put in its place. -/
def putEntry (k : Nat) (v : ν) : List (Nat × ν) → List (Nat × ν)
  | [] => [(k, v)]
  | e :: rest =>
    if k < e.1 then (k, v) :: e :: rest
    else if k = e.1 then (k, v) :: rest
    else e :: putEntry k v rest

variable {k : Nat} {v : ν} {e : Nat × ν}

theorem mem_putEntry :
    ∀ {entries : List (Nat × ν)}, e ∈ putEntry k v entries → e = (k, v) ∨ e ∈ entries
  | [], h => .inl (mem_singleton.mp h)
  | d :: rest, h => by
    unfold putEntry at h
    split at h
    · exact mem_cons.mp h
    · split at h
      · exact (mem_cons.mp h).imp_right (mem_cons_of_mem d)
      · rcases mem_cons.mp h with rfl | h
        · exact .inr mem_cons_self
        · exact (mem_putEntry h).imp_right (mem_cons_of_mem d)

theorem ascending_putEntry : ∀ {entries : List (Nat × ν)},
    entries.Pairwise (fun a b => a.1 < b.1) →
      (putEntry k v entries).Pairwise fun a b => a.1 < b.1
  | [], _ => pairwise_singleton _ _
  | e :: rest, h => by
    obtain ⟨he, hrest⟩ := pairwise_cons.mp h
    unfold putEntry
    split
    case isTrue hlt =>
      refine pairwise_cons.mpr ⟨fun d hd => ?_, h⟩
      rcases mem_cons.mp hd with rfl | hd
      · exact hlt
      · exact hlt.trans (he d hd)
    case isFalse hge =>
      split
      case isTrue heq => exact pairwise_cons.mpr ⟨fun d hd => heq ▸ he d hd, hrest⟩
      case isFalse hne =>
        refine pairwise_cons.mpr ⟨fun d hd => ?_, ascending_putEntry hrest⟩
        rcases mem_putEntry hd with rfl | hd
        · show e.1 < k
          omega
        · exact he d hd

variable (t : Table ν)

/-- The value of a key. -/
def get? (k : Nat) : Option ν := t.entries.lookup k

/-- Write an entry. -/
def put (k : Nat) (v : ν) : Table ν := ⟨putEntry k v t.entries, ascending_putEntry t.ascending⟩

/-- The first entry under the cursor. -/
def first? : Option (Nat × ν) := t.entries.head?

/-- The last entry under the cursor. -/
def last? : Option (Nat × ν) := t.entries.getLast?

/-- The values in the order of their keys. -/
def values : List ν := t.entries.map Prod.snd

/-- The values a cursor walks over from one key to another. -/
def walkRange (first last : Nat) : List ν :=
  (t.entries.filter fun e => first ≤ e.1 ∧ e.1 ≤ last).map Prod.snd

/-- Delete the entries from one key to another. -/
def removeRange (first last : Nat) : Table ν :=
  ⟨t.entries.filter fun e => ¬ (first ≤ e.1 ∧ e.1 ≤ last), t.ascending.filter _⟩

/-- The key after the last one. -/
def nextKey : Nat := (t.last?.map Prod.fst).getD 0 + 1

variable {t}

/-! ## Reading -/

theorem lookup_eq_some_iff : ∀ {entries : List (Nat × ν)},
    entries.Pairwise (fun a b => a.1 < b.1) → (entries.lookup k = some v ↔ (k, v) ∈ entries)
  | [], _ => by simp
  | e :: rest, h => by
    obtain ⟨he, hrest⟩ := pairwise_cons.mp h
    have ih := lookup_eq_some_iff hrest
    by_cases heq : k = e.1
    · subst heq
      have hnot : (e.1, v) ∉ rest := fun hmem => Nat.lt_irrefl e.1 (he (e.1, v) hmem)
      rw [lookup_cons, beq_self_eq_true, mem_cons, or_iff_left hnot]
      exact ⟨fun hv => Prod.ext rfl (some.inj hv).symm, fun hv => by rw [← hv]⟩
    · rw [lookup_cons, beq_eq_false_iff_ne.mpr heq, mem_cons,
        or_iff_right fun hv => heq (congrArg Prod.fst hv)]
      exact ih

theorem get?_eq_some_iff : t.get? k = some v ↔ (k, v) ∈ t.entries :=
  lookup_eq_some_iff t.ascending

theorem mem_values : v ∈ t.values ↔ ∃ k, t.get? k = some v := by
  simp only [values, List.mem_map, get?_eq_some_iff, Prod.exists, exists_eq_right]

/-- The last entry, and what is before it. -/
theorem last?_eq_some_iff : t.last? = some e ↔ ∃ before, t.entries = before ++ [e] :=
  getLast?_eq_some_iff

theorem last?_eq_none_iff : t.last? = none ↔ t.entries = [] := getLast?_eq_none_iff

/-- No key is above that of the last entry. -/
theorem le_of_last? {d : Nat × ν} (h : t.last? = some e) (hd : d ∈ t.entries) :
    d = e ∨ d.1 < e.1 := by
  obtain ⟨before, hentries⟩ := last?_eq_some_iff.mp h
  have hasc := t.ascending
  rw [hentries] at hd hasc
  rcases mem_append.mp hd with hd | hd
  · exact .inr ((pairwise_append.mp hasc).2.2 d hd e mem_cons_self)
  · exact .inl (mem_singleton.mp hd)

theorem lt_nextKey (he : e ∈ t.entries) : e.1 < t.nextKey := by
  unfold nextKey
  cases hlast : t.last? with
  | none =>
    rw [last?_eq_none_iff.mp hlast] at he
    cases he
  | some d =>
    show e.1 < d.1 + 1
    rcases le_of_last? hlast he with rfl | hlt <;> omega

/-! ## Writing -/

theorem lookup_cons_eq_ite (k : Nat) (e : Nat × ν) (rest : List (Nat × ν)) :
    (e :: rest).lookup k = if k = e.1 then some e.2 else rest.lookup k := by
  by_cases h : k = e.1
  · simp [lookup, h]
  · simp [lookup, beq_eq_false_iff_ne.mpr h, h]

theorem lookup_putEntry (k k' : Nat) (v : ν) : ∀ entries : List (Nat × ν),
    (putEntry k v entries).lookup k' = if k' = k then some v else entries.lookup k'
  | [] => by simp [putEntry, lookup_cons_eq_ite]
  | e :: rest => by
    have ih := lookup_putEntry k k' v rest
    unfold putEntry
    split
    · rw [lookup_cons_eq_ite]
    · split
      case isTrue heq =>
        rw [lookup_cons_eq_ite, lookup_cons_eq_ite, ← heq]
        split <;> rfl
      case isFalse hne =>
        rw [lookup_cons_eq_ite, lookup_cons_eq_ite, ih]
        by_cases h : k' = e.1
        · have hk : k' ≠ k := fun hk => hne (hk.symm.trans h)
          rw [if_pos h, if_pos h, if_neg hk]
        · rw [if_neg h, if_neg h]

theorem get?_put (k k' : Nat) (v : ν) :
    (t.put k v).get? k' = if k' = k then some v else t.get? k' :=
  lookup_putEntry k k' v t.entries

@[simp] theorem get?_put_self (k : Nat) (v : ν) : (t.put k v).get? k = some v := by
  simp [get?_put]

theorem putEntry_append {before after : List (Nat × ν)} :
    (∀ e ∈ before, e.1 < k) → putEntry k v (before ++ after) = before ++ putEntry k v after := by
  intro h
  induction before with
  | nil => rfl
  | cons e before ih =>
    have he : e.1 < k := h e mem_cons_self
    have hnot : ¬ k < e.1 ∧ ¬ k = e.1 := by omega
    simp only [cons_append, putEntry, hnot, if_false,
      ih fun d hd => h d (mem_cons_of_mem e hd)]

/-- A key above all others is put at the end. -/
theorem entries_put_of_lt (h : ∀ e ∈ t.entries, e.1 < k) :
    (t.put k v).entries = t.entries ++ [(k, v)] := by
  have happend : putEntry k v (t.entries ++ []) = t.entries ++ putEntry k v [] := putEntry_append h
  rwa [append_nil] at happend

theorem entries_put_nextKey (v : ν) :
    (t.put t.nextKey v).entries = t.entries ++ [(t.nextKey, v)] :=
  entries_put_of_lt fun _ => lt_nextKey

/-- The last entry is replaced in place. -/
theorem entries_put_last {before : List (Nat × ν)} {w : ν} (h : t.entries = before ++ [(k, w)]) :
    (t.put k v).entries = before ++ [(k, v)] := by
  have hasc := t.ascending
  rw [h] at hasc
  have hbefore := (pairwise_append.mp hasc).2.2
  show putEntry k v t.entries = _
  rw [h, putEntry_append fun e he => hbefore e he (k, w) mem_cons_self]
  simp [putEntry]

theorem get?_removeRange (first last k : Nat) :
    (t.removeRange first last).get? k = if first ≤ k ∧ k ≤ last then none else t.get? k := by
  have hiff : ∀ v, (t.removeRange first last).get? k = some v ↔
      ¬ (first ≤ k ∧ k ≤ last) ∧ t.get? k = some v := by
    intro v
    rw [get?_eq_some_iff, get?_eq_some_iff, and_comm]
    show (k, v) ∈ t.entries.filter _ ↔ _
    rw [mem_filter, decide_eq_true_iff]
  by_cases h : first ≤ k ∧ k ≤ last
  · rw [if_pos h]
    exact eq_none_iff_forall_ne_some.mpr fun v hv => ((hiff v).mp hv).1 h
  · rw [if_neg h]
    exact ext fun v => by rw [hiff v, and_iff_right h]

/-- Deleting the first entry leaves the others. -/
theorem entries_removeRange_first {rest : List (Nat × ν)} (h : t.entries = e :: rest) :
    (t.removeRange e.1 e.1).entries = rest := by
  have hasc := t.ascending
  rw [h] at hasc
  have habove := (pairwise_cons.mp hasc).1
  show t.entries.filter _ = rest
  rw [h, filter_cons_of_neg (by simp), filter_eq_self]
  intro d hd
  have := habove d hd
  exact decide_eq_true (by omega)

end Table
