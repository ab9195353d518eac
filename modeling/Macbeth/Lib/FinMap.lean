import Mathlib

/-!
# Finite maps

Mathlib's association lists without duplicate keys, at a constant value type, stand for
hash maps, ordered maps and key-value tables alike: what is proved about one never
depends on the order of its entries.
-/

/-- A finite map from `κ` to `ν`. -/
abbrev FinMap (κ : Type*) (ν : Type*) := AList fun _ : κ => ν

namespace FinMap

open List Option AList

variable {κ ν : Type*} [DecidableEq κ]

/-- The values, one per key. -/
def values (m : FinMap κ ν) : List ν := m.entries.map Sigma.snd

/-- The map that holds a list of keyed values, the first of a key winning. -/
def ofList (xs : List (κ × ν)) : FinMap κ ν := (xs.map fun x => ⟨x.1, x.2⟩ : List (Sigma _)).toAList

/-- The entries that pass a test. -/
def filter (m : FinMap κ ν) (p : κ → ν → Bool) : FinMap κ ν :=
  (m.entries.filter fun x => p x.1 x.2).toAList

variable {m : FinMap κ ν} {v : ν}

theorem mem_values : v ∈ m.values ↔ ∃ k, m.lookup k = some v := by
  simp only [values, List.mem_map, Sigma.exists, exists_eq_right]
  exact exists_congr fun k => AList.mem_lookup_iff.symm

theorem lookup_filter (m : FinMap κ ν) (p : κ → ν → Bool) (k : κ) :
    (m.filter p).lookup k = (m.lookup k).filter (p k) := by
  have hnodup : (m.entries.filter fun x => p x.1 x.2).NodupKeys :=
    List.NodupKeys.sublist filter_sublist m.nodupKeys
  ext v
  rw [AList.lookup, filter, toAList, dlookup_dedupKeys, mem_def.symm,
    mem_dlookup_iff hnodup, mem_filter, ← mem_lookup_iff]
  simp [filter_eq_some_iff]

theorem length_values (m : FinMap κ ν) : m.values.length = m.keys.toFinset.card := by
  have hnodup : m.keys.Nodup := m.nodupKeys
  rw [List.toFinset_card_of_nodup hnodup, values, AList.keys, List.keys]
  simp

variable {k : κ}

theorem mem_filter_of_lookup {p : κ → ν → Bool} (h : m.lookup k = some v) (hp : p k v = true) :
    k ∈ m.filter p := by
  have hmem : (⟨k, v⟩ : Sigma fun _ => ν) ∈ m.entries.filter fun x => p x.1 x.2 :=
    mem_filter.mpr ⟨mem_lookup_iff.mp h, hp⟩
  rw [← lookup_isSome, AList.lookup, filter, toAList, dlookup_dedupKeys,
    dlookup_isSome]
  exact mem_map_of_mem hmem

/-- The values that pass a test are those of as many keys. -/
theorem exists_keys_filter (m : FinMap κ ν) (p : ν → Bool) :
    ∃ ks : Finset κ, ks.card = (m.values.filter p).length ∧
      ∀ k ∈ ks, ∃ v, m.lookup k = some v ∧ v ∈ m.values.filter p := by
  have hvalues : m.values.filter p = (m.entries.filter (p ∘ Sigma.snd)).map Sigma.snd :=
    filter_map
  have hnodup : ((m.entries.filter (p ∘ Sigma.snd)).map Sigma.fst).Nodup :=
    List.NodupKeys.sublist filter_sublist m.nodupKeys
  refine ⟨((m.entries.filter (p ∘ Sigma.snd)).map Sigma.fst).toFinset, ?_, ?_⟩
  · rw [toFinset_card_of_nodup hnodup, hvalues, length_map, length_map]
  · intro k hk
    obtain ⟨⟨k, v⟩, hmem, rfl⟩ := mem_map.mp (mem_toFinset.mp hk)
    refine ⟨v, mem_lookup_iff.mpr (mem_filter.mp hmem).1, ?_⟩
    rw [hvalues]
    exact mem_map_of_mem hmem

/-! ## Bulk updates -/

/-- Insert unless the key is there. -/
def insertNew (m : FinMap κ ν) (k : κ) (v : ν) : FinMap κ ν := if k ∈ m then m else m.insert k v

variable {k' : κ}

@[simp] theorem mem_insertNew : k' ∈ m.insertNew k v ↔ k' = k ∨ k' ∈ m := by
  unfold insertNew
  by_cases h : k ∈ m
  · rw [if_pos h]
    exact ⟨Or.inr, fun h' => h'.elim (fun heq => heq ▸ h) id⟩
  · rw [if_neg h, mem_insert]

/-- Remove a list of keys. -/
def eraseAll (m : FinMap κ ν) (ks : List κ) : FinMap κ ν := ks.foldl (fun m k => m.erase k) m

@[simp] theorem mem_eraseAll : ∀ {ks : List κ} {m : FinMap κ ν}, k ∈ m.eraseAll ks ↔ k ∉ ks ∧ k ∈ m
  | [], m => by simp [eraseAll]
  | k' :: ks, m => by
    show k ∈ eraseAll (m.erase k') ks ↔ _
    rw [mem_eraseAll, mem_erase, mem_cons]
    tauto

/-- Store a list of values under their keys, keeping what is there. -/
def insertNewAll (m : FinMap κ ν) (key : ν → κ) (vs : List ν) : FinMap κ ν :=
  vs.foldl (fun m v => m.insertNew (key v) v) m

@[simp] theorem mem_insertNewAll {key : ν → κ} :
    ∀ {vs : List ν} {m : FinMap κ ν}, k ∈ m.insertNewAll key vs ↔ k ∈ vs.map key ∨ k ∈ m
  | [], m => by simp [insertNewAll]
  | v :: vs, m => by
    show k ∈ (m.insertNew (key v) v).insertNewAll key vs ↔ _
    rw [mem_insertNewAll, mem_insertNew, map_cons, mem_cons]
    tauto

/-- A lookup after an insertion. -/
theorem lookup_insert_eq (m : FinMap κ ν) (k k' : κ) (v : ν) :
    (m.insert k v).lookup k' = if k' = k then some v else m.lookup k' := by
  by_cases h : k' = k
  · rw [if_pos h, h, lookup_insert]
  · rw [if_neg h, lookup_insert_ne h]

/-- A sum over the values after an insertion: the new value takes the place of the old. -/
theorem sum_values_insert (m : FinMap κ ν) (k : κ) (v : ν) (f : ν → Nat) :
    ((FinMap.values (m.insert k v)).map f).sum + ((m.lookup k).map f).getD 0 =
      (m.values.map f).sum + f v := by
  have herase : ∀ xs : List (Sigma fun _ : κ => ν),
      ((xs.kerase k).map fun x => f x.2).sum + ((xs.dlookup k).map f).getD 0 =
        (xs.map fun x => f x.2).sum := by
    intro xs
    induction xs with
    | nil => simp
    | cons x xs ih =>
      obtain ⟨k', v'⟩ := x
      by_cases hk : k = k'
      · subst hk
        simp [Nat.add_comm]
      · have hne : k ≠ (⟨k', v'⟩ : Sigma fun _ : κ => ν).1 := hk
        rw [kerase_cons_ne hne, dlookup_cons_ne _ _ hne]
        simp only [map_cons, sum_cons]
        omega
  have hsum := herase m.entries
  simp only [values, AList.entries_insert, AList.lookup, List.map_map, List.map_cons, List.sum_cons,
    Function.comp_def]
  omega

/-- A lookup after a removal. -/
theorem lookup_erase_eq (m : FinMap κ ν) (k k' : κ) :
    (m.erase k).lookup k' = if k' = k then none else m.lookup k' := by
  by_cases h : k' = k
  · rw [if_pos h, h, lookup_erase]
  · rw [if_neg h, lookup_erase_ne h]

theorem lookup_erase_eq_some :
    (m.erase k).lookup k' = some v ↔ m.lookup k' = some v ∧ ¬ k' = k := by
  rw [lookup_erase_eq]
  by_cases h : k' = k <;> simp [h]

/-- What is found after a removal was there before. -/
theorem lookup_of_lookup_erase (h : (m.erase k).lookup k' = some v) : m.lookup k' = some v :=
  (lookup_erase_eq_some.mp h).1

theorem exists_lookup_ofList {xs : List (κ × ν)} (h : (k, v) ∈ xs) :
    ∃ v', (ofList xs).lookup k = some v' := by
  have hmem : k ∈ (xs.map fun x => (⟨x.1, x.2⟩ : Sigma fun _ : κ => ν)).keys := by
    rw [List.keys, List.map_map]
    exact mem_map.mpr ⟨(k, v), h, rfl⟩
  rw [ofList, AList.lookup, toAList, dlookup_dedupKeys]
  exact isSome_iff_exists.mp (dlookup_isSome.mpr hmem)

theorem mem_of_lookup_ofList {xs : List (κ × ν)} (h : (ofList xs).lookup k = some v) :
    (k, v) ∈ xs := by
  rw [ofList, AList.lookup, toAList, dlookup_dedupKeys] at h
  obtain ⟨x, hx, heq⟩ := mem_map.mp (of_mem_dlookup h)
  obtain ⟨k', v'⟩ := x
  cases heq
  exact hx

theorem mem_iff_lookup : k ∈ m ↔ ∃ v, m.lookup k = some v := by
  rw [← lookup_isSome, isSome_iff_exists]

/-! ## Maps of values with a property -/

/-- Every value of the map has the property. -/
def Every (P : ν → Prop) (m : FinMap κ ν) : Prop := ∀ k v, m.lookup k = some v → P v

section every
variable {P : ν → Prop} {m : FinMap κ ν}

theorem every_empty : Every P (∅ : FinMap κ ν) := nofun

theorem Every.insert (h : Every P m) {v : ν} (hv : P v) (k : κ) : Every P (m.insert k v) := by
  intro k' v' hlookup
  rw [lookup_insert_eq] at hlookup
  split at hlookup
  next => exact some.inj hlookup ▸ hv
  next => exact h k' v' hlookup

theorem Every.erase (h : Every P m) (k : κ) : Every P (m.erase k) :=
  fun k' v hlookup => h k' v (lookup_of_lookup_erase hlookup)

theorem Every.eraseAll : ∀ {ks : List κ} {m : FinMap κ ν}, Every P m → Every P (m.eraseAll ks)
  | [], _, h => h
  | k :: _, _, h => (h.erase k).eraseAll

theorem Every.insertNewAll {key : ν → κ} : ∀ {vs : List ν} {m : FinMap κ ν}, Every P m →
    (∀ v ∈ vs, P v) → Every P (m.insertNewAll key vs)
  | [], _, h, _ => h
  | v :: vs, m, h, hvs => by
    rw [forall_mem_cons] at hvs
    have hnew : Every P (m.insertNew (key v) v) := by
      unfold insertNew
      split
      · exact h
      · exact h.insert hvs.1 _
    exact hnew.insertNewAll hvs.2

end every

/-! ## Values that carry their key -/

/-- Every value is stored under its own key. -/
def KeyedBy (key : ν → κ) (m : FinMap κ ν) : Prop := ∀ k v, m.lookup k = some v → key v = k

section keyed
variable {key : ν → κ} {m : FinMap κ ν}

theorem keyedBy_empty : KeyedBy key (∅ : FinMap κ ν) := nofun

theorem KeyedBy.insert (h : KeyedBy key m) (v : ν) : KeyedBy key (m.insert (key v) v) := by
  intro k v' hlookup
  rw [lookup_insert_eq] at hlookup
  split at hlookup
  next heq => rw [← some.inj hlookup, heq]
  next => exact h k v' hlookup

theorem KeyedBy.insertNewAll : ∀ {vs : List ν} {m : FinMap κ ν}, KeyedBy key m →
    KeyedBy key (m.insertNewAll key vs)
  | [], _, h => h
  | v :: vs, m, h => by
    have hnew : KeyedBy key (m.insertNew (key v) v) := by
      unfold insertNew
      split
      · exact h
      · exact h.insert v
    exact hnew.insertNewAll

theorem KeyedBy.erase (h : KeyedBy key m) (k : κ) : KeyedBy key (m.erase k) :=
  fun k' v hlookup => h k' v (lookup_of_lookup_erase hlookup)

theorem KeyedBy.eraseAll : ∀ {ks : List κ} {m : FinMap κ ν}, KeyedBy key m →
    KeyedBy key (m.eraseAll ks)
  | [], _, h => h
  | k :: _, _, h => (h.erase k).eraseAll

theorem KeyedBy.filter (h : KeyedBy key m) (p : κ → ν → Bool) : KeyedBy key (m.filter p) := by
  intro k v hlookup
  rw [lookup_filter] at hlookup
  exact h k v (filter_eq_some_iff.mp hlookup).1

end keyed

end FinMap
