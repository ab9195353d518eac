import Mathlib

/-!
# Maps that forget what was used least recently

`LruMap κ ν capacity` holds at most `capacity` entries, the most recently used first.
Inserting and reading move an entry to the front; when the map is full, the last entry goes.
So what can be read back is what was inserted under that key last, if it is still there
(`peek_insert`).
-/

/-- The entries, the most recently used first, with distinct keys. -/
structure LruMap (κ ν : Type) (capacity : Nat) where
  entries : List (κ × ν)
  nodup : (entries.map Prod.fst).Nodup
  bounded : entries.length ≤ capacity

namespace LruMap

open List

variable {κ ν : Type} {capacity : Nat}

instance : EmptyCollection (LruMap κ ν capacity) := ⟨⟨[], .nil, Nat.zero_le _⟩⟩

variable [DecidableEq κ] (m : LruMap κ ν capacity)

/-- Look an entry up without using it. -/
def peek (k : κ) : Option ν := (m.entries.find? fun e => e.1 = k).map Prod.snd

def remove (k : κ) : LruMap κ ν capacity where
  entries := m.entries.filter fun e => e.1 ≠ k
  nodup := m.nodup.sublist (List.filter_sublist.map _)
  bounded := (List.length_filter_le _ _).trans m.bounded

def insert (k : κ) (v : ν) : LruMap κ ν capacity where
  entries := ((k, v) :: (m.remove k).entries).take capacity
  nodup := by
    have hnodup : (((k, v) :: (m.remove k).entries).map Prod.fst).Nodup := by
      refine List.nodup_cons.mpr ⟨fun hmem => ?_, (m.remove k).nodup⟩
      obtain ⟨e, he, hek⟩ := List.mem_map.mp hmem
      simpa [hek] using (List.mem_filter.mp he).2
    exact hnodup.sublist ((List.take_sublist _ _).map _)
  bounded := by simp

/-- Read an entry, which moves it to the front. -/
def get (k : κ) : Option ν × LruMap κ ν capacity :=
  match m.peek k with
  | some v => (some v, m.insert k v)
  | none => (none, m)

variable {m}

theorem peek_eq_some {k : κ} {v : ν} : m.peek k = some v ↔ (k, v) ∈ m.entries := by
  unfold peek
  constructor
  · intro h
    obtain ⟨e, he, rfl⟩ := Option.map_eq_some_iff.mp h
    have hk : e.1 = k := by simpa using find?_some he
    rw [← hk]
    exact mem_of_find?_eq_some he
  · intro h
    cases hfind : m.entries.find? fun e => e.1 = k with
    | none =>
      have := find?_eq_none.mp hfind (k, v) h
      simp at this
    | some e =>
      have hk : e.1 = k := by simpa using find?_some hfind
      have he := mem_of_find?_eq_some hfind
      have heq : e = (k, v) := inj_on_of_nodup_map m.nodup he h hk
      rw [heq]
      rfl

theorem peek_insert_self (h : 0 < capacity) (k : κ) (v : ν) : (m.insert k v).peek k = some v := by
  refine peek_eq_some.mpr ?_
  obtain ⟨n, rfl⟩ := Nat.exists_eq_succ_of_ne_zero h.ne'
  exact mem_cons_self

/-- What is read after an insertion was inserted then or was there before. -/
theorem peek_insert {k k' : κ} {v v' : ν} (h : (m.insert k v).peek k' = some v') :
    k' = k ∧ v' = v ∨ k' ≠ k ∧ m.peek k' = some v' := by
  have hmem := mem_of_mem_take (peek_eq_some.mp h)
  rcases mem_cons.mp hmem with heq | hmem
  · exact .inl (Prod.mk.inj heq)
  · obtain ⟨hmem, hne⟩ := mem_filter.mp hmem
    exact .inr ⟨by simpa using hne, peek_eq_some.mpr hmem⟩

end LruMap
