import Mathlib

/-!
# Hash-linked lists

A list of items is linked when each item names the hash of the one before it.
If hashes do not collide, such a list is determined by its last item: two linked
lists that end in the same item agree all the way down to where the shorter one
starts.  `head?_eq_of_last` is the form a light client needs: a linked run that
ends at position `n` of a chain starts at position `n` minus its length.  A hash occurs at one
position only (`Linked.index_unique`).
-/

namespace HashChain

open List

variable {α κ : Type} (hash prev : α → κ)

/-- Each item names the hash of the item before it. -/
def Linked (xs : List α) : Prop := xs.IsChain fun a b => prev b = hash a

instance [DecidableEq κ] (xs : List α) : Decidable (Linked hash prev xs) :=
  inferInstanceAs (Decidable (List.IsChain _ _))

variable {hash prev}

/-- Neighbours in a linked list are linked. -/
theorem Linked.prev_eq {xs : List α} (h : Linked hash prev xs) {n : Nat} {a b : α}
    (ha : xs[n]? = some a) (hb : xs[n + 1]? = some b) : prev b = hash a := by
  obtain ⟨hn, rfl⟩ := List.getElem?_eq_some_iff.mp hb
  obtain ⟨hn', rfl⟩ := List.getElem?_eq_some_iff.mp ha
  exact isChain_iff_getElem.mp h n hn

/-- The part of a linked list up to some item is linked. -/
theorem Linked.of_append {xs ys : List α} (h : Linked hash prev (xs ++ ys)) :
    Linked hash prev xs :=
  h.left_of_append

/-- The last two items of a linked list are linked. -/
theorem Linked.prev_last {xs : List α} {a b : α} (h : Linked hash prev (xs ++ [a] ++ [b])) :
    prev b = hash a := by
  apply h.prev_eq (n := xs.length) <;> simp

/-- A linked run below an item of a chain is the run of the chain: it starts as
many positions below as it has items.  Items may only be confused with items of
the chain when their hashes collide, and nothing hashes to what the chain's first
item names. -/
theorem head?_eq_of_last {chain : List α} (hchain : Linked hash prev chain) (below : List α) :
    ∀ {n : Nat} {c d : α}, Linked hash prev (below ++ [c]) →
      (∀ x ∈ below ++ [c], ∀ y ∈ chain, hash x = hash y → x = y) →
      (∀ x ∈ below, ∀ g, chain.head? = some g → hash x ≠ prev g) →
      chain[n]? = some d → hash c = hash d →
      below.length ≤ n ∧ (below ++ [c]).head? = chain[n - below.length]? := by
  -- The run is peeled from its last item downwards, one height at a time.
  induction below using reverseRecOn with
  | nil =>
    intro n c d _ hfree _ hd hcd
    have hmem : d ∈ chain := mem_of_getElem? hd
    obtain rfl : c = d := hfree c (by simp) d hmem hcd
    simp [hd]
  | append_singleton below b ih =>
    intro n c d hrun hfree hfirst hd hcd
    obtain rfl : c = d := hfree c (by simp) d (mem_of_getElem? hd) hcd
    have hprev : prev c = hash b := hrun.prev_last
    cases n with
    | zero =>
      -- below the first item there is nothing
      have hhead : chain.head? = some c := by rwa [head?_eq_getElem?]
      exact absurd hprev.symm (hfirst b (by simp) c hhead)
    | succ n =>
      obtain ⟨e, he⟩ : ∃ e, chain[n]? = some e := by
        obtain ⟨hn, -⟩ := List.getElem?_eq_some_iff.mp hd
        exact ⟨chain[n], getElem?_eq_getElem (by omega)⟩
      have hbe : hash b = hash e := by rw [← hprev, hchain.prev_eq he hd]
      have hfree' : ∀ x ∈ below ++ [b], ∀ y ∈ chain, hash x = hash y → x = y := fun x hx =>
        hfree x (mem_append_left _ hx)
      have hfirst' : ∀ x ∈ below, ∀ g, chain.head? = some g → hash x ≠ prev g := fun x hx =>
        hfirst x (mem_append_left _ hx)
      obtain ⟨hle, hhead⟩ := ih (Linked.of_append hrun) hfree' hfirst' he hbe
      refine ⟨by simpa using hle, ?_⟩
      rw [length_append, length_singleton, Nat.add_sub_add_right, ← hhead]
      cases below <;> simp

/-- In a linked list without collisions, where nothing hashes to what the first item
names, a hash occurs at one position only. -/
theorem Linked.index_unique {chain : List α} (hchain : Linked hash prev chain)
    (hfree : ∀ x ∈ chain, ∀ y ∈ chain, hash x = hash y → x = y)
    (hfirst : ∀ g, chain.head? = some g → ∀ x ∈ chain, hash x ≠ prev g) :
    ∀ {i j : Nat} {a b : α}, chain[i]? = some a → chain[j]? = some b → hash a = hash b → i = j := by
  -- the first item is at no other position: it would name an item before it
  have hzero : ∀ {j : Nat} {a b : α}, chain[0]? = some a → chain[j + 1]? = some b →
      hash a ≠ hash b := by
    intro j a b ha hb hab
    obtain rfl : a = b := hfree a (mem_of_getElem? ha) b (mem_of_getElem? hb) hab
    have hlt : j < chain.length := Nat.lt_of_succ_lt (List.getElem?_eq_some_iff.mp hb).1
    have hc : chain[j]? = some chain[j] := getElem?_eq_getElem hlt
    exact hfirst a (by rwa [head?_eq_getElem?]) chain[j] (getElem_mem hlt)
      (hchain.prev_eq hc hb).symm
  intro i
  induction i with
  | zero =>
    intro j a b ha hb hab
    cases j with
    | zero => rfl
    | succ j => exact absurd hab (hzero ha hb)
  | succ i ih =>
    intro j a b ha hb hab
    cases j with
    | zero => exact absurd hab.symm (hzero hb ha)
    | succ j =>
      have hi : i < chain.length := Nat.lt_of_succ_lt (List.getElem?_eq_some_iff.mp ha).1
      have hj : j < chain.length := Nat.lt_of_succ_lt (List.getElem?_eq_some_iff.mp hb).1
      have ha' : chain[i]? = some chain[i] := getElem?_eq_getElem hi
      have hb' : chain[j]? = some chain[j] := getElem?_eq_getElem hj
      obtain rfl : a = b := hfree a (mem_of_getElem? ha) b (mem_of_getElem? hb) hab
      have hhash : hash chain[i] = hash chain[j] := by
        rw [← hchain.prev_eq ha' ha, hchain.prev_eq hb' hb]
      rw [ih ha' hb' hhash]

end HashChain
