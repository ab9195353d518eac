import Macbeth.Lib.FinMap

/-!
# Outboxes with retransmission

An outbox keeps what is to be delivered until it is acknowledged; an entry may not be available
yet.  Messages leave through a queue, and an entry whose message has left has a timer for the
next attempt.  Nothing is forgotten if every available entry has its message in the queue or a
timer (`Covered`).
-/

namespace Outbox

open Option FinMap

variable {κ ε μ : Type} [DecidableEq κ] {timer : ε → Option Nat} {message : κ → ε → μ}
variable {out : FinMap κ (Option ε)} {queue queue' : List μ}

/-- Every available entry is in the queue or timed. -/
def Covered (timer : ε → Option Nat) (message : κ → ε → μ) (out : FinMap κ (Option ε))
    (queue : List μ) : Prop :=
  ∀ k entry, out.lookup k = some (some entry) → (timer entry).isSome = true ∨ message k entry ∈ queue

theorem covered_of_keys_eq_nil (h : out.keys = []) : Covered timer message out queue := by
  intro k entry hentry
  have hmem : k ∈ out := mem_iff_lookup.mpr ⟨_, hentry⟩
  simp [AList.mem_keys, h] at hmem

theorem Covered.mono (h : Covered timer message out queue) (hsub : queue ⊆ queue') :
    Covered timer message out queue' :=
  fun k entry hentry => (h k entry hentry).imp_right fun hmem => hsub hmem

/-- An acknowledgment removes an entry. -/
theorem Covered.erase (h : Covered timer message out queue) (k : κ) :
    Covered timer message (out.erase k) queue :=
  fun k' entry hentry => h k' entry (lookup_of_lookup_erase hentry)

/-- An entry becomes available when its message is queued, or is timed when it has left. -/
theorem Covered.insert (h : Covered timer message out queue) {k : κ} {entry : ε}
    (hentry : (timer entry).isSome = true ∨ message k entry ∈ queue) :
    Covered timer message (out.insert k (some entry)) queue := by
  intro k' entry' hlookup
  rw [lookup_insert_eq] at hlookup
  split at hlookup
  · next heq =>
    obtain rfl := some.inj (some.inj hlookup)
    exact heq ▸ hentry
  · exact h k' entry' hlookup

/-- A message leaves the queue, after some that belong to no entry, and its entry is timed. -/
theorem Covered.leave {m : μ} {outdated rest : List μ} {k : κ} {entry : ε}
    (h : Covered timer message out (outdated ++ m :: rest))
    (hout : ∀ k' e, out.lookup k' = some (some e) → message k' e ∉ outdated)
    (hm : ∀ k' e, out.lookup k' = some (some e) → message k' e = m → k' = k)
    (htimer : (timer entry).isSome = true) :
    Covered timer message (out.insert k (some entry)) rest := by
  intro k' e hlookup
  rw [lookup_insert_eq] at hlookup
  split at hlookup
  · obtain rfl := some.inj (some.inj hlookup)
    exact .inl htimer
  · next hne =>
    rcases h k' e hlookup with ht | hmem
    · exact .inl ht
    · rcases List.mem_append.mp hmem with hmem | hmem
      · exact absurd hmem (hout k' e hlookup)
      · rcases List.mem_cons.mp hmem with heq | hmem
        · exact absurd (hm k' e hlookup heq) hne
        · exact .inr hmem

/-- The messages in front of the queue that belong to no entry are not needed. -/
theorem Covered.drop {outdated rest : List μ}
    (h : Covered timer message out (outdated ++ rest))
    (hout : ∀ k e, out.lookup k = some (some e) → message k e ∉ outdated) :
    Covered timer message out rest := by
  intro k e hlookup
  rcases h k e hlookup with ht | hmem
  · exact .inl ht
  · exact .inr ((List.mem_append.mp hmem).resolve_left (hout k e hlookup))

end Outbox
