import Macbeth.Lib.Bytes

/-!
# Readers over a byte buffer

A reader consumes bytes from the front of a buffer and returns a value or an
error; a `do` block of readers is a parser with a moving cursor.  `Takes n r`
says that whenever `r` succeeds it has consumed a prefix of at least `n` bytes,
and it is additive over sequencing.  That one predicate gives both facts a
framing loop needs: what is left is a suffix of the input, and every round makes
progress.
-/

/-- A parser with a cursor: the buffer is the state. -/
abbrev Reader (ε α : Type) := StateT (List UInt8) (Except ε) α

namespace Reader

open Bytes List

variable {ε δ α β : Type}

/-- Run on a buffer: the value and the bytes that are left. -/
def parse (r : Reader ε α) (buf : List UInt8) : Except ε (α × List UInt8) := StateT.run r buf

/-- Change the error type, as `?` does through `From`. -/
def mapErr (f : ε → δ) (r : Reader ε α) : Reader δ α := fun buf => (r.parse buf).mapError f

/-- Take exactly `n` bytes off the front, or fail with `e`. -/
def slice (n : Nat) (e : ε) : Reader ε (List UInt8) := fun buf =>
  match readSlice n buf with
  | some p => .ok p
  | none => .error e

/-- How many bytes remain. -/
def remaining : Reader ε Nat := fun buf => .ok (buf.length, buf)

/-- Read `n` values one after the other. -/
def replicate (r : Reader ε α) : Nat → Reader ε (List α)
  | 0 => pure []
  | n + 1 => do
    let a ← r
    let as ← replicate r n
    return a :: as

/-! ## Running a reader -/

@[simp] theorem parse_pure (a : α) (buf : List UInt8) :
    (pure a : Reader ε α).parse buf = .ok (a, buf) := rfl

@[simp] theorem parse_throw (e : ε) (buf : List UInt8) :
    (throw e : Reader ε α).parse buf = .error e := rfl

@[simp] theorem parse_remaining (buf : List UInt8) :
    (remaining : Reader ε Nat).parse buf = .ok (buf.length, buf) := rfl

theorem parse_bind (r : Reader ε α) (f : α → Reader ε β) (buf : List UInt8) :
    (r >>= f).parse buf = match r.parse buf with
      | .ok (a, rest) => (f a).parse rest
      | .error e => .error e := by
  simp only [parse, StateT.run, bind, StateT.bind, Except.bind]
  cases r buf <;> rfl

variable {r : Reader ε α} {buf rest : List UInt8}

theorem parse_bind_eq_ok {f : α → Reader ε β} {b : β} :
    (r >>= f).parse buf = .ok (b, rest) ↔
      ∃ a mid, r.parse buf = .ok (a, mid) ∧ (f a).parse mid = .ok (b, rest) := by
  rw [parse_bind]
  cases r.parse buf with
  | error e => simp
  | ok p => obtain ⟨a, mid⟩ := p; simp

variable {n : Nat}

theorem parse_slice_append {e : ε} {pre : List UInt8} (h : pre.length = n) (rest : List UInt8) :
    (slice n e : Reader ε _).parse (pre ++ rest) = .ok (pre, rest) := by
  simp only [parse, StateT.run, slice, readSlice_append h rest]

theorem parse_slice_eq_ok {e : ε} {x : List UInt8}
    (h : (slice n e : Reader ε _).parse buf = .ok (x, rest)) : x.length = n ∧ buf = x ++ rest := by
  simp only [parse, StateT.run, slice] at h
  split at h
  case h_1 p hp =>
    obtain rfl : p = (x, rest) := by simpa using h
    exact readSlice_eq_some hp
  case h_2 => contradiction

theorem parse_mapErr_eq_ok {f : ε → δ} {p : α × List UInt8} :
    (r.mapErr f).parse buf = .ok p ↔ r.parse buf = .ok p := by
  change (r.parse buf).mapError f = .ok p ↔ _
  cases r.parse buf <;> simp [Except.mapError]

/-! ## Encodings -/

/-- The bytes are read as the value, whatever follows them. -/
def Reads (r : Reader ε α) (bytes : List UInt8) (a : α) : Prop :=
  ∀ rest, r.parse (bytes ++ rest) = .ok (a, rest)

section
variable {r : Reader ε α} {f : α → Reader ε β} {bytes bytes' : List UInt8} {a : α} {b : β}

/-- A sequence goes on after the bytes of its first part. -/
theorem Reads.parse_bind (h : Reads r bytes a) (rest : List UInt8) :
    (r >>= f).parse (bytes ++ rest) = (f a).parse rest := by
  rw [Reader.parse_bind, h]

theorem Reads.bind (h : Reads r bytes a) (hf : Reads (f a) bytes' b) :
    Reads (r >>= f) (bytes ++ bytes') b := by
  intro rest
  rw [append_assoc, h.parse_bind]
  exact hf rest

theorem Reads.map (h : Reads r bytes a) (g : α → β) : Reads (r >>= fun a => pure (g a)) bytes (g a) :=
  fun rest => h.parse_bind rest

theorem Reads.mapErr (h : Reads r bytes a) (g : ε → δ) : Reads (r.mapErr g) bytes a :=
  fun rest => parse_mapErr_eq_ok.mpr (h rest)

theorem Reads.replicate {encode : α → List UInt8} : ∀ {as : List α},
    (∀ a ∈ as, Reads r (encode a) a) → Reads (r.replicate as.length) (as.flatMap encode) as
  | [], _ => fun _ => rfl
  | a :: _, h => (h a mem_cons_self).bind
      ((Reads.replicate fun x hx => h x (mem_cons_of_mem a hx)).map (a :: ·))

end

/-- The reader takes the encodings of values, and nothing else. -/
abbrev Exact (r : Reader ε α) (encode : α → List UInt8) : Prop :=
  ∀ buf a rest, r.parse buf = .ok (a, rest) ↔ buf = encode a ++ rest

theorem Exact.mapErr {encode : α → List UInt8} (h : Exact r encode) (g : ε → δ) :
    Exact (r.mapErr g) encode :=
  fun buf a rest => parse_mapErr_eq_ok.trans (h buf a rest)

/-! ## Progress -/

/-- Whenever the reader succeeds it has consumed a prefix of at least `n` bytes. -/
def Takes (n : Nat) (r : Reader ε α) : Prop :=
  ∀ buf a rest, r.parse buf = .ok (a, rest) → ∃ used, buf = used ++ rest ∧ n ≤ used.length

theorem Takes.mono {m : Nat} (h : Takes m r) (hnm : n ≤ m) : Takes n r := by
  intro buf a rest hr
  obtain ⟨used, hbuf, hlen⟩ := h buf a rest hr
  exact ⟨used, hbuf, Nat.le_trans hnm hlen⟩

theorem takes_pure (a : α) : Takes 0 (pure a : Reader ε α) := by
  intro buf b rest h
  obtain ⟨-, rfl⟩ : a = b ∧ buf = rest := by simpa using h
  exact ⟨[], rfl, Nat.le_refl 0⟩

theorem takes_throw (n : Nat) (e : ε) : Takes n (throw e : Reader ε α) := by
  intro buf a rest h
  simp at h

theorem takes_remaining : Takes 0 (remaining : Reader ε Nat) := by
  intro buf a rest h
  obtain ⟨-, rfl⟩ : buf.length = a ∧ buf = rest := by simpa using h
  exact ⟨[], rfl, Nat.le_refl 0⟩

theorem takes_slice (n : Nat) (e : ε) : Takes n (slice n e : Reader ε _) := by
  intro buf x rest h
  obtain ⟨hlen, hbuf⟩ := parse_slice_eq_ok h
  exact ⟨x, hbuf, by omega⟩

/-- Sequencing adds what both halves consume. -/
theorem Takes.bind {m : Nat} {f : α → Reader ε β} (hr : Takes n r) (hf : ∀ a, Takes m (f a)) :
    Takes (n + m) (r >>= f) := by
  intro buf b rest h
  obtain ⟨a, mid, ha, hb⟩ := parse_bind_eq_ok.mp h
  obtain ⟨used₁, rfl, h₁⟩ := hr buf a mid ha
  obtain ⟨used₂, rfl, h₂⟩ := hf a mid b rest hb
  exact ⟨used₁ ++ used₂, by rw [append_assoc], by rw [length_append]; omega⟩

theorem Takes.mapErr (f : ε → δ) (h : Takes n r) : Takes n (r.mapErr f) :=
  fun buf a rest hr => h buf a rest (parse_mapErr_eq_ok.mp hr)

theorem Takes.ite {c : Prop} [Decidable c] {s : Reader ε α} (hr : Takes n r) (hs : Takes n s) :
    Takes n (if c then r else s) := by
  split
  · exact hr
  · exact hs

theorem Takes.replicate (h : Takes 0 r) : ∀ k, Takes 0 (r.replicate k)
  | 0 => takes_pure []
  | k + 1 => (h.bind fun a => ((Takes.replicate h k).bind fun _ => takes_pure _)).mono (by omega)

/-- What is left is no longer than the buffer, by the amount taken. -/
theorem Takes.length_le (h : Takes n r) {a : α} (hr : r.parse buf = .ok (a, rest)) :
    rest.length + n ≤ buf.length := by
  obtain ⟨used, rfl, hlen⟩ := h buf a rest hr
  rw [length_append]
  omega

end Reader
