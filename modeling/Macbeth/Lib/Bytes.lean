import Mathlib

/-!
# Byte strings

Little- and big-endian integers of a fixed width, reading a slice off the front
of a buffer, and hexadecimal text.  Everything is a structural recursion over
the byte list, so the codecs evaluate; each reader comes with two facts: what it
does on an encoding followed by arbitrary bytes, and that the bytes it leaves are
a suffix of its input (which is what bounds a loop that keeps reading).
-/

namespace Bytes

open List Option

variable {α : Type}

/-! ## Integers of a fixed width -/

/-- The `width` low bytes of `n`, least significant first. -/
def toLE : (width n : Nat) → List UInt8
  | 0, _ => []
  | w + 1, n => UInt8.ofNat n :: toLE w (n / 256)

/-- The integer of a little-endian byte list. -/
def ofLE : List UInt8 → Nat
  | [] => 0
  | b :: bs => b.toNat + 256 * ofLE bs

@[simp] theorem length_toLE : ∀ w n : Nat, (toLE w n).length = w
  | 0, _ => rfl
  | w + 1, n => by simp [toLE, length_toLE w]

theorem ofLE_toLE : ∀ {w n : Nat}, n < 256 ^ w → ofLE (toLE w n) = n
  | 0, n, h => by simp at h; simp [toLE, ofLE, h]
  | w + 1, n, h => by
    have hn : n / 256 < 256 ^ w := by rw [Nat.div_lt_iff_lt_mul (by decide)]; rwa [Nat.pow_succ] at h
    rw [toLE, ofLE, ofLE_toLE hn, UInt8.toNat_ofNat']
    omega

variable {w n : Nat}

theorem toLE_inj {m : Nat} (hm : m < 256 ^ w) (hn : n < 256 ^ w) : toLE w m = toLE w n ↔ m = n :=
  ⟨fun h => by rw [← ofLE_toLE hm, h, ofLE_toLE hn], congrArg _⟩

/-- Integers of one width need no separator. -/
theorem flatMap_toLE_inj (hw : 0 < w) : ∀ {xs ys : List Nat},
    (∀ x ∈ xs, x < 256 ^ w) → (∀ y ∈ ys, y < 256 ^ w) →
      (xs.flatMap (toLE w) = ys.flatMap (toLE w) ↔ xs = ys)
  | [], [], _, _ => by simp
  | [], y :: ys, _, _ => by simp [← length_eq_zero_iff, hw.ne']
  | x :: xs, [], _, _ => by simp [← length_eq_zero_iff, hw.ne']
  | x :: xs, y :: ys, hx, hy => by
    simp only [forall_mem_cons] at hx hy
    rw [cons.injEq, ← toLE_inj hx.1 hy.1, ← flatMap_toLE_inj hw hx.2 hy.2]
    exact ⟨fun h => append_inj h (by simp), fun h => by simp [h.1, h.2]⟩

theorem ofLE_lt : ∀ bs : List UInt8, ofLE bs < 256 ^ bs.length
  | [] => by simp [ofLE]
  | b :: bs => by
    have hb := UInt8.toNat_lt b
    have ih := ofLE_lt bs
    rw [ofLE, length_cons, Nat.pow_succ]
    omega

theorem toLE_ofLE : ∀ bs : List UInt8, toLE bs.length (ofLE bs) = bs
  | [] => rfl
  | b :: bs => by
    have hb := UInt8.toNat_lt b
    have hdiv : (b.toNat + 256 * ofLE bs) / 256 = ofLE bs := by omega
    have hlow : UInt8.ofNat (b.toNat + 256 * ofLE bs) = b := by
      apply UInt8.toNat_inj.mp
      rw [UInt8.toNat_ofNat']
      omega
    rw [length_cons, ofLE, toLE, hdiv, toLE_ofLE bs, hlow]

/-- The `width` low bytes of `n`, most significant first. -/
def toBE (width n : Nat) : List UInt8 := (toLE width n).reverse

/-- The integer of a big-endian byte list. -/
def ofBE (bs : List UInt8) : Nat := ofLE bs.reverse

@[simp] theorem length_toBE (w n : Nat) : (toBE w n).length = w := by simp [toBE]

theorem ofBE_toBE (h : n < 256 ^ w) : ofBE (toBE w n) = n := by
  rw [ofBE, toBE, reverse_reverse, ofLE_toLE h]

theorem toBE_ofBE {bs : List UInt8} (h : bs.length = w) : toBE w (ofBE bs) = bs := by
  have := toLE_ofLE bs.reverse
  rw [length_reverse, h] at this
  rw [toBE, ofBE, this, reverse_reverse]

theorem ofBE_lt (bs : List UInt8) : ofBE bs < 256 ^ bs.length := by
  simpa [ofBE] using ofLE_lt bs.reverse

/-- `256 ^ w` and `2 ^ (8 * w)` are the same bound. -/
theorem pow_256 (w : Nat) : 256 ^ w = 2 ^ (8 * w) := by
  rw [Nat.pow_mul]

/-- A machine word survives its little-endian encoding. -/
theorem ofNat_ofLE_toLE {k : Nat} (hk : k = 8 * w) (x : BitVec k) :
    BitVec.ofNat k (ofLE (toLE w x.toNat)) = x := by
  subst hk
  rw [ofLE_toLE (by rw [pow_256]; exact x.isLt), BitVec.ofNat_toNat, BitVec.setWidth_eq]

/-- A machine word survives its big-endian encoding. -/
theorem ofNat_ofBE_toBE {k : Nat} (hk : k = 8 * w) (x : BitVec k) :
    BitVec.ofNat k (ofBE (toBE w x.toNat)) = x := by
  rw [ofBE, toBE, reverse_reverse, ofNat_ofLE_toLE hk]

/-! ## Reading from the front of a buffer -/

/-- Take exactly `n` bytes, or fail when fewer remain. -/
def readSlice (n : Nat) (buf : List α) : Option (List α × List α) :=
  if n ≤ buf.length then some (buf.take n, buf.drop n) else none

theorem readSlice_append {pre : List α} (h : pre.length = n) (rest : List α) :
    readSlice n (pre ++ rest) = some (pre, rest) := by
  simp [readSlice, ← h]

/-- What was read, followed by what is left, is the buffer. -/
theorem readSlice_eq_some {buf x rest : List α} (h : readSlice n buf = some (x, rest)) :
    x.length = n ∧ buf = x ++ rest := by
  unfold readSlice at h
  split at h
  case isTrue hn =>
    obtain ⟨rfl, rfl⟩ : buf.take n = x ∧ buf.drop n = rest := by simpa using h
    exact ⟨by rw [length_take]; omega, (take_append_drop n buf).symm⟩
  case isFalse => contradiction

/-! ## Hexadecimal text -/

/-- The lower-case digit of a nibble. -/
def hexDigit (n : Fin 16) : Char :=
  if n.val < 10 then Char.ofNat (48 + n.val) else Char.ofNat (87 + n.val)

/-- The nibble of a digit of either case. -/
def hexValue (c : Char) : Option Nat :=
  if 48 ≤ c.toNat ∧ c.toNat ≤ 57 then some (c.toNat - 48)
  else if 97 ≤ c.toNat ∧ c.toNat ≤ 102 then some (c.toNat - 87)
  else if 65 ≤ c.toNat ∧ c.toNat ≤ 70 then some (c.toNat - 55)
  else none

theorem hexValue_hexDigit : ∀ n : Fin 16, hexValue (hexDigit n) = some n.val := by decide

/-- Two lower-case digits for each byte. -/
def toHex : List UInt8 → List Char
  | [] => []
  | b :: bs => hexDigit ⟨b.toNat / 16, by have := UInt8.toNat_lt b; omega⟩ ::
      hexDigit ⟨b.toNat % 16, by omega⟩ :: toHex bs

/-- The bytes of a hexadecimal text; an odd length or a foreign character fails. -/
def ofHex : List Char → Option (List UInt8)
  | [] => some []
  | [_] => none
  | c :: d :: cs => do
    let hi ← hexValue c
    let lo ← hexValue d
    let rest ← ofHex cs
    return UInt8.ofNat (16 * hi + lo) :: rest

theorem ofHex_toHex : ∀ bs : List UInt8, ofHex (toHex bs) = some bs
  | [] => rfl
  | b :: bs => by
    have hb : UInt8.ofNat (16 * (b.toNat / 16) + b.toNat % 16) = b := by
      rw [Nat.div_add_mod, UInt8.ofNat_toNat]
    simp only [toHex, ofHex, hexValue_hexDigit, ofHex_toHex bs, bind_eq_bind,
      Option.bind_some, hb, Option.pure_def]

@[simp] theorem length_toHex : ∀ bs : List UInt8, (toHex bs).length = 2 * bs.length
  | [] => rfl
  | b :: bs => by simp [toHex, length_toHex bs]; omega

/-- Every character of an encoded byte list is a digit of some nibble. -/
theorem mem_toHex : ∀ {bs : List UInt8} {c : Char}, c ∈ toHex bs → ∃ n, c = hexDigit n
  | b :: bs, c, h => by
    rw [toHex, mem_cons, mem_cons] at h
    rcases h with h | h | h
    · exact ⟨_, h⟩
    · exact ⟨_, h⟩
    · exact mem_toHex h

end Bytes
