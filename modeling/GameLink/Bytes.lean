/-!
# Byte strings

A byte string is a list of octets.  This module holds little-endian numerals of a
fixed width and byte strings whose length is part of their type.

**Results.** A numeral is as long as its width (`length_ofNat`), reading a numeral
back gives the number modulo `256 ^ width` (`toNat_ofNat`), and every byte string is
the numeral of its own number (`ofNat_toNat`).
-/

namespace GameLink

/-- A string of octets. -/
abbrev Bytes := List UInt8

namespace Bytes

/-- The `width` low-order octets of a number, the least significant first. -/
def ofNat : Nat → Nat → Bytes
  | 0, _ => []
  | width + 1, n => UInt8.ofNat n :: ofNat width (n / 256)

/-- The number whose octets are given, the least significant first. -/
def toNat : Bytes → Nat
  | [] => 0
  | b :: bs => b.toNat + 256 * toNat bs

@[simp] theorem length_ofNat (width n : Nat) :
    (ofNat width n).length = width := by
  induction width generalizing n with
  | zero => rfl
  | succ width ih => simp [ofNat, ih]

/-- A numeral of `width` octets keeps a number modulo `256 ^ width`. -/
theorem toNat_ofNat (width n : Nat) :
    toNat (ofNat width n) = n % Nat.pow 256 width := by
  induction width generalizing n with
  | zero => simp [ofNat, toNat, Nat.mod_one]
  | succ width ih =>
      have head : (UInt8.ofNat n).toNat = n % 256 := UInt8.toNat_ofNat' ..
      have power : Nat.pow 256 (width + 1) = 256 * Nat.pow 256 width := Nat.pow_succ' ..
      rw [ofNat, toNat, ih, head, power, Nat.mod_mul]

theorem toNat_lt (bs : Bytes) : toNat bs < Nat.pow 256 bs.length := by
  induction bs with
  | nil => simp [toNat]
  | cons b bs ih =>
      have hb := b.toNat_lt
      have power : Nat.pow 256 (bs.length + 1) = 256 * Nat.pow 256 bs.length :=
        Nat.pow_succ' ..
      simp only [toNat, List.length_cons, power]
      omega

/-- A byte string is the numeral of the number it denotes. -/
theorem ofNat_toNat (bs : Bytes) : ofNat bs.length (toNat bs) = bs := by
  induction bs with
  | nil => rfl
  | cons b bs ih =>
      have hb := b.toNat_lt
      have hdiv : (b.toNat + 256 * toNat bs) / 256 = toNat bs := by omega
      have hmod : UInt8.ofNat (b.toNat + 256 * toNat bs) = b := by
        apply UInt8.toNat_inj.1
        simp only [UInt8.toNat_ofNat']
        omega
      simp only [List.length_cons, toNat, ofNat, hdiv, hmod, ih]

/-- Consecutive pieces of `size` octets; the last may be shorter. -/
def pieces (size : Nat) (bs : Bytes) : List Bytes :=
  if h : bs = [] ∨ size = 0 then
    []
  else
    have : bs.length ≠ 0 := fun e => h (Or.inl (List.eq_nil_of_length_eq_zero e))
    bs.take size :: pieces size (bs.drop size)
termination_by bs.length
decreasing_by simp only [List.length_drop]; omega

end Bytes

/-- A byte string of exactly `n` octets. -/
structure Octets (n : Nat) where
  /-- The octets. -/
  bytes : Bytes
  /-- There are `n` of them. -/
  length_eq : bytes.length = n
deriving DecidableEq

namespace Octets

def zero (n : Nat) : Octets n :=
  ⟨List.replicate n 0, by simp⟩

/-- A byte string of the right length. -/
def ofBytes? (n : Nat) (bs : Bytes) : Option (Octets n) :=
  if h : bs.length = n then some ⟨bs, h⟩ else none

/-- The numeral of a number, `n` octets wide. -/
def ofNat (n value : Nat) : Octets n :=
  ⟨Bytes.ofNat n value, Bytes.length_ofNat n value⟩

def toNat {n : Nat} (o : Octets n) : Nat :=
  Bytes.toNat o.bytes

instance {n : Nat} : Inhabited (Octets n) :=
  ⟨zero n⟩

theorem toNat_inj {n : Nat} {a b : Octets n} : a.toNat = b.toNat ↔ a = b := by
  constructor
  · intro h
    obtain ⟨bs, rfl⟩ := a
    obtain ⟨cs, hlength⟩ := b
    simp only [toNat] at h
    have hback := Bytes.ofNat_toNat cs
    rw [hlength, ← h, Bytes.ofNat_toNat] at hback
    subst hback
    rfl
  · rintro rfl
    rfl

theorem ofBytes?_bytes {n : Nat} (o : Octets n) :
    ofBytes? n o.bytes = some o := by
  simp [ofBytes?, o.length_eq]

end Octets

end GameLink
