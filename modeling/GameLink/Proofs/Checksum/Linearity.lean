import GameLink.Checksum.Castagnoli
import Mathlib.Logic.Basic

/-!
# The register over GF(2)

A division step is linear and loses nothing: the register after a sum of octet strings is the sum
of the registers, and it is zero only if it was zero.

**Algorithm.** Octets enter the register bit by bit, the lowest bit of an octet first
(`absorbBits`).  A number of at most 32 bits that enters this way is the same as its sum with the
register, shifted as often.

**Results.**
* `shift_xor`, `absorbAll_xor`: the register is linear.
* `shifts_eq_zero_iff`: shifting loses nothing.
* `absorbAll_eq_absorbBits`: octets enter as the bits of their number.
* `absorbBits_eq_shifts`, `absorbAll_ofNat`: a number of at most 32 bits enters at once.
-/

namespace GameLink
namespace Checksum

/-- Takes in the `count` lowest bits of a number, the lowest first. -/
def absorbBits : Nat → UInt32 → Nat → UInt32
  | 0, r, _ => r
  | count + 1, r, n => absorbBits count (shift (r ^^^ UInt32.ofNat (n % 2))) (n / 2)

variable {r s : UInt32}

section OneStep

theorem low_bit_iff (r : UInt32) : r &&& 1 = 1 ↔ r.toBitVec.getLsbD 0 = true := by
  have hlow : (r &&& 1).toBitVec =
      BitVec.setWidth 32 (BitVec.ofBool (r.toBitVec.getLsbD 0)) := by
    rw [UInt32.toBitVec_and]
    exact BitVec.and_one_eq_setWidth_ofBool_getLsbD
  rw [← UInt32.toBitVec_inj, hlow]
  cases r.toBitVec.getLsbD 0 with
  | true => decide
  | false => decide

theorem toBitVec_shift (r : UInt32) :
    (shift r).toBitVec =
      (r.toBitVec >>> 1) ^^^ (if r.toBitVec.getLsbD 0 then polynomial.toBitVec else 0#32) := by
  rw [shift]
  by_cases hlow : r.toBitVec.getLsbD 0 = true
  · rw [if_pos ((low_bit_iff r).mpr hlow), if_pos hlow]
    rfl
  · rw [if_neg fun h => hlow ((low_bit_iff r).mp h), if_neg hlow, BitVec.xor_zero]
    rfl

/-- A division step of a sum is the sum of the steps. -/
theorem shift_xor (r s : UInt32) : shift (r ^^^ s) = shift r ^^^ shift s := by
  apply UInt32.toBitVec_inj.mp
  simp only [UInt32.toBitVec_xor, toBitVec_shift, BitVec.getLsbD_xor,
    BitVec.ushiftRight_xor_distrib]
  cases r.toBitVec.getLsbD 0 with
  | false =>
      cases s.toBitVec.getLsbD 0 with
      | false => simp
      | true => simp [BitVec.xor_assoc]
  | true =>
      cases s.toBitVec.getLsbD 0 with
      | false =>
          simp only [Bool.true_xor, Bool.not_false, if_true, Bool.false_eq_true, if_false,
            BitVec.xor_zero]
          ac_rfl
      | true =>
          simp only [Bool.true_xor, Bool.not_true, Bool.false_eq_true, if_false, if_true,
            BitVec.xor_zero]
          rw [BitVec.xor_comm (s.toBitVec >>> 1) polynomial.toBitVec, BitVec.xor_assoc,
            ← BitVec.xor_assoc polynomial.toBitVec, BitVec.xor_self, BitVec.zero_xor]

@[simp] theorem shift_zero : shift 0 = 0 := by
  decide

/-- The highest bit of a step tells whether the polynomial was added, so nothing is lost. -/
theorem shift_eq_zero_iff (r : UInt32) : shift r = 0 ↔ r = 0 := by
  refine ⟨fun h => ?_, fun h => by rw [h, shift_zero]⟩
  have hbits := congrArg UInt32.toBitVec h
  rw [toBitVec_shift] at hbits
  have hlow : r.toBitVec.getLsbD 0 = false := by
    refine Bool.eq_false_iff.mpr fun hset => ?_
    rw [if_pos hset] at hbits
    have htop := congrArg (fun bits : BitVec 32 => bits.getLsbD 31) hbits
    rw [BitVec.getLsbD_xor, BitVec.getLsbD_ushiftRight, BitVec.getLsbD_of_ge _ _ (by omega)] at htop
    exact absurd htop (by decide)
  rw [hlow, if_neg Bool.false_ne_true, BitVec.xor_zero] at hbits
  apply UInt32.toBitVec_inj.mp
  refine BitVec.eq_of_getLsbD_eq fun i hi => ?_
  cases i with
  | zero => exact hlow
  | succ i =>
      have hbit := congrArg (fun bits : BitVec 32 => bits.getLsbD i) hbits
      rw [BitVec.getLsbD_ushiftRight, Nat.add_comm] at hbit
      rw [hbit, UInt32.toBitVec_zero, BitVec.getLsbD_zero, BitVec.getLsbD_zero]

end OneStep

section ManySteps

theorem shifts_xor (n : Nat) (r s : UInt32) : shifts n (r ^^^ s) = shifts n r ^^^ shifts n s := by
  induction n generalizing r s with
  | zero => rfl
  | succ n ih => rw [shifts, shift_xor, ih]; rfl

theorem shifts_eq_zero_iff (n : Nat) (r : UInt32) : shifts n r = 0 ↔ r = 0 := by
  induction n generalizing r with
  | zero => rfl
  | succ n ih => rw [shifts, ih, shift_eq_zero_iff]

theorem absorb_xor (r s : UInt32) (u v : UInt8) :
    absorb (r ^^^ s) (u ^^^ v) = absorb r u ^^^ absorb s v := by
  rw [absorb, absorb, absorb, ← shifts_xor, UInt8.toUInt32_xor]
  congr 1
  ac_rfl

/-- The register after the sum of two octet strings of one length. -/
theorem absorbAll_xor (r s : UInt32) {u v : Bytes} (h : u.length = v.length) :
    absorbAll (r ^^^ s) (List.zipWith (· ^^^ ·) u v) = absorbAll r u ^^^ absorbAll s v := by
  induction u generalizing r s v with
  | nil =>
      rw [List.eq_nil_of_length_eq_zero h.symm]
      rfl
  | cons octet u ih =>
      cases v with
      | nil => cases h
      | cons other v =>
          simp only [absorbAll, List.zipWith_cons_cons, List.foldl_cons, absorb_xor]
          exact ih _ _ (Nat.succ.inj h)

end ManySteps

section BitByBit

theorem absorbBits_add (count more : Nat) (r : UInt32) (n : Nat) :
    absorbBits (count + more) r n = absorbBits more (absorbBits count r n) (n >>> count) := by
  induction count generalizing r n with
  | zero => rw [Nat.zero_add]; rfl
  | succ count ih =>
      rw [Nat.succ_add, absorbBits, ih, absorbBits, Nat.shiftRight_succ_inside]

/-- Bits beyond those taken in do not matter. -/
theorem absorbBits_congr {count n m : Nat} (r : UInt32)
    (h : n % (1 <<< count) = m % (1 <<< count)) :
    absorbBits count r n = absorbBits count r m := by
  induction count generalizing r n m with
  | zero => rfl
  | succ count ih =>
      rw [Nat.shiftLeft_succ] at h
      have hlow : n % 2 = m % 2 := by
        rw [← Nat.mod_mul_right_mod n 2, h, Nat.mod_mul_right_mod]
      have hhigh : n / 2 % (1 <<< count) = m / 2 % (1 <<< count) := by
        rw [← Nat.mod_mul_right_div_self, h, Nat.mod_mul_right_div_self]
      rw [absorbBits, absorbBits, hlow, ih _ hhigh]

/-- Zeros in front leave an empty register empty. -/
theorem absorbBits_shiftLeft (place count n : Nat) :
    absorbBits (place + count) 0 (n <<< place) = absorbBits count 0 n := by
  induction place with
  | zero => rw [Nat.zero_add]; rfl
  | succ place ih =>
      have hlow : n <<< (place + 1) % 2 = 0 := by
        rw [Nat.shiftLeft_succ, Nat.mul_mod_right]
      have hhigh : n <<< (place + 1) / 2 = n <<< place := by
        rw [Nat.shiftLeft_succ, Nat.mul_div_cancel_left _ (by decide)]
      rw [Nat.succ_add, absorbBits, hlow, hhigh]
      exact ih

/-- An even number of 32 bits is halved. -/
theorem shift_double {n : Nat} (h : 2 * n < UInt32.size) :
    shift (UInt32.ofNat (2 * n)) = UInt32.ofNat n := by
  apply UInt32.toNat_inj.mp
  have hlow : (UInt32.ofNat (2 * n)) &&& 1 ≠ 1 := by
    intro hset
    have hnumber := congrArg UInt32.toNat hset
    rw [UInt32.toNat_and, UInt32.toNat_ofNat_of_lt' h, UInt32.toNat_one,
      Nat.and_one_is_mod] at hnumber
    omega
  rw [shift, if_neg hlow, UInt32.toNat_shiftRight, UInt32.toNat_ofNat_of_lt' h,
    UInt32.toNat_ofNat_of_lt' (by omega)]
  exact Nat.mul_div_cancel_left n (by decide)

/-- A number is the sum of its lowest bit and the others. -/
theorem xor_double (n : Nat) : (n % 2) ^^^ (2 * (n / 2)) = n := by
  refine Nat.eq_of_testBit_eq fun i => ?_
  cases i with
  | zero => simp
  | succ i => simp [Nat.testBit_succ, Nat.xor_div_two]

/-- A number of at most 32 bits that is taken in whole is added to the register at once. -/
theorem absorbBits_eq_shifts {count n : Nat} (r : UInt32) (hsize : n < UInt32.size)
    (hwhole : n >>> count = 0) :
    absorbBits count r n = shifts count (r ^^^ UInt32.ofNat n) := by
  induction count generalizing r n with
  | zero =>
      rw [show n = 0 from hwhole]
      exact (UInt32.xor_zero).symm
  | succ count ih =>
      have hhalf : (n / 2) >>> count = 0 := by
        rw [← Nat.shiftRight_succ_inside]
        exact hwhole
      have hsplit : UInt32.ofNat n = UInt32.ofNat (n % 2) ^^^ UInt32.ofNat (2 * (n / 2)) := by
        rw [← UInt32.ofNat_xor, xor_double]
      rw [absorbBits, ih _ (by omega) hhalf, shifts, hsplit, ← UInt32.xor_assoc,
        shift_xor (r ^^^ UInt32.ofNat (n % 2)), shift_double (by omega)]

theorem absorb_eq_absorbBits (r : UInt32) (octet : UInt8) :
    absorb r octet = absorbBits 8 r octet.toNat := by
  have hlt := octet.toNat_lt
  have hwhole : octet.toNat >>> 8 = 0 := by
    rw [Nat.shiftRight_eq_div_pow]
    exact Nat.div_eq_of_lt hlt
  rw [absorbBits_eq_shifts r (Nat.lt_trans hlt (by decide)) hwhole, UInt32.ofNat_uInt8ToNat, absorb]

/-- Octets enter the register as the bits of their number. -/
theorem absorbAll_eq_absorbBits (r : UInt32) (data : Bytes) :
    absorbAll r data = absorbBits (8 * data.length) r (Bytes.toNat data) := by
  induction data generalizing r with
  | nil => rfl
  | cons octet rest ih =>
      have hlt := octet.toNat_lt
      have hlow : (octet.toNat + 256 * Bytes.toNat rest) % (1 <<< 8) = octet.toNat % (1 <<< 8) := by
        rw [show 1 <<< 8 = 256 from rfl]
        omega
      have hhigh : (octet.toNat + 256 * Bytes.toNat rest) >>> 8 = Bytes.toNat rest := by
        rw [Nat.shiftRight_eq_div_pow]
        omega
      rw [List.length_cons, Nat.mul_succ, Nat.add_comm, absorbBits_add, Bytes.toNat, hhigh,
        absorbBits_congr r hlow, ← absorb_eq_absorbBits, ← ih]
      rfl

/-- A number of 32 bits enters the register at once. -/
theorem absorbAll_ofNat (r w : UInt32) :
    absorbAll r (Bytes.ofNat 4 w.toNat) = shifts 32 (r ^^^ w) := by
  have hlt : w.toNat < UInt32.size := w.toNat_lt
  have hnumber : Bytes.toNat (Bytes.ofNat 4 w.toNat) = w.toNat := by
    rw [Bytes.toNat_ofNat]
    exact Nat.mod_eq_of_lt hlt
  have hwhole : w.toNat >>> 32 = 0 := by
    rw [Nat.shiftRight_eq_div_pow]
    exact Nat.div_eq_of_lt hlt
  rw [absorbAll_eq_absorbBits, Bytes.length_ofNat, hnumber, absorbBits_eq_shifts r hlt hwhole,
    UInt32.ofNat_toNat]

end BitByBit

end Checksum
end GameLink
