import GameLink.Proofs.Checksum.Linearity
import GameLink.Proofs.PlainDatagram

/-!
# Burst errors

No error within 32 consecutive bits takes a signed string to a signed string.

**Algorithm.** The register after a signed string is the same for all of them (`residue`).  An
error adds to the register what it leaves in an empty one (`absorbAll_alter`), and a burst leaves
something there, since its 32 bits enter at once.

**Results.**
* `absorbAll_of_signed`: the constant residue.
* `IsBurst.absorbAll_ne_zero`: a burst leaves something in the register.
* `signedBody?_alter`: an altered string is not signed.
-/

namespace GameLink

namespace Bytes

/-- A bit of a string, counted from the lowest bit of the first octet. -/
def bit (bs : Bytes) (i : Nat) : Bool :=
  (bs.getD (i / 8) 0).toNat.testBit (i % 8)

/-- The bits of a string are those of its number. -/
theorem testBit_toNat (bs : Bytes) (i : Nat) : (toNat bs).testBit i = bs.bit i := by
  induction bs generalizing i with
  | nil => simp [toNat, bit]
  | cons octet rest ih =>
      have hnumber : toNat (octet :: rest) = 2 ^ 8 * toNat rest + octet.toNat := by
        rw [toNat]
        omega
      rw [hnumber, Nat.testBit_two_pow_mul_add _ octet.toNat_lt]
      by_cases hfirst : i < 8
      · rw [if_pos hfirst, bit, Nat.div_eq_of_lt hfirst, Nat.mod_eq_of_lt hfirst]
        rfl
      · obtain ⟨j, rfl⟩ := Nat.exists_eq_add_of_le' (Nat.le_of_not_lt hfirst)
        rw [if_neg hfirst, Nat.add_sub_cancel, ih, bit, bit, Nat.add_div_right j (by decide),
          Nat.add_mod_right]
        rfl

end Bytes

/-- An error pattern that is not zero and lies within 32 consecutive bits. -/
structure IsBurst (error : Bytes) : Prop where
  nonzero : ∃ i, error.bit i = true
  confined : ∃ first, ∀ i, error.bit i = true → first ≤ i ∧ i < first + 32

/-- A string with the bits of an error pattern flipped. -/
def alter (bytes error : Bytes) : Bytes :=
  List.zipWith (· ^^^ ·) bytes error

namespace Checksum

variable {bytes body error : Bytes}

section SignedStrings

/-- The register after a string and its checksum. -/
def residue : UInt32 := shifts 32 (-1)

/-- What the register holds after a signed string does not depend on the string. -/
theorem absorbAll_of_signed (h : signedBody? bytes = some body) :
    absorbAll initial bytes = residue := by
  have hones : ∀ r : UInt32, r ^^^ ~~~ r = -1 := fun r => by
    rw [UInt32.xor_not, UInt32.xor_self]
    rfl
  rw [signedBody?_eq_some_iff.mp h, absorbAll_append, absorbAll_ofNat, crc32c, hones, residue]

end SignedStrings

section Errors

theorem absorbAll_alter (r : UInt32) (h : error.length = bytes.length) :
    absorbAll r (alter bytes error) = absorbAll r bytes ^^^ absorbAll 0 error := by
  rw [alter, ← absorbAll_xor r 0 h.symm, UInt32.xor_zero]

end Errors

end Checksum

namespace IsBurst

variable {error : Bytes}

/-- A burst is a number of at most 32 bits behind zeros. -/
theorem exists_word (h : IsBurst error) :
    ∃ first word, Bytes.toNat error = word <<< first ∧ word ≠ 0 ∧ word < UInt32.size := by
  obtain ⟨i, hi⟩ := h.nonzero
  obtain ⟨first, hconfined⟩ := h.confined
  have hnumber : Bytes.toNat error = (Bytes.toNat error >>> first) <<< first := by
    refine Nat.eq_of_testBit_eq fun j => ?_
    rw [Nat.testBit_shiftLeft]
    by_cases hj : first ≤ j
    · rw [decide_eq_true hj, Bool.true_and, Nat.testBit_shiftRight, Nat.add_sub_cancel' hj]
    · rw [decide_eq_false hj, Bool.false_and, Bytes.testBit_toNat]
      exact Bool.eq_false_iff.mpr fun hset => hj (hconfined j hset).1
  refine ⟨first, Bytes.toNat error >>> first, hnumber, fun hzero => ?_, ?_⟩
  · rw [← Bytes.testBit_toNat, hnumber, hzero, Nat.zero_shiftLeft, Nat.zero_testBit] at hi
    cases hi
  · have hsize : UInt32.size = 2 ^ 32 := rfl
    rw [hsize]
    refine Nat.lt_pow_two_of_testBit _ fun j hj => ?_
    rw [Nat.testBit_shiftRight, Bytes.testBit_toNat]
    refine Bool.eq_false_iff.mpr fun hset => ?_
    have hnear := (hconfined _ hset).2
    omega

/-- A burst leaves something in an empty register. -/
theorem absorbAll_ne_zero (h : IsBurst error) : Checksum.absorbAll 0 error ≠ 0 := by
  obtain ⟨first, word, hnumber, hword, hlt⟩ := h.exists_word
  have hsize : Bytes.toNat error < 2 ^ (8 * error.length) := by
    rw [Nat.pow_mul]
    exact Bytes.toNat_lt error
  have hinside : first ≤ 8 * error.length := by
    refine Nat.le_of_lt ((Nat.pow_lt_pow_iff_right (by decide : 1 < 2)).mp ?_)
    calc 2 ^ first ≤ word * 2 ^ first := Nat.le_mul_of_pos_left _ (Nat.pos_of_ne_zero hword)
      _ = Bytes.toNat error := by rw [hnumber, Nat.shiftLeft_eq]
      _ < 2 ^ (8 * error.length) := hsize
  have hwhole : word >>> (8 * error.length - first) = 0 := by
    calc word >>> (8 * error.length - first)
        = (word <<< first) >>> first >>> (8 * error.length - first) := by
          rw [Nat.shiftLeft_shiftRight]
      _ = Bytes.toNat error >>> (8 * error.length) := by
          rw [← Nat.shiftRight_add, Nat.add_sub_cancel' hinside, hnumber]
      _ = 0 := by rw [Nat.shiftRight_eq_div_pow, Nat.div_eq_of_lt hsize]
  rw [Checksum.absorbAll_eq_absorbBits, hnumber, ← Nat.add_sub_cancel' hinside,
    Checksum.absorbBits_shiftLeft, Checksum.absorbBits_eq_shifts 0 hlt hwhole, UInt32.zero_xor]
  rw [Ne, Checksum.shifts_eq_zero_iff]
  intro hzero
  have hback := congrArg UInt32.toNat hzero
  rw [UInt32.toNat_ofNat_of_lt' hlt] at hback
  exact hword hback

end IsBurst

namespace Checksum

variable {bytes body error : Bytes}

/-- A signed string that a burst has altered is not signed. -/
theorem signedBody?_alter (hlength : error.length = bytes.length)
    (hsigned : signedBody? bytes = some body) (hburst : IsBurst error) :
    signedBody? (alter bytes error) = none := by
  cases hstill : signedBody? (alter bytes error) with
  | none => rfl
  | some other =>
      have hsame := absorbAll_of_signed hstill
      rw [absorbAll_alter initial hlength, absorbAll_of_signed hsigned] at hsame
      refine absurd ?_ hburst.absorbAll_ne_zero
      calc absorbAll 0 error = residue ^^^ (residue ^^^ absorbAll 0 error) := by
            rw [← UInt32.xor_assoc, UInt32.xor_self, UInt32.zero_xor]
        _ = 0 := by rw [hsame, UInt32.xor_self]

end Checksum
end GameLink
