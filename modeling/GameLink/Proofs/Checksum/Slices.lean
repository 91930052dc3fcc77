import GameLink.Checksum.Sliced
import GameLink.Proofs.Checksum.Linearity
import Mathlib.Data.List.Basic

/-!
# Sixteen octets at a time

The checksum by slices is the checksum bit by bit.

**Algorithm.** The register is linear, so what a block leaves in it is the sum of what its octets
leave, each with zeros in front and behind; an octet with `k` zeros behind it is looked up in table
`k`.

**Results.**
* `shifts_eight`: eight steps are one look-up and a shift by one octet.
* `slice_eq`: what the tables say.
* `absorbBlock_eq`, `absorbSliced_eq`: a block, and a whole string.
-/

namespace GameLink
namespace Checksum

section EightSteps

/-- A number is the sum of its `k` lowest bits and the others. -/
theorem xor_shifted (k n : Nat) : (n % (1 <<< k)) ^^^ ((n >>> k) <<< k) = n := by
  refine Nat.eq_of_testBit_eq fun i => ?_
  rw [Nat.testBit_xor, Nat.one_shiftLeft, Nat.testBit_mod_two_pow, Nat.testBit_shiftLeft]
  by_cases hi : i < k
  · rw [decide_eq_true hi, decide_eq_false (Nat.not_le.mpr hi)]
    simp
  · rw [decide_eq_false hi, decide_eq_true (Nat.le_of_not_lt hi), Nat.testBit_shiftRight,
      Nat.add_sub_cancel' (Nat.le_of_not_lt hi)]
    simp

/-- Steps take the zeros away that stand in front of a number. -/
theorem shifts_shiftLeft {k n : Nat} (h : n <<< k < UInt32.size) :
    shifts k (UInt32.ofNat (n <<< k)) = UInt32.ofNat n := by
  induction k with
  | zero => rfl
  | succ k ih =>
      rw [Nat.shiftLeft_succ] at h ⊢
      rw [shifts, shift_double h]
      exact ih (by omega)

theorem toNat_lowOctet (r : UInt32) : (r &&& 0xFF).toNat = r.toNat % 256 := by
  rw [UInt32.toNat_and]
  exact Nat.and_two_pow_sub_one_eq_mod r.toNat 8

/-- Eight steps: those of the low octet, and the other octets moved down. -/
theorem shifts_eight (r : UInt32) : shifts 8 r = (r >>> 8) ^^^ shifts 8 (r &&& 0xFF) := by
  have hlow : UInt32.ofNat (r.toNat % (1 <<< 8)) = r &&& 0xFF := by
    apply UInt32.toNat_inj.mp
    rw [toNat_lowOctet, UInt32.toNat_ofNat_of_lt']
    · rfl
    · exact Nat.lt_trans (Nat.mod_lt _ (by decide)) (by decide)
  have hhigh : UInt32.ofNat (r.toNat >>> 8) = r >>> 8 := by
    apply UInt32.toNat_inj.mp
    rw [UInt32.toNat_shiftRight, UInt32.toNat_ofNat_of_lt']
    · rfl
    · exact Nat.lt_of_le_of_lt (Nat.shiftRight_le _ _) r.toNat_lt
  have hroom : (r.toNat >>> 8) <<< 8 < UInt32.size := by
    have hlt : r.toNat < UInt32.size := r.toNat_lt
    rw [Nat.shiftLeft_eq, Nat.shiftRight_eq_div_pow]
    omega
  calc shifts 8 r
      = shifts 8 (UInt32.ofNat ((r.toNat % (1 <<< 8)) ^^^ ((r.toNat >>> 8) <<< 8))) := by
        rw [xor_shifted, UInt32.ofNat_toNat]
    _ = shifts 8 (r &&& 0xFF) ^^^ (r >>> 8) := by
        rw [UInt32.ofNat_xor, shifts_xor, shifts_shiftLeft hroom, hlow, hhigh]
    _ = (r >>> 8) ^^^ shifts 8 (r &&& 0xFF) := UInt32.xor_comm _ _

end EightSteps

section Tables

/-- The index of an entry. -/
theorem lowOctet_lt (r : UInt32) : (r &&& 0xFF).toNat < 256 := by
  rw [toNat_lowOctet]
  exact Nat.mod_lt _ (by decide)

theorem entry_eq_getElem {table : Array UInt32} {r : UInt32}
    (h : (r &&& 0xFF).toNat < table.size) : entry table r = table[(r &&& 0xFF).toNat] := by
  rw [entry, Array.getD, dif_pos h]
  rfl

theorem entry_firstTable (r : UInt32) : entry firstTable r = shifts 8 (r &&& 0xFF) := by
  have hindex : (r &&& 0xFF).toNat < firstTable.size := by
    rw [firstTable, Array.size_ofFn]
    exact lowOctet_lt r
  rw [entry_eq_getElem hindex]
  simp only [firstTable, Array.getElem_ofFn, UInt32.ofNat_toNat]

theorem entry_nextTable {table : Array UInt32} (hsize : table.size = 256) (r : UInt32) :
    entry (nextTable table) r = shifts 8 (entry table r) := by
  have hindex : (r &&& 0xFF).toNat < table.size := by
    rw [hsize]
    exact lowOctet_lt r
  have hnext : (r &&& 0xFF).toNat < (nextTable table).size := by
    rwa [nextTable, Array.size_map]
  rw [shifts_eight, ← entry_firstTable, entry_eq_getElem hnext, entry_eq_getElem hindex]
  simp only [nextTable, Array.getElem_map]

theorem size_table (k : Nat) : (table k).size = 256 := by
  induction k with
  | zero => exact Array.size_ofFn
  | succ k ih => rw [table, nextTable, Array.size_map, ih]

theorem octet_and_mask (b : UInt8) : b.toUInt32 &&& 0xFF = b.toUInt32 := by
  apply UInt32.toNat_inj.mp
  rw [toNat_lowOctet, UInt8.toNat_toUInt32]
  exact Nat.mod_eq_of_lt b.toNat_lt

/-- An entry of a table is the register after its octet and zeros. -/
theorem entry_table (k : Nat) (b : UInt8) :
    entry (table k) b.toUInt32 = absorbAll 0 (b :: List.replicate k 0) := by
  induction k with
  | zero =>
      rw [table, entry_firstTable, octet_and_mask]
      simp only [List.replicate_zero, absorbAll, List.foldl_cons, List.foldl_nil, absorb,
        UInt32.zero_xor]
  | succ k ih =>
      have hzero : ∀ r : UInt32, absorb r 0 = shifts 8 r := fun r =>
        congrArg (shifts 8) UInt32.xor_zero
      rw [table, entry_nextTable (size_table k), ih, List.replicate_succ', ← List.cons_append,
        absorbAll_append, ← hzero]
      rfl

/-- What the tables say. -/
theorem slice_eq {k : Nat} (hk : k < 16) (b : UInt8) :
    slice k b = absorbAll 0 (b :: List.replicate k 0) := by
  have htable : tables.getD k #[] = table k := by
    have hsize : k < tables.size := by simpa [tables] using hk
    rw [Array.getD, dif_pos hsize]
    simp [tables]
  rw [slice, htable, entry_table]

end Tables

section Blocks

/-- Zeros add nothing. -/
theorem zipWith_zeros (bs : Bytes) :
    List.zipWith (· ^^^ ·) (List.replicate bs.length 0) bs = bs := by
  induction bs with
  | nil => rfl
  | cons b bs ih =>
      rw [List.length_cons, List.replicate_succ, List.zipWith_cons_cons, ih, UInt8.zero_xor]

/-- Octets that are looked up one by one leave what they leave together. -/
theorem sliceSum_eq {bs : Bytes} (h : bs.length ≤ 16) : sliceSum bs = absorbAll 0 bs := by
  induction bs with
  | nil => rfl
  | cons b bs ih =>
      rw [List.length_cons] at h
      have hlength : (b :: List.replicate bs.length 0).length = (0 :: bs).length := by simp
      have hsum := absorbAll_xor 0 0 hlength
      rw [List.zipWith_cons_cons, zipWith_zeros, UInt8.xor_zero, UInt32.xor_zero] at hsum
      rw [sliceSum, slice_eq (by omega), ih (by omega), hsum]
      rfl

/-- The octets of a sum are the sums of the octets. -/
theorem ofNat_xor (width m n : Nat) :
    Bytes.ofNat width (m ^^^ n) =
      List.zipWith (· ^^^ ·) (Bytes.ofNat width m) (Bytes.ofNat width n) := by
  induction width generalizing m n with
  | zero => rfl
  | succ width ih =>
      have hrest : (m ^^^ n) / 256 = (m / 256) ^^^ (n / 256) := Nat.xor_div_two_pow (n := 8)
      rw [Bytes.ofNat, Bytes.ofNat, Bytes.ofNat, List.zipWith_cons_cons, hrest, ih,
        UInt8.ofNat_xor]

/-- Four octets are those of a word. -/
theorem exists_word {bs : Bytes} (h : bs.length = 4) :
    ∃ w : UInt32, bs = Bytes.ofNat 4 w.toNat := by
  have hlt := Bytes.toNat_lt bs
  have hback := Bytes.ofNat_toNat bs
  rw [h] at hlt hback
  exact ⟨UInt32.ofNat (Bytes.toNat bs), by rw [UInt32.toNat_ofNat_of_lt' hlt, hback]⟩

/-- The register is added to the first four octets of a block as a word. -/
theorem mix_append (r w : UInt32) (rest : Bytes) :
    mix r (Bytes.ofNat 4 w.toNat ++ rest) = Bytes.ofNat 4 (r ^^^ w).toNat ++ rest := by
  have hlength : (Bytes.ofNat 4 r.toNat).length = (Bytes.ofNat 4 w.toNat).length := by
    rw [Bytes.length_ofNat, Bytes.length_ofNat]
  have hsum : List.zipWith (· ^^^ ·) (Bytes.ofNat 4 r.toNat ++ []) (Bytes.ofNat 4 w.toNat ++ rest) =
      List.zipWith (· ^^^ ·) (Bytes.ofNat 4 r.toNat) (Bytes.ofNat 4 w.toNat) ++
        List.zipWith (· ^^^ ·) [] rest := List.zipWith_append hlength
  rw [List.append_nil, List.zipWith_nil_left, List.append_nil, ← ofNat_xor,
    ← UInt32.toNat_xor] at hsum
  rw [mix, hsum, List.drop_left' (Bytes.length_ofNat 4 _)]

/-- A block leaves in the register what its octets leave one after the other. -/
theorem absorbBlock_eq (r : UInt32) {block : Bytes} (h : block.length = 16) :
    absorbBlock r block = absorbAll r block := by
  obtain ⟨w, hfirst⟩ := exists_word (show (block.take 4).length = 4 by rw [List.length_take]; omega)
  have hsplit : block = Bytes.ofNat 4 w.toNat ++ block.drop 4 := by
    rw [← hfirst, List.take_append_drop]
  have hlength : (Bytes.ofNat 4 (r ^^^ w).toNat ++ block.drop 4).length ≤ 16 := by
    rw [List.length_append, Bytes.length_ofNat, List.length_drop]
    omega
  rw [hsplit, absorbBlock, mix_append, sliceSum_eq hlength, absorbAll_append, absorbAll_append,
    absorbAll_ofNat, absorbAll_ofNat, UInt32.zero_xor]

end Blocks

section WholeStrings

/-- An octet on its own goes through the first table. -/
theorem absorbByTable_eq (r : UInt32) (b : UInt8) : absorbByTable r b = absorb r b := by
  have hindex : (r ^^^ b.toUInt32).toUInt8.toUInt32 = (r ^^^ b.toUInt32) &&& 0xFF := by
    apply UInt32.toNat_inj.mp
    rw [toNat_lowOctet, UInt8.toNat_toUInt32, UInt32.toNat_toUInt8]
  have hoctet : b.toUInt32 >>> 8 = 0 := by
    apply UInt32.toNat_inj.mp
    rw [UInt32.toNat_shiftRight, UInt8.toNat_toUInt32]
    exact (Nat.shiftRight_eq_div_pow _ _).trans (Nat.div_eq_of_lt b.toNat_lt)
  rw [absorbByTable, slice_eq (by decide), absorb, shifts_eight, UInt32.shiftRight_xor, hoctet,
    UInt32.xor_zero, ← hindex]
  simp only [List.replicate_zero, absorbAll, List.foldl_cons, List.foldl_nil, absorb,
    UInt32.zero_xor]

/-- Block by block, then octet by octet. -/
theorem absorbSliced_eq (r : UInt32) (data : Bytes) : absorbSliced r data = absorbAll r data := by
  fun_induction absorbSliced r data with
  | case1 r data block hblock ih =>
      rw [ih, absorbBlock_eq r hblock, ← absorbAll_append, List.take_append_drop]
  | case2 r data block hblock =>
      have hstep : absorbByTable = absorb := by
        funext r b
        exact absorbByTable_eq r b
      rw [hstep, absorbAll]

/-- A division step without a choice: the low bit makes a mask for the polynomial. -/
theorem shift_eq_masked (r : UInt32) : shift r = (r >>> 1) ^^^ (polynomial &&& -(r &&& 1)) := by
  have hbit : (r &&& 1).toNat = r.toNat % 2 := by
    rw [UInt32.toNat_and]
    exact Nat.and_one_is_mod r.toNat
  rcases Nat.mod_two_eq_zero_or_one r.toNat with hzero | hone
  · have hlow : r &&& 1 = 0 := UInt32.toNat_inj.mp (hbit.trans hzero)
    rw [shift, hlow]
    simp
  · have hlow : r &&& 1 = 1 := UInt32.toNat_inj.mp (hbit.trans hone)
    have hmask : polynomial &&& -1 = polynomial := by decide
    rw [shift, if_pos hlow, hlow, hmask]

/-- Both computations of the checksum agree on every string.  The table of an octet with `k` octets
behind it says what that octet and `k` zeros leave in an empty register, and the polynomial is
added in every step that takes a one out. -/
theorem slices_agree_with_bits (data : Bytes) :
    compute .slices data = compute .bitwise data ∧
      (∀ k < 16, ∀ b : UInt8,
        (tables.getD k #[]).getD b.toNat 0 = absorbAll 0 (b :: List.replicate k 0)) ∧
      ∀ r, shift r = (r >>> 1) ^^^ (polynomial &&& -(r &&& 1)) := by
  refine ⟨?_, fun k hk b => ?_, shift_eq_masked⟩
  · rw [compute, compute, sliced, crc32c, absorbSliced_eq]
  · rw [← slice_eq hk, slice, entry, octet_and_mask, UInt8.toNat_toUInt32]

end WholeStrings

end Checksum
end GameLink
