import GameLink.ReplayWindow
import Mathlib.Data.Set.Insert
import Mathlib.Data.Nat.Bitwise
import Mathlib.Order.Bounds.Basic

/-!
# What a replay window remembers

A replay window records a set of sequence numbers: its highest number is the greatest
of the set, and its mask tells of each number less than 64 below the highest whether it
is in the set.

**Results.**
* `Records.insert`: accepting a number adds it to the recorded set, whatever its
  distance from the highest.
* `Records.isFresh_iff`: a number is fresh exactly if it is not in the set and the
  highest is less than 64 above it.
* `Records.unique`: the set determines the window.
-/

namespace GameLink
namespace ReplayWindow

/-- The window holds what there is to say about a set of sequence numbers. -/
structure Records (w : ReplayWindow) (seen : Set UInt64) : Prop where
  /-- No recorded number is above the highest. -/
  le_highest : ∀ seq ∈ seen, seq ≤ w.highest
  /-- The highest number is recorded, or nothing is and it is zero. -/
  highest_mem : w.highest ∈ seen ∨ seen = ∅ ∧ w.highest = 0
  /-- The mask tells which of the numbers just below the highest are recorded. -/
  testBit_iff : ∀ i < 64,
    w.mask.toNat.testBit i = true ↔ ∃ seq ∈ seen, seq.toNat + i = w.highest.toNat

theorem records_empty : Records empty ∅ where
  le_highest := by simp
  highest_mem := Or.inr ⟨rfl, rfl⟩
  testBit_iff := by simp [empty]

theorem testBit_one_shiftLeft
    {d : UInt64} (hd : d.toNat < 64) (i : Nat) :
    (1 <<< d : UInt64).toNat.testBit i = decide (i = d.toNat) := by
  have hmod : d.toNat % 64 = d.toNat := Nat.mod_eq_of_lt hd
  rw [UInt64.toNat_shiftLeft, hmod, Nat.testBit_mod_two_pow, UInt64.toNat_one,
    Nat.one_shiftLeft, Nat.testBit_two_pow]
  grind

theorem and_one_shiftLeft_eq_zero_iff
    {mask d : UInt64} (hd : d.toNat < 64) :
    mask &&& (1 <<< d) = 0 ↔ mask.toNat.testBit d.toNat = false := by
  rw [← UInt64.toNat_inj, UInt64.toNat_and, UInt64.toNat_zero]
  constructor
  · intro h
    have hbit : ((mask.toNat &&& (1 <<< d : UInt64).toNat)).testBit d.toNat = false := by
      rw [h, Nat.zero_testBit]
    rw [Nat.testBit_and, testBit_one_shiftLeft hd] at hbit
    simpa using hbit
  · intro h
    apply Nat.eq_of_testBit_eq
    intro i
    rw [Nat.testBit_and, testBit_one_shiftLeft hd, Nat.zero_testBit]
    by_cases hi : i = d.toNat
    · simp [hi, h]
    · simp [hi]

namespace Records

variable {w : ReplayWindow} {seen : Set UInt64}

/-- Fresh is what was not recorded and is less than 64 below the highest. -/
theorem isFresh_iff (h : w.Records seen) (seq : UInt64) :
    w.isFresh seq = true ↔ seq ∉ seen ∧ w.highest.toNat < seq.toNat + 64 := by
  simp only [isFresh]
  by_cases hlt : w.highest < seq
  · have hnot : seq ∉ seen := fun hmem =>
      UInt64.not_lt.mpr (h.le_highest seq hmem) hlt
    have hlt' := UInt64.lt_iff_toNat_lt.mp hlt
    simp only [hlt, if_true, true_iff]
    exact ⟨hnot, by omega⟩
  · have hle := UInt64.not_lt.mp hlt
    have hle' := UInt64.le_iff_toNat_le.mp hle
    have hsub := UInt64.toNat_sub_of_le _ _ hle
    rw [if_neg hlt]
    by_cases hfar : width ≤ w.highest - seq
    · have hfar' : 64 ≤ (w.highest - seq).toNat := UInt64.le_iff_toNat_le.mp hfar
      rw [if_pos hfar]
      simp only [Bool.false_eq_true, false_iff, not_and]
      intro _
      omega
    · have hnear : (w.highest - seq).toNat < 64 :=
        UInt64.lt_iff_toNat_lt.mp (UInt64.not_le.mp hfar)
      rw [if_neg hfar, beq_iff_eq, and_one_shiftLeft_eq_zero_iff hnear, Bool.eq_false_iff,
        ne_eq, h.testBit_iff (w.highest - seq).toNat hnear]
      have hsum : seq.toNat + (w.highest - seq).toNat = w.highest.toNat := by omega
      constructor
      · intro hnone
        exact ⟨fun hmem => hnone ⟨seq, hmem, hsum⟩, by omega⟩
      · rintro ⟨hnot, -⟩ ⟨other, hmem, hother⟩
        have hsame : other = seq := UInt64.toNat_inj.mp (by omega)
        exact hnot (hsame ▸ hmem)

/-- Accepting a number above the highest slides the mask. -/
theorem insert_above (h : w.Records seen) {seq : UInt64} (hlt : w.highest < seq) :
    (w.insert seq).Records (Insert.insert seq seen) := by
  have hlt' := UInt64.lt_iff_toNat_lt.mp hlt
  have hsub := UInt64.toNat_sub_of_le _ _ (UInt64.le_of_lt hlt)
  have hhigh : (w.insert seq).highest = seq := by simp [insert, hlt]
  refine ⟨?_, Or.inl ?_, ?_⟩
  · rintro other (rfl | hmem)
    · rw [hhigh]
      exact UInt64.le_refl _
    · rw [hhigh]
      exact UInt64.le_of_lt (UInt64.lt_of_le_of_lt (h.le_highest other hmem) hlt)
  · rw [hhigh]
    exact Set.mem_insert _ _
  · intro i hi
    rw [hhigh]
    -- A bit of the new mask is the lowest one, or an old one moved up.
    have hbit :
        (w.insert seq).mask.toNat.testBit i = true ↔
          i = 0 ∨ (seq.toNat - w.highest.toNat ≤ i ∧
            w.mask.toNat.testBit (i - (seq.toNat - w.highest.toNat)) = true) := by
      simp only [insert, hlt, if_true]
      by_cases hfar : width ≤ seq - w.highest
      · have hfar' : 64 ≤ (seq - w.highest).toNat := UInt64.le_iff_toNat_le.mp hfar
        rw [if_pos hfar]
        have hone : (0 ||| 1 : UInt64).toNat = 1 := rfl
        rw [hone, Nat.testBit_one_eq_true_iff_self_eq_zero]
        omega
      · have hnear : (seq - w.highest).toNat < 64 :=
          UInt64.lt_iff_toNat_lt.mp (UInt64.not_le.mp hfar)
        rw [if_neg hfar, UInt64.toNat_or, Nat.testBit_or, UInt64.toNat_shiftLeft,
          Nat.mod_eq_of_lt hnear, Nat.testBit_mod_two_pow, Nat.testBit_shiftLeft,
          UInt64.toNat_one, hsub]
        simp only [Bool.or_eq_true, Bool.and_eq_true, decide_eq_true_eq,
          Nat.testBit_one_eq_true_iff_self_eq_zero]
        grind
    rw [hbit]
    constructor
    · rintro (rfl | ⟨hle, hold⟩)
      · exact ⟨seq, Set.mem_insert _ _, by omega⟩
      · obtain ⟨other, hmem, hsum⟩ := (h.testBit_iff _ (by omega)).mp hold
        exact ⟨other, Set.mem_insert_of_mem _ hmem, by omega⟩
    · rintro ⟨other, rfl | hmem, hsum⟩
      · exact Or.inl (by omega)
      · have hother := UInt64.le_iff_toNat_le.mp (h.le_highest other hmem)
        refine Or.inr ⟨by omega, (h.testBit_iff _ (by omega)).mpr ⟨other, hmem, by omega⟩⟩

/-- Accepting a number not above the highest sets its bit if it has one. -/
theorem insert_below (h : w.Records seen) {seq : UInt64} (hle : seq ≤ w.highest) :
    (w.insert seq).Records (Insert.insert seq seen) := by
  have hle' := UInt64.le_iff_toNat_le.mp hle
  have hsub := UInt64.toNat_sub_of_le _ _ hle
  have hhigh : (w.insert seq).highest = w.highest := by
    simp only [insert, UInt64.not_lt.mpr hle, if_false]
    split <;> rfl
  refine ⟨?_, Or.inl ?_, ?_⟩
  · rintro other (rfl | hmem)
    · rw [hhigh]
      exact hle
    · rw [hhigh]
      exact h.le_highest other hmem
  · rw [hhigh]
    rcases h.highest_mem with hmem | ⟨-, hzero⟩
    · exact Set.mem_insert_of_mem _ hmem
    · -- Nothing is recorded and the highest is zero, so the number is zero too.
      have hseq : seq = w.highest := by
        rw [hzero] at hle' ⊢
        exact UInt64.toNat_inj.mp (Nat.le_zero.mp hle')
      rw [← hseq]
      exact Set.mem_insert _ _
  · intro i hi
    rw [hhigh]
    have hbit :
        (w.insert seq).mask.toNat.testBit i = true ↔
          w.mask.toNat.testBit i = true ∨ seq.toNat + i = w.highest.toNat := by
      simp only [insert, UInt64.not_lt.mpr hle, if_false]
      by_cases hnear : w.highest - seq < width
      · have hnear' : (w.highest - seq).toNat < 64 := UInt64.lt_iff_toNat_lt.mp hnear
        rw [if_pos hnear]
        simp only [UInt64.toNat_or, Nat.testBit_or, testBit_one_shiftLeft hnear',
          Bool.or_eq_true, decide_eq_true_eq]
        grind
      · have hfar : 64 ≤ (w.highest - seq).toNat :=
          UInt64.le_iff_toNat_le.mp (UInt64.not_lt.mp hnear)
        rw [if_neg hnear]
        grind
    rw [hbit, h.testBit_iff i hi]
    constructor
    · rintro (⟨other, hmem, hsum⟩ | hsum)
      · exact ⟨other, Set.mem_insert_of_mem _ hmem, hsum⟩
      · exact ⟨seq, Set.mem_insert _ _, hsum⟩
    · rintro ⟨other, rfl | hmem, hsum⟩
      · exact Or.inr hsum
      · exact Or.inl ⟨other, hmem, hsum⟩

/-- Accepting a number adds it to the recorded set. -/
theorem insert (h : w.Records seen) (seq : UInt64) :
    (w.insert seq).Records (Insert.insert seq seen) := by
  by_cases hlt : w.highest < seq
  · exact h.insert_above hlt
  · exact h.insert_below (UInt64.not_lt.mp hlt)

/-- Accepting succeeds for the fresh numbers. -/
theorem accept_iff (h : w.Records seen) (seq : UInt64) :
    (w.accept seq).1 = true ↔ seq ∉ seen ∧ w.highest.toNat < seq.toNat + 64 := by
  rw [← h.isFresh_iff seq, accept]
  cases w.isFresh seq with
  | false => simp
  | true => simp

theorem highest_of_empty (h : w.Records seen) (hempty : seen = ∅) : w.highest = 0 := by
  rcases h.highest_mem with hmem | ⟨-, hzero⟩
  · rw [hempty] at hmem
    exact absurd hmem (Set.notMem_empty _)
  · exact hzero

theorem isGreatest (h : w.Records seen) (hsome : seen.Nonempty) :
    IsGreatest seen w.highest := by
  rcases h.highest_mem with hmem | ⟨hempty, -⟩
  · exact ⟨hmem, h.le_highest⟩
  · exact absurd hempty hsome.ne_empty

/-- A bit of the mask belongs to the number so far below the highest, if there is one. -/
theorem testBit_iff_sub_mem (h : w.Records seen) (i : Nat) (hi : i < 64) :
    w.mask.toNat.testBit i = true ↔
      i ≤ w.highest.toNat ∧ w.highest - UInt64.ofNat i ∈ seen := by
  rw [h.testBit_iff i hi]
  have hnum : (UInt64.ofNat i).toNat = i :=
    UInt64.toNat_ofNat_of_lt' (Nat.lt_trans hi (by decide))
  have hsub (hle : i ≤ w.highest.toNat) :
      (w.highest - UInt64.ofNat i).toNat = w.highest.toNat - i := by
    rw [UInt64.toNat_sub_of_le _ _ (UInt64.le_iff_toNat_le.mpr (by omega)), hnum]
  constructor
  · rintro ⟨seq, hmem, hsum⟩
    have hle : i ≤ w.highest.toNat := by omega
    have hseq : w.highest - UInt64.ofNat i = seq := by
      apply UInt64.toNat_inj.mp
      rw [hsub hle]
      omega
    exact ⟨hle, hseq ▸ hmem⟩
  · rintro ⟨hle, hmem⟩
    exact ⟨_, hmem, by rw [hsub hle]; omega⟩

/-- Windows that record the same set are the same. -/
theorem unique {w' : ReplayWindow} (h : w.Records seen) (h' : w'.Records seen) :
    w = w' := by
  have hhigh : w.highest = w'.highest := by
    rcases seen.eq_empty_or_nonempty with hempty | hsome
    · rw [h.highest_of_empty hempty, h'.highest_of_empty hempty]
    · obtain ⟨hmem, hle⟩ := h.isGreatest hsome
      obtain ⟨hmem', hle'⟩ := h'.isGreatest hsome
      exact UInt64.le_antisymm (hle' hmem) (hle hmem')
  have hmask : w.mask = w'.mask := by
    apply UInt64.toNat_inj.mp
    apply Nat.eq_of_testBit_eq
    intro i
    by_cases hi : i < 64
    · rw [Bool.eq_iff_iff, h.testBit_iff i hi, h'.testBit_iff i hi, hhigh]
    · -- A mask has no bits past the sixty-fourth.
      have hpow : Nat.pow 2 64 ≤ Nat.pow 2 i :=
        Nat.pow_le_pow_right Nat.two_pos (Nat.le_of_not_lt hi)
      have hlow := Nat.testBit_lt_two_pow (Nat.lt_of_lt_of_le w.mask.toNat_lt hpow)
      have hlow' := Nat.testBit_lt_two_pow (Nat.lt_of_lt_of_le w'.mask.toNat_lt hpow)
      rw [hlow, hlow']
  obtain ⟨high, mask⟩ := w
  obtain ⟨high', mask'⟩ := w'
  cases hhigh
  cases hmask
  rfl

end Records
end ReplayWindow
end GameLink
