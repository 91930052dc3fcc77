import GameLink.Single

/-!
# Quantization steps survive the format

A component in quantization steps is rounded twice on its way out and back: to a number of
the binary32 format, and as a quotient by the step.  Each rounding is off by half of the last
place at most, which is far less than half a step.

**Results.**
* `unitsOf_rounded`: the magnitude bits of a rounded ratio, read as units.
* `rounded_near`: a rounded ratio is close to the ratio.
* `quantize_dequantize`: every number of quantization steps is found again.
-/

namespace GameLink
namespace Single

/-- How many binary places of a ratio of units are rounded off. -/
def places (units den : Nat) : Nat :=
  Nat.log2 (units / den) - 23

/-- The magnitude bits nearest to a ratio of units, without a bound. -/
def rounded (units den : Nat) : Nat :=
  roundDiv units (den <<< places units den) + places units den * binade

theorem ofRatio_eq (num den : Nat) :
    ofRatio num den = Nat.min infinity (rounded (num * unitsOfOne) den) :=
  rfl

variable {den : Nat}

/-- The bits that are kept have their place at the top, or nothing is rounded off. -/
theorem roundDiv_places_bounds (units : Nat) (h : 0 < den) :
    roundDiv units (den <<< places units den) ≤ 2 * binade ∧
      (places units den = 0 ∨ binade ≤ roundDiv units (den <<< places units den)) := by
  have hpos : 0 < den <<< places units den := by
    rw [Nat.shiftLeft_eq]
    exact Nat.mul_pos h (Nat.two_pow_pos _)
  obtain ⟨hlow, hhigh⟩ := roundDiv_bounds units (den <<< places units den) hpos
  have hbinade : binade = 2 ^ 23 := by decide
  have hdiv := Nat.div_add_mod units den
  have hmod := Nat.mod_lt units h
  have htop : units / den < 2 ^ places units den * 2 ^ 24 := by
    have hlog := Nat.lt_log2_self (n := units / den)
    have hplaces : Nat.log2 (units / den) + 1 ≤ places units den + 24 := by
      rw [places]
      omega
    rw [← Nat.pow_add]
    exact Nat.lt_of_lt_of_le hlog (Nat.pow_le_pow_right (by decide) hplaces)
  have hbound : units < (den <<< places units den) * 2 ^ 24 := by
    have hnext : den * (units / den + 1) ≤ den * (2 ^ places units den * 2 ^ 24) :=
      Nat.mul_le_mul_left den htop
    rw [Nat.mul_add, Nat.mul_one, ← Nat.mul_assoc, ← Nat.shiftLeft_eq] at hnext
    omega
  -- without its places the quotient has 24 binary digits at most, and rounding may carry
  constructor
  · apply Nat.le_of_not_lt
    intro hlarge
    have hstep : 2 * (den <<< places units den) * (2 ^ 24 + 1) ≤
        2 * (den <<< places units den) * roundDiv units (den <<< places units den) :=
      Nat.mul_le_mul_left _ (by omega)
    omega
  · by_cases hzero : places units den = 0
    · exact Or.inl hzero
    · right
      have hbase : 2 ^ places units den * 2 ^ 23 ≤ units / den := by
        have hne : units / den ≠ 0 := by
          intro hnone
          rw [places, hnone] at hzero
          exact hzero rfl
        have hplaces : places units den + 23 = Nat.log2 (units / den) := by
          rw [places] at hzero ⊢
          omega
        rw [← Nat.pow_add, hplaces]
        exact Nat.log2_self_le hne
      have hbelow : den * (2 ^ places units den * 2 ^ 23) ≤ den * (units / den) :=
        Nat.mul_le_mul_left den hbase
      rw [← Nat.mul_assoc, ← Nat.shiftLeft_eq] at hbelow
      apply Nat.le_of_not_lt
      intro hsmall
      have hstep :
          2 * (den <<< places units den) * (roundDiv units (den <<< places units den) + 1) ≤
            2 * (den <<< places units den) * 2 ^ 23 :=
        Nat.mul_le_mul_left _ (by omega)
      rw [Nat.mul_add, Nat.mul_one] at hstep
      omega

/-- Bits with their place at the top are read with the exponent that was put in front. -/
theorem unitsOf_add_mul_binade
    {kept exponent : Nat} (hkept : kept ≤ 2 * binade)
    (htop : exponent = 0 ∨ binade ≤ kept) :
    unitsOf (kept + exponent * binade) = kept <<< exponent := by
  have hpos : 0 < binade := by decide
  rcases Nat.lt_or_ge kept binade with hsmall | hlarge
  · have hzero : exponent = 0 := by omega
    subst hzero
    rw [Nat.zero_mul, Nat.add_zero, unitsOf, if_pos hsmall, Nat.shiftLeft_zero]
  · have hnot : ¬ kept + exponent * binade < binade := by omega
    rw [unitsOf, if_neg hnot, Nat.add_mul_mod_self_right, Nat.add_mul_div_right _ _ hpos]
    rcases Nat.lt_or_eq_of_le hkept with hbelow | rfl
    · have hquotient : kept / binade = 1 := Nat.div_eq_of_lt_le (by omega) (by omega)
      have hremainder : binade + kept % binade = kept := by
        have hsplit := Nat.div_add_mod kept binade
        rw [hquotient, Nat.mul_one] at hsplit
        exact hsplit
      rw [hquotient, hremainder, Nat.add_sub_cancel_left]
    · rw [Nat.mul_mod_left, Nat.mul_div_cancel _ hpos, Nat.add_zero, Nat.shiftLeft_eq,
        Nat.shiftLeft_eq, show 2 + exponent - 1 = exponent + 1 by omega, Nat.pow_succ]
      rw [Nat.mul_comm 2 binade, Nat.mul_assoc, Nat.mul_comm 2]

theorem unitsOf_rounded (units : Nat) (h : 0 < den) :
    unitsOf (rounded units den) =
      roundDiv units (den <<< places units den) <<< places units den := by
  obtain ⟨hkept, htop⟩ := roundDiv_places_bounds units h
  exact unitsOf_add_mul_binade hkept htop

/-- What is rounded off is little against the ratio, or against one unit. -/
theorem shiftLeft_places_le (units den : Nat) :
    (den <<< places units den) * binade ≤ units + den * binade := by
  by_cases hzero : places units den = 0
  · rw [hzero, Nat.shiftLeft_zero]
    exact Nat.le_add_left _ _
  · have hne : units / den ≠ 0 := by
      intro hnone
      rw [places, hnone] at hzero
      exact hzero rfl
    have hplaces : places units den + 23 = Nat.log2 (units / den) := by
      rw [places] at hzero ⊢
      omega
    have hbinade : binade = 2 ^ 23 := by decide
    have hbase : den * 2 ^ Nat.log2 (units / den) ≤ den * (units / den) :=
      Nat.mul_le_mul_left den (Nat.log2_self_le hne)
    rw [Nat.shiftLeft_eq, hbinade, Nat.mul_assoc, ← Nat.pow_add, hplaces]
    have hdiv := Nat.mul_div_le units den
    omega

/-- A rounded ratio is within half of the last place of the ratio. -/
theorem rounded_near (units : Nat) (h : 0 < den) :
    2 * binade * units ≤
        2 * binade * (den * unitsOf (rounded units den)) + (units + den * binade) ∧
      2 * binade * (den * unitsOf (rounded units den)) ≤
        2 * binade * units + (units + den * binade) := by
  have hpos : 0 < den <<< places units den := by
    rw [Nat.shiftLeft_eq]
    exact Nat.mul_pos h (Nat.two_pow_pos _)
  obtain ⟨hlow, hhigh⟩ := roundDiv_bounds units (den <<< places units den) hpos
  have hcut := shiftLeft_places_le units den
  have hunits : den * unitsOf (rounded units den) =
      (den <<< places units den) * roundDiv units (den <<< places units den) := by
    rw [unitsOf_rounded units h, Nat.shiftLeft_eq, Nat.shiftLeft_eq]
    rw [Nat.mul_comm (roundDiv _ _), Nat.mul_assoc]
  rw [Nat.mul_assoc, ← hunits] at hlow hhigh
  generalize den * unitsOf (rounded units den) = value at *
  have hleft := Nat.mul_le_mul_left binade hlow
  have hright := Nat.mul_le_mul_left binade hhigh
  rw [Nat.mul_add, Nat.mul_comm binade (den <<< _)] at hleft hright
  have hassoc (n : Nat) : binade * (2 * n) = 2 * binade * n := by
    rw [Nat.mul_comm 2 binade, Nat.mul_assoc]
  rw [hassoc, hassoc] at hleft hright
  omega

/-- A ratio that is not too large is rounded to a finite number. -/
theorem rounded_lt_infinity
    {units : Nat} (h : 0 < den) (hlt : units / den < 1 <<< 250) :
    rounded units den < infinity := by
  have hkept := (roundDiv_places_bounds units h).1
  have hplaces : places units den ≤ 227 := by
    by_cases hzero : units / den = 0
    · rw [places, hzero]
      decide
    · have hlog : Nat.log2 (units / den) < 250 :=
        (Nat.log2_lt hzero).mpr (by simpa [Nat.shiftLeft_eq] using hlt)
      rw [places]
      omega
  have hscaled := Nat.mul_le_mul_right binade hplaces
  have hroom : 2 * binade + 227 * binade < infinity := by decide
  rw [rounded]
  omega

theorem ofRatio_eq_rounded
    {num : Nat} (h : 0 < den) (hlt : num * unitsOfOne / den < 1 <<< 250) :
    ofRatio num den = rounded (num * unitsOfOne) den ∧ ofRatio num den < infinity := by
  have hfinite := rounded_lt_infinity h hlt
  have heq : ofRatio num den = rounded (num * unitsOfOne) den := by
    rw [ofRatio_eq]
    exact Nat.min_eq_right (Nat.le_of_lt hfinite)
  exact ⟨heq, Nat.lt_of_le_of_lt (Nat.le_of_eq heq) hfinite⟩

section StepNumbers

variable {n : Nat}

/-- As many steps as sixteen bits can count are a finite number near to them. -/
theorem unitsOf_steps (h : n ≤ 1 <<< 15) :
    ofRatio (n * stepNum) stepDen < infinity ∧
      2 * (stepDen * unitsOf (ofRatio (n * stepNum) stepDen)) <
        2 * (n * stepNum * unitsOfOne) + stepNum * (unitsOfOne / 16) ∧
      2 * (n * stepNum * unitsOfOne) <
        2 * (stepDen * unitsOf (ofRatio (n * stepNum) stepDen)) +
          stepNum * (unitsOfOne / 16) := by
  have hpos : 0 < stepDen := by decide
  have hlt : n * stepNum * unitsOfOne / stepDen < 1 <<< 250 := by
    have hlarge : (1 <<< 15) * stepNum * unitsOfOne / stepDen < 1 <<< 250 := by decide +kernel
    refine Nat.lt_of_le_of_lt (Nat.div_le_div_right ?_) hlarge
    exact Nat.mul_le_mul_right _ (Nat.mul_le_mul_right _ h)
  obtain ⟨hrounded, hfinite⟩ := ofRatio_eq_rounded hpos hlt
  obtain ⟨hlow, hhigh⟩ := rounded_near (n * stepNum * unitsOfOne) hpos
  rw [← hrounded] at hlow hhigh
  refine ⟨hfinite, ?_⟩
  generalize unitsOf (ofRatio (n * stepNum) stepDen) = value at *
  simp only [binade, stepNum, stepDen, unitsOfOne, Nat.shiftLeft_eq] at h hlow hhigh ⊢
  omega

/-- The quotient by the step of a number near to as many steps. -/
theorem steps_of_near
    {value : Nat} (h : n ≤ 1 <<< 15)
    (hhigh : 2 * (stepDen * value) <
      2 * (n * stepNum * unitsOfOne) + stepNum * (unitsOfOne / 16))
    (hlow : 2 * (n * stepNum * unitsOfOne) <
      2 * (stepDen * value) + stepNum * (unitsOfOne / 16)) :
    ofRatio (value * stepDen) (stepNum * unitsOfOne) < infinity ∧
      (unitsOf (ofRatio (value * stepDen) (stepNum * unitsOfOne)) + unitsOfOne / 2) /
        unitsOfOne = n := by
  have hpos : 0 < stepNum * unitsOfOne := by decide +kernel
  have hlt : value * stepDen * unitsOfOne / (stepNum * unitsOfOne) < 1 <<< 250 := by
    apply Nat.div_lt_of_lt_mul
    simp only [stepNum, stepDen, unitsOfOne, Nat.shiftLeft_eq] at h hhigh ⊢
    omega
  obtain ⟨hrounded, hfinite⟩ := ofRatio_eq_rounded hpos hlt
  obtain ⟨hbelow, habove⟩ := rounded_near (value * stepDen * unitsOfOne) hpos
  rw [← hrounded] at hbelow habove
  refine ⟨hfinite, ?_⟩
  generalize unitsOf (ofRatio (value * stepDen) (stepNum * unitsOfOne)) = quotient at *
  simp only [binade, stepNum, stepDen, unitsOfOne, Nat.shiftLeft_eq]
    at h hlow hhigh hbelow habove ⊢
  omega

theorem magnitude_ofMagnitude {magnitude : Nat} (negative : Bool) (h : magnitude ≤ infinity) :
    (ofMagnitude negative magnitude).magnitude = magnitude ∧
      (ofMagnitude negative magnitude).isNegative = negative := by
  simp only [infinity] at h
  cases negative with
  | false =>
      have hbits : (UInt32.ofNat magnitude).toNat = magnitude :=
        UInt32.toNat_ofNat_of_lt' (by simp only [UInt32.size]; omega)
      simp only [ofMagnitude, Single.magnitude, isNegative, signBit, Nat.shiftLeft_eq, hbits,
        Bool.false_eq_true, if_false, decide_eq_false_iff_not]
      omega
  | true =>
      have hbits : (UInt32.ofNat (signBit + magnitude)).toNat = signBit + magnitude :=
        UInt32.toNat_ofNat_of_lt' (by
          simp only [UInt32.size, signBit, Nat.shiftLeft_eq]
          omega)
      simp only [ofMagnitude, Single.magnitude, isNegative, if_true, hbits, decide_eq_true_iff]
      simp only [signBit, Nat.shiftLeft_eq]
      omega

/-- Every number of quantization steps is found again. -/
theorem quantize_dequantize (q : Int16) : (dequantize q).quantize = q := by
  have hmin := Int16.le_toInt q
  have hmax := Int16.toInt_lt q
  have hsize : q.toInt.natAbs ≤ 1 <<< 15 := by
    simp only [Nat.shiftLeft_eq]
    omega
  obtain ⟨hfinite, hhigh, hlow⟩ := unitsOf_steps hsize
  obtain ⟨hquotient, hsteps⟩ := steps_of_near hsize hhigh hlow
  obtain ⟨hmagnitude, hsign⟩ := magnitude_ofMagnitude (q.toInt < 0) (Nat.le_of_lt hfinite)
  have hnumber : (dequantize q).isNaN = false := by
    rw [isNaN, dequantize, hmagnitude]
    exact decide_eq_false (Nat.lt_asymm hfinite)
  rw [quantize, hnumber, if_neg Bool.false_ne_true]
  simp only [dequantize, hmagnitude, hsign, if_neg (Nat.ne_of_lt hfinite),
    if_neg (Nat.ne_of_lt hquotient), hsteps]
  have hclamp : clamp Int16.minValue.toInt Int16.maxValue.toInt (q.toInt < 0) q.toInt.natAbs =
      q.toInt := by
    have hlowest : Int16.minValue.toInt = -32768 := rfl
    have hhighest : Int16.maxValue.toInt = 32767 := rfl
    rw [clamp, hlowest, hhighest]
    by_cases hnegative : q.toInt < 0
    · rw [if_pos (decide_eq_true hnegative)]
      omega
    · rw [if_neg (by simpa using hnegative)]
      omega
  rw [hclamp]
  exact Int16.ofInt_toInt q

end StepNumbers

end Single
end GameLink
