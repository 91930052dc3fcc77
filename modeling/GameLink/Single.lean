/-!
# Numbers of the binary32 format

A number of the format is its 32 bits.  A finite magnitude is a whole number of units
of `2 ^ -149`, which makes the arithmetic here exact: a ratio of naturals is rounded to
the nearest number of the format, ties to the even one.

**Results.** A rounded quotient is within half a unit of the quotient
(`roundDiv_bounds`).
-/

namespace GameLink

/-- A quotient rounded to the nearest natural, a half to the even neighbour. -/
def roundDiv (num den : Nat) : Nat :=
  let q := num / den
  let r := num % den
  if den < 2 * r ∨ (den = 2 * r ∧ q % 2 = 1) then q + 1 else q

/-- A rounded quotient is within half a unit of the quotient. -/
theorem roundDiv_bounds (num den : Nat) (h : 0 < den) :
    2 * num ≤ 2 * den * roundDiv num den + den ∧
      2 * den * roundDiv num den ≤ 2 * num + den := by
  have hsplit := Nat.div_add_mod num den
  have hlt := Nat.mod_lt num h
  unfold roundDiv
  simp only
  generalize num / den = q at *
  generalize num % den = r at *
  have hexpand : 2 * den * (q + 1) = 2 * (den * q) + 2 * den := by
    rw [Nat.mul_add, Nat.mul_assoc]
    omega
  have hplain : 2 * den * q = 2 * (den * q) := Nat.mul_assoc ..
  split
  · rw [hexpand]; omega
  · rw [hplain]; omega

/-- A number of the binary32 format. -/
structure Single where
  /-- Sign, eight bits of exponent, twenty-three bits of fraction. -/
  bits : UInt32
deriving DecidableEq, Repr, Inhabited

namespace Single

def zero : Single := ⟨0⟩

def signBit : Nat := 1 <<< 31

/-- How many magnitudes share an exponent. -/
def binade : Nat := 1 <<< 23

/-- How many units one is. -/
def unitsOfOne : Nat := 1 <<< 149

def isNegative (x : Single) : Bool :=
  signBit ≤ x.bits.toNat

/-- The bits without the sign. -/
def magnitude (x : Single) : Nat :=
  x.bits.toNat % signBit

/-- The magnitude bits of infinity. -/
def infinity : Nat := 0x7F800000

/-- Whether the number is not a number. -/
def isNaN (x : Single) : Bool :=
  infinity < x.magnitude

/-- The units of `2 ^ -149` in finite magnitude bits. -/
def unitsOf (magnitude : Nat) : Nat :=
  if magnitude < binade then
    magnitude
  else
    (binade + magnitude % binade) <<< (magnitude / binade - 1)

/-- The magnitude bits nearest to a ratio, infinity if none is near enough. -/
def ofRatio (num den : Nat) : Nat :=
  let scaled := num * unitsOfOne
  let shift := Nat.log2 (scaled / den) - 23
  Nat.min infinity (roundDiv scaled (den <<< shift) + shift * binade)

/-- The number with a sign and magnitude bits. -/
def ofMagnitude (negative : Bool) (magnitude : Nat) : Single :=
  ⟨UInt32.ofNat (if negative then signBit + magnitude else magnitude)⟩

/-- A signed natural clamped to the two ends of a range. -/
def clamp (low high : Int) (negative : Bool) (n : Nat) : Int :=
  if negative then max low (-(n : Int)) else min high (n : Int)

/-- The quantization step, the number nearest to one tenth, as a ratio. -/
def stepNum : Nat := 13421773

/-- The denominator of the quantization step. -/
def stepDen : Nat := 1 <<< 27

/--
How many quantization steps a component is: the quotient in the format, rounded to
the nearest integer, a half away from zero, kept within sixteen bits; what is not a
number counts as zero.
-/
def quantize (x : Single) : Int16 :=
  if x.isNaN then
    0
  else
    let quotient :=
      if x.magnitude = infinity then infinity
      else ofRatio (unitsOf x.magnitude * stepDen) (stepNum * unitsOfOne)
    let steps :=
      if quotient = infinity then 1 <<< 15
      else (unitsOf quotient + unitsOfOne / 2) / unitsOfOne
    Int16.ofInt (clamp Int16.minValue.toInt Int16.maxValue.toInt x.isNegative steps)

/-- The component of a number of quantization steps. -/
def dequantize (q : Int16) : Single :=
  ofMagnitude (q.toInt < 0) (ofRatio (q.toInt.natAbs * stepNum) stepDen)

/-- The integer part of a number, kept within thirty-two bits. -/
def truncate (x : Single) : Int32 :=
  if x.isNaN then
    0
  else
    let whole :=
      if x.magnitude = infinity then 1 <<< 31 else unitsOf x.magnitude / unitsOfOne
    Int32.ofInt (clamp Int32.minValue.toInt Int32.maxValue.toInt x.isNegative whole)

def ofInt32 (n : Int32) : Single :=
  ofMagnitude (n.toInt < 0) (ofRatio n.toInt.natAbs 1)

end Single

structure Vector3 where
  x : Single
  y : Single
  z : Single
deriving DecidableEq, Repr, Inhabited

namespace Vector3

def zero : Vector3 := ⟨.zero, .zero, .zero⟩

def map (f : Single → Single) (v : Vector3) : Vector3 :=
  ⟨f v.x, f v.y, f v.z⟩

end Vector3

/-- A rotation about three axes, in degrees. -/
structure Rotator where
  pitch : Single
  yaw : Single
  roll : Single
deriving DecidableEq, Repr, Inhabited

namespace Rotator

def zero : Rotator := ⟨.zero, .zero, .zero⟩

def map (f : Single → Single) (r : Rotator) : Rotator :=
  ⟨f r.pitch, f r.yaw, f r.roll⟩

end Rotator
end GameLink
