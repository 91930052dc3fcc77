import GameLink.Bytes

/-!
# Hexadecimal text

Base-sixteen text in both letter cases: dumps of byte strings and numbers padded to a
fixed number of digits.
-/

namespace GameLink
namespace Hex

/-- Which letters stand for the digits above nine. -/
inductive Letters
  | lower
  | upper

/-- The digit for a value below sixteen. -/
def digit (letters : Letters) (value : Nat) : Char :=
  if value < 10 then
    Char.ofNat (48 + value)
  else
    match letters with
    | .lower => Char.ofNat (87 + value)
    | .upper => Char.ofNat (55 + value)

/-- The low-order `width` digits of a number, the most significant first. -/
def padded (letters : Letters) : Nat → Nat → List Char
  | 0, _ => []
  | width + 1, n => padded letters width (n / 16) ++ [digit letters (n % 16)]

/-- Two digits for each octet. -/
def dump (letters : Letters) (bs : Bytes) : String :=
  String.ofList (bs.flatMap fun b => padded letters 2 b.toNat)

theorem length_padded (letters : Letters) (width n : Nat) :
    (padded letters width n).length = width := by
  induction width generalizing n with
  | zero => rfl
  | succ width ih => simp [padded, ih]

end Hex
end GameLink
