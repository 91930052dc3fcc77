/-!
# Decimal numerals

Reading a natural number below a limit from its decimal digits, with an optional plus
sign in front.
-/

namespace GameLink
namespace Settings

/-- Why a text is no decimal numeral of the wanted size. -/
inductive NumeralFault
  | empty
  | invalidDigit
  | tooLarge
deriving DecidableEq, Repr

def NumeralFault.message : NumeralFault → String
  | .empty => "cannot parse integer from empty string"
  | .invalidDigit => "invalid digit found in string"
  | .tooLarge => "number too large to fit in target type"

/-- The number of digits that continue a number below `limit`.  A character that is no
digit is noticed before the number it would belong to is found too large. -/
def continueNumeral (limit : Nat) : Nat → List Char → Except NumeralFault Nat
  | value, [] => .ok value
  | value, c :: cs =>
      if c.isDigit then
        let next := 10 * value + (c.toNat - 0x30)
        if next < limit then continueNumeral limit next cs else .error .tooLarge
      else
        .error .invalidDigit

/-- The number below `limit` that a text stands for. -/
def readNumeral (limit : Nat) (text : String) : Except NumeralFault Nat :=
  match text.toList with
  | [] => .error .empty
  | c :: cs =>
      if c = '+' then
        if cs = [] then .error .invalidDigit else continueNumeral limit 0 cs
      else
        continueNumeral limit 0 (c :: cs)

end Settings
end GameLink
