import GameLink.Toml.Character

/-!
# Numerals

Integers in base ten, sixteen, eight and two, and floats.  Single underscores may stand
between digits.  An integer has 64 bits; a float is only checked, for no field takes
one.
-/

namespace GameLink
namespace Toml

/-- What a numeral stands for. -/
inductive Number
  | integer (value : Int)
  | float
deriving DecidableEq, Repr

/-- Reads digits and the single underscores between them. -/
def readMoreDigits (isDigit : Char → Bool) : List Char → List Char × List Char
  | [] => ([], [])
  | c :: cs =>
      if isDigit c then
        let (digits, rest) := readMoreDigits isDigit cs
        (c :: digits, rest)
      else
        match cs with
        | [] => ([], [c])
        | d :: ds =>
            if c = '_' ∧ isDigit d then
              let (digits, rest) := readMoreDigits isDigit ds
              (d :: digits, rest)
            else
              ([], c :: d :: ds)

/-- Reads at least one digit. -/
def readDigits? (isDigit : Char → Bool) (cs : List Char) :
    Option (List Char × List Char) :=
  if (cs.head?.map isDigit).getD false then some (readMoreDigits isDigit cs) else none

/-- Reads a sign; says whether it is a minus. -/
def readSign (cs : List Char) : Bool × List Char :=
  match cs with
  | [] => (false, [])
  | c :: rest => if c = '-' then (true, rest) else if c = '+' then (false, rest) else (false, cs)

/-- Reads decimal digits without needless zeros in front. -/
def readDecimal? (cs : List Char) : Option (List Char × List Char) :=
  if cs.head? = some '0' then some (['0'], cs.tail) else readDigits? Char.isDigit cs

/-- An integer if 64 bits hold it. -/
def integer? (value : Int) : Option Number :=
  if Int64.minValue.toInt ≤ value ∧ value ≤ Int64.maxValue.toInt then some (.integer value) else none

/-- Reads digits of another base, after the base's letter. -/
def readBased? (base : Nat) (isDigit : Char → Bool) (cs : List Char) :
    Option (Number × List Char) := do
  let (digits, rest) ← readDigits? isDigit cs
  let number ← integer? (digitsValue base digits)
  some (number, rest)

/-- The whole part of a number that has `places` places before its point and begins with
`digits`; the places that the digits do not fill hold zeros. -/
def wholePart (digits : List Char) (places : Nat) : Nat :=
  let leading := digits.take places
  digitsValue 10 leading * Nat.pow 10 (places - leading.length)

/-- The least number that is rounded up beyond the floats of 64 bits: half a step above
the largest of them. -/
def floatLimit : Nat := (1 <<< 1024) - (1 <<< 970)

/-- Whether `digits · 10 ^ exponent` is too large for a float of 64 bits.  The limit is
a whole number, so the whole part decides; and it has 309 places, so a number with fewer
or more of them need not be computed. -/
def overflows (digits : List Char) (exponent : Int) : Bool :=
  let significant := digits.dropWhile (· == '0')
  let places : Int := significant.length + exponent
  if significant.isEmpty then false
  else if places < 309 then false
  else if 309 < places then true
  else floatLimit ≤ wholePart significant 309

/-- An exponent that has come this far is not made longer. -/
def exponentLimit : Nat := 1 <<< 16

/-- The number that an exponent's digits stand for.  Once the limit is reached, further
digits are passed over. -/
def exponentValue (digits : List Char) : Nat :=
  digits.foldl (fun n c => if n < exponentLimit then 10 * n + hexValue c else n) 0

/-- Reads an exponent, zero if there is none. -/
def readExponent? (cs : List Char) : Option (Int × List Char) :=
  if cs.head? = some 'e' ∨ cs.head? = some 'E' then do
    let (negative, rest) := readSign cs.tail
    let (digits, rest) ← readDigits? Char.isDigit rest
    let value : Int := exponentValue digits
    some (if negative then -value else value, rest)
  else
    some (0, cs)

/-- Reads the digits after a point, none if there is no point. -/
def readFraction? (cs : List Char) : Option (List Char × List Char) :=
  if cs.head? = some '.' then readDigits? Char.isDigit cs.tail else some ([], cs)

def readDecimalNumber? (cs : List Char) : Option (Number × List Char) := do
  let (negative, digits) := readSign cs
  if digits.take 3 = ['i', 'n', 'f'] ∨ digits.take 3 = ['n', 'a', 'n'] then
    some (.float, digits.drop 3)
  else
    let (whole, rest) ← readDecimal? digits
    if rest.head? = some '.' ∨ rest.head? = some 'e' ∨ rest.head? = some 'E' then
      let (fraction, rest) ← readFraction? rest
      let (exponent, rest) ← readExponent? rest
      if !negative && overflows (whole ++ fraction) (exponent - fraction.length) then
        none
      else
        some (.float, rest)
    else
      let value : Int := digitsValue 10 whole
      let number ← integer? (if negative then -value else value)
      some (number, rest)

def readNumber? (cs : List Char) : Option (Number × List Char) :=
  if cs.take 2 = ['0', 'x'] then readBased? 16 isHexDigit (cs.drop 2)
  else if cs.take 2 = ['0', 'o'] then
    readBased? 8 (fun c => '0' ≤ c && c ≤ '7') (cs.drop 2)
  else if cs.take 2 = ['0', 'b'] then
    readBased? 2 (fun c => c == '0' || c == '1') (cs.drop 2)
  else readDecimalNumber? cs

end Toml
end GameLink
