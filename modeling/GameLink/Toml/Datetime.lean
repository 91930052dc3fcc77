import GameLink.Toml.Character

/-!
# Dates and times

Recognising a date, a time, or both with an optional offset.  The parts are checked for
their ranges, the day for the length of its month; the value is not kept, for no field
takes one.
-/

namespace GameLink
namespace Toml

/-- Reads a number of exactly `count` digits between two bounds. -/
def readField? (count low high : Nat) (cs : List Char) : Option (Nat × List Char) :=
  let digits := cs.take count
  let value := digitsValue 10 digits
  if digits.length = count ∧ digits.all Char.isDigit ∧ low ≤ value ∧ value ≤ high then
    some (value, cs.drop count)
  else
    none

/-- Whether a year has a leap day. -/
def isLeapYear (year : Nat) : Bool :=
  year % 4 == 0 && (year % 100 != 0 || year % 400 == 0)

/-- The number of days of a month. -/
def daysOf (year month : Nat) : Nat :=
  if month = 2 then (if isLeapYear year then 29 else 28)
  else if month = 4 ∨ month = 6 ∨ month = 9 ∨ month = 11 then 30
  else 31

def afterDate? (cs : List Char) : Option (List Char) := do
  let (year, cs) ← readField? 4 0 9999 cs
  let cs ← after? '-' cs
  let (month, cs) ← readField? 2 1 12 cs
  let cs ← after? '-' cs
  let (_, cs) ← readField? 2 1 (daysOf year month) cs
  some cs

/-- What follows the fraction of a second, if there is one. -/
def afterFraction (cs : List Char) : List Char :=
  if cs.head? = some '.' ∧ (cs.tail.takeWhile Char.isDigit) ≠ [] then
    cs.tail.dropWhile Char.isDigit
  else
    cs

/-- What follows a time of day; a second may be a leap second. -/
def afterTime? (cs : List Char) : Option (List Char) := do
  let (_, cs) ← readField? 2 0 23 cs
  let cs ← after? ':' cs
  let (_, cs) ← readField? 2 0 59 cs
  let cs ← after? ':' cs
  let (_, cs) ← readField? 2 0 60 cs
  some (afterFraction cs)

/-- What follows an offset of hours and minutes. -/
def afterNumericOffset? (cs : List Char) : Option (List Char) := do
  let (_, cs) ← readField? 2 0 23 cs
  let cs ← after? ':' cs
  let (_, cs) ← readField? 2 0 59 cs
  some cs

/-- What follows an offset from universal time, if there is one. -/
def afterOffset (cs : List Char) : List Char :=
  match cs with
  | [] => []
  | c :: rest =>
      if c = 'Z' ∨ c = 'z' then rest
      else if c = '+' ∨ c = '-' then (afterNumericOffset? rest).getD cs
      else cs

/-- What follows the time of day after a date, if there is one. -/
def afterDayTime (cs : List Char) : List Char :=
  match cs with
  | [] => []
  | c :: rest =>
      if c = 'T' ∨ c = 't' ∨ c = ' ' then ((afterTime? rest).map afterOffset).getD cs
      else cs

/-- What follows a date, a time of day, or both. -/
def afterDatetime? (cs : List Char) : Option (List Char) :=
  match afterDate? cs with
  | some rest => some (afterDayTime rest)
  | none => afterTime? cs

end Toml
end GameLink
