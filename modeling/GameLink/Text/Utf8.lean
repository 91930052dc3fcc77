import GameLink.Bytes

/-!
# Text as octets

The UTF-8 form of a text and the reading of octets that may not be one: each longest
start of a character that cannot be continued becomes one replacement character.
A second pair of functions clamps text to ASCII.
-/

namespace GameLink
namespace Utf8

def encode (s : String) : Bytes :=
  s.toList.flatMap String.utf8EncodeChar

def replacement : Char := '\uFFFD'

/-- Whether an octet continues a character. -/
def isContinuation (b : UInt8) : Bool :=
  0x80 ≤ b && b < 0xC0

/-- The range of the octet that may follow a first octet of a longer character. -/
def secondRange (first : UInt8) : Option (UInt8 × UInt8) :=
  if first < 0xC2 then none
  else if first < 0xE0 then some (0x80, 0xBF)
  else if first = 0xE0 then some (0xA0, 0xBF)
  else if first = 0xED then some (0x80, 0x9F)
  else if first < 0xF0 then some (0x80, 0xBF)
  else if first = 0xF0 then some (0x90, 0xBF)
  else if first < 0xF4 then some (0x80, 0xBF)
  else if first = 0xF4 then some (0x80, 0x8F)
  else none

/-- How many continuation octets a first octet asks for. -/
def continuations (first : UInt8) : Nat :=
  if first < 0xE0 then 1 else if first < 0xF0 then 2 else 3

/-- The payload bits of a first octet. -/
def leadBits (first : UInt8) : Nat :=
  if first < 0xE0 then first.toNat % 32
  else if first < 0xF0 then first.toNat % 16
  else first.toNat % 8

/-- The scalar value of a first octet and its continuations. -/
def scalar (first : UInt8) (rest : Bytes) : Nat :=
  rest.foldl (fun value b => value * 64 + b.toNat % 64) (leadBits first)

/--
The character at the front of a nonempty byte string, if there is one, and how many
octets after the first belong to it or to its broken start.
-/
def scan (first : UInt8) (rest : Bytes) : Option Char × Nat :=
  if first < 0x80 then
    (some (Char.ofNat first.toNat), 0)
  else
    match secondRange first, rest with
    | some (low, high), second :: more =>
        if low ≤ second && second ≤ high then
          let wanted := continuations first
          let present := 1 + ((more.take (wanted - 1)).takeWhile isContinuation).length
          if present = wanted then
            (some (Char.ofNat (scalar first (rest.take wanted))), wanted)
          else
            (none, present)
        else
          (none, 0)
    | _, _ => (none, 0)

/-- The characters of a byte string, what is no character replaced. -/
def decodeChars : Bytes → List Char
  | [] => []
  | first :: rest =>
      let found := scan first rest
      found.1.getD replacement :: decodeChars (rest.drop found.2)
termination_by bs => bs.length
decreasing_by simp only [List.length_drop, List.length_cons]; omega

/-- The text of a byte string, what is no character replaced. -/
def decode (bs : Bytes) : String :=
  String.ofList (decodeChars bs)

/-- The characters of a byte string that holds nothing but characters. -/
def decodeChars? : Bytes → Option (List Char)
  | [] => some []
  | first :: rest =>
      match scan first rest with
      | (some c, used) => (decodeChars? (rest.drop used)).map (c :: ·)
      | (none, _) => none
termination_by bs => bs.length
decreasing_by simp only [List.length_drop, List.length_cons]; omega

/-- The text of a byte string that holds nothing but characters. -/
def decode? (bs : Bytes) : Option String :=
  (decodeChars? bs).map String.ofList

end Utf8

namespace Ascii

/-- One octet for each character, a question mark for each that is not ASCII. -/
def encode (s : String) : Bytes :=
  s.toList.map fun c => if c.toNat < 128 then UInt8.ofNat c.toNat else 63

/-- A text with a question mark for each character that is not ASCII. -/
def clamp (s : String) : String :=
  String.ofList (s.toList.map fun c => if c.toNat < 128 then c else '?')

/-- One character for each octet, a question mark for each that is not ASCII. -/
def decode (bs : Bytes) : String :=
  String.ofList (bs.map fun b => if b < 128 then Char.ofNat b.toNat else '?')

end Ascii
end GameLink
