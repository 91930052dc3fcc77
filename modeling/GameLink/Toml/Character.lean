/-!
# Characters of a TOML document

The classes of characters that the parts of a document are made of, and the ends of
its lines.  A reader takes the characters ahead and gives back those it left.
-/

namespace GameLink
namespace Toml

/-- Space and tab. -/
def isBlank (c : Char) : Bool :=
  c == ' ' || c == '\t'

/-- Any character but a control character; tab is none. -/
def isPlain (c : Char) : Bool :=
  c == '\t' || (0x20 ≤ c.toNat && c.toNat != 0x7F)

/-- What a key may be made of without quotes. -/
def isBare (c : Char) : Bool :=
  c.isAlphanum || c == '_' || c == '-'

def isHexDigit (c : Char) : Bool :=
  c.isDigit || ('a' ≤ c && c ≤ 'f') || ('A' ≤ c && c ≤ 'F')

def hexValue (c : Char) : Nat :=
  if c.isDigit then c.toNat - 0x30
  else if 'a' ≤ c then c.toNat - 0x61 + 10
  else c.toNat - 0x41 + 10

def digitsValue (base : Nat) (digits : List Char) : Nat :=
  digits.foldl (fun n c => base * n + hexValue c) 0

/-- What follows a line feed, alone or after a carriage return. -/
def afterNewline? : List Char → Option (List Char)
  | [] => none
  | c :: cs =>
      if c = '\n' then some cs
      else if c = '\r' ∧ cs.head? = some '\n' then some cs.tail
      else none

def skipBlanks (cs : List Char) : List Char :=
  cs.dropWhile isBlank

def skipSpace : List Char → List Char
  | [] => []
  | c :: cs =>
      if isBlank c || c == '\n' || (c == '\r' && cs.head? == some '\n') then skipSpace cs
      else c :: cs

/-- What follows a comment, if there is one. -/
def skipComment (cs : List Char) : List Char :=
  if cs.head? = some '#' then cs.dropWhile isPlain else cs

/-- What follows the end of a line or of the document. -/
def afterLineEnd? (cs : List Char) : Option (List Char) :=
  if cs = [] then some [] else afterNewline? cs

/-- What follows the blanks and the comment after a statement. -/
def afterStatement? (cs : List Char) : Option (List Char) :=
  afterLineEnd? (skipComment (skipBlanks cs))

def after? (c : Char) : List Char → Option (List Char)
  | [] => none
  | d :: cs => if c = d then some cs else none

theorem length_afterNewline? {cs rest : List Char} (h : afterNewline? cs = some rest) :
    rest.length < cs.length := by
  unfold afterNewline? at h
  split at h
  · simp at h
  · split at h
    · simp_all
    · split at h
      · simp only [Option.some.injEq] at h
        subst h
        simp only [List.length_tail, List.length_cons]
        omega
      · simp at h

theorem length_skipBlanks (cs : List Char) : (skipBlanks cs).length ≤ cs.length :=
  (List.dropWhile_suffix _).length_le

theorem length_skipSpace (cs : List Char) : (skipSpace cs).length ≤ cs.length := by
  induction cs with
  | nil => simp [skipSpace]
  | cons c cs ih =>
      unfold skipSpace
      split
      · simp only [List.length_cons]
        omega
      · exact Nat.le_refl _

end Toml
end GameLink
