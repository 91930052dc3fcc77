import GameLink.Toml.Character

/-!
# Reading quoted text

The four forms of quoted text: basic and literal, each on one line or on several.
Basic text has escapes; literal text stands for itself.  Text on several lines may
begin with a newline, which is dropped, and may end with up to two of its own quotes.
-/

namespace GameLink
namespace Toml

/-- The character of an escape of one letter. -/
def escapedLetter? (c : Char) : Option Char :=
  if c = 'b' then some '\x08'
  else if c = 't' then some '\t'
  else if c = 'n' then some '\n'
  else if c = 'f' then some '\x0c'
  else if c = 'r' then some '\r'
  else if c = '"' then some '"'
  else if c = '\\' then some '\\'
  else none

/-- Reads the character with a number of `count` hexadecimal digits. -/
def readCode? (count : Nat) (cs : List Char) : Option (Char × List Char) :=
  let digits := cs.take count
  let code := digitsValue 16 digits
  if digits.length = count ∧ digits.all isHexDigit ∧ code.isValidChar then
    some (Char.ofNat code, cs.drop count)
  else
    none

def readEscape? : List Char → Option (Char × List Char)
  | [] => none
  | c :: cs =>
      match escapedLetter? c with
      | some d => some (d, cs)
      | none =>
          if c = 'u' then readCode? 4 cs
          else if c = 'U' then readCode? 8 cs
          else none

theorem length_readEscape? {cs rest : List Char} {c : Char}
    (h : readEscape? cs = some (c, rest)) : rest.length < cs.length := by
  unfold readEscape? at h
  split at h
  · simp at h
  · split at h
    · simp only [Option.some.injEq, Prod.mk.injEq] at h
      simp [← h.2]
    · have code {n : Nat} {cs rest : List Char} {c : Char}
          (h : readCode? n cs = some (c, rest)) : rest.length ≤ cs.length := by
        unfold readCode? at h
        simp only [Option.ite_none_right_eq_some, Option.some.injEq, Prod.mk.injEq] at h
        simp [← h.2.2]
      split at h
      · have := code h
        simp only [List.length_cons]
        omega
      · split at h
        · have := code h
          simp only [List.length_cons]
          omega
        · simp at h

/-- A reading with one more character in front. -/
def withFirst (c : Char) (read : Option (List Char × List Char)) :
    Option (List Char × List Char) :=
  read.map fun (text, rest) => (c :: text, rest)

/-- Reads basic text up to its closing quote. -/
def readBasic? : List Char → Option (List Char × List Char)
  | [] => none
  | c :: cs =>
      if c = '"' then some ([], cs)
      else if c = '\\' then
        match _h : readEscape? cs with
        | some (d, rest) => withFirst d (readBasic? rest)
        | none => none
      else if isPlain c then withFirst c (readBasic? cs)
      else none
termination_by cs => cs.length
decreasing_by
  · have := length_readEscape? _h
    simp only [List.length_cons]
    omega
  · simp

/-- The up to two quotes that belong to a text in front of three closing quotes, with
what follows them. -/
def trailingQuotes (quote : Char) (cs : List Char) : List Char × List Char :=
  let count := min 2 (cs.takeWhile (· == quote)).length
  (List.replicate count quote, cs.drop count)

/-- Reads basic text of several lines up to its closing quotes.  A backslash at the end
of a line drops it with all space that follows. -/
def readLines? : List Char → Option (List Char × List Char)
  | [] => none
  | c :: cs =>
      if c = '"' then
        if cs.take 2 = ['"', '"'] then some (trailingQuotes '"' (cs.drop 2))
        else withFirst c (readLines? cs)
      else if c = '\\' then
        match _h : afterNewline? (skipBlanks cs) with
        | some rest => readLines? (skipSpace rest)
        | none =>
            match _h : readEscape? cs with
            | some (d, rest) => withFirst d (readLines? rest)
            | none => none
      else
        match _h : afterNewline? (c :: cs) with
        | some rest => withFirst '\n' (readLines? rest)
        | none => if isPlain c then withFirst c (readLines? cs) else none
termination_by cs => cs.length
decreasing_by
  · simp
  · have := length_afterNewline? _h
    have := length_skipSpace rest
    have := length_skipBlanks cs
    simp only [List.length_cons]
    omega
  · have := length_readEscape? _h
    simp only [List.length_cons]
    omega
  · exact length_afterNewline? _h
  · simp

/-- Reads literal text up to its closing quote. -/
def readLiteral? (cs : List Char) : Option (List Char × List Char) :=
  let inside (c : Char) : Bool := isPlain c && c != '\''
  (after? '\'' (cs.dropWhile inside)).map fun rest => (cs.takeWhile inside, rest)

/-- Reads literal text of several lines up to its closing quotes. -/
def readLiteralLines? : List Char → Option (List Char × List Char)
  | [] => none
  | c :: cs =>
      if c = '\'' then
        if cs.take 2 = ['\'', '\''] then some (trailingQuotes '\'' (cs.drop 2))
        else withFirst c (readLiteralLines? cs)
      else
        match _h : afterNewline? (c :: cs) with
        | some rest => withFirst '\n' (readLiteralLines? rest)
        | none => if isPlain c then withFirst c (readLiteralLines? cs) else none
termination_by cs => cs.length
decreasing_by
  · simp
  · exact length_afterNewline? _h
  · simp

/-- What follows a newline, if there is one. -/
def dropNewline (cs : List Char) : List Char :=
  (afterNewline? cs).getD cs

/-- Reads quoted text of any of the four forms. -/
def readQuoted? (cs : List Char) : Option (List Char × List Char) :=
  if cs.take 3 = ['"', '"', '"'] then readLines? (dropNewline (cs.drop 3))
  else if cs.take 1 = ['"'] then readBasic? (cs.drop 1)
  else if cs.take 3 = ['\'', '\'', '\''] then readLiteralLines? (dropNewline (cs.drop 3))
  else if cs.take 1 = ['\''] then readLiteral? (cs.drop 1)
  else none

end Toml
end GameLink
