import GameLink.Toml.Datetime
import GameLink.Toml.Numeral
import GameLink.Toml.Quoted.Read
import GameLink.Toml.Value

/-!
# Reading statements

A document is a list of statements: assignments and headers, each on a line of its own
between comments and empty lines.

**Depth.** Arrays and inline tables nest less than eighty levels deep, and a dotted key
has fewer than eighty parts.
-/

namespace GameLink
namespace Toml

/-- The number of levels and of key parts that a document stays below. -/
def depthLimit : Nat := 80

/-- A dotted key: the path and the last part. -/
structure KeyPath where
  path : List String
  key : String
deriving DecidableEq, Repr

/-- Reads one part of a dotted key with the blanks around it. -/
def readKeyPart? (cs : List Char) : Option (String × List Char) := do
  let cs := skipBlanks cs
  let (text, rest) ←
    if cs.take 1 = ['"'] then readBasic? (cs.drop 1)
    else if cs.take 1 = ['\''] then readLiteral? (cs.drop 1)
    else if cs.takeWhile isBare = [] then none
    else some (cs.takeWhile isBare, cs.dropWhile isBare)
  some (String.ofList text, skipBlanks rest)

/-- Reads the parts of a dotted key, at most `fuel` of them. -/
def readKeyParts? : Nat → List Char → Option (List String × List Char)
  | 0, _ => none
  | fuel + 1, cs => do
      let (part, rest) ← readKeyPart? cs
      match after? '.' rest with
      | some rest =>
          let (parts, rest) ← readKeyParts? fuel rest
          some (part :: parts, rest)
      | none => some ([part], rest)

def readKey? (cs : List Char) : Option (KeyPath × List Char) := do
  let (parts, rest) ← readKeyParts? (depthLimit - 1) cs
  let key ← parts.getLast?
  some (⟨parts.dropLast, key⟩, rest)

/-- A value without parts. -/
def readScalar? (cs : List Char) : Option (Value × List Char) :=
  if cs.take 1 = ['"'] ∨ cs.take 1 = ['\''] then
    (readQuoted? cs).map fun (text, rest) => (.scalar (.text (String.ofList text)), rest)
  else if cs.take 4 = ['t', 'r', 'u', 'e'] then
    some (.scalar (.boolean true), cs.drop 4)
  else if cs.take 5 = ['f', 'a', 'l', 's', 'e'] then
    some (.scalar (.boolean false), cs.drop 5)
  else
    match afterDatetime? cs with
    | some rest => some (.datetime, rest)
    | none =>
        (readNumber? cs).map fun
          | (.integer value, rest) => (.scalar (.integer value), rest)
          | (.float, rest) => (.float, rest)

/-- What follows blanks, comments and newlines; a comment ends with a newline. -/
def skipLines : Nat → List Char → List Char
  | 0, cs => cs
  | fuel + 1, cs =>
      let rest := skipSpace cs
      if rest.head? = some '#' then
        match afterNewline? (skipComment rest) with
        | some rest => skipLines fuel rest
        | none => rest
      else
        rest

def skipIgnored (cs : List Char) : List Char :=
  skipLines (cs.length + 1) cs

/-- Reads the elements of an array and its closing bracket.  A comma may follow the
last. -/
def readElements? (readValue? : List Char → Option (Value × List Char)) :
    Nat → List Char → Option (List Value × List Char)
  | 0, _ => none
  | fuel + 1, cs => do
      let cs := skipIgnored cs
      match after? ']' cs with
      | some rest => some ([], rest)
      | none =>
          let (value, rest) ← readValue? cs
          let rest := skipIgnored rest
          match after? ',' rest with
          | some rest =>
              let (values, rest) ← readElements? readValue? fuel rest
              some (value :: values, rest)
          | none =>
              let rest ← after? ']' rest
              some ([value], rest)

/-- Reads a key, an equals sign and a value. -/
def readAssignment? (readValue? : List Char → Option (Value × List Char))
    (cs : List Char) : Option ((KeyPath × Value) × List Char) := do
  let (key, rest) ← readKey? cs
  let rest ← after? '=' rest
  let (value, rest) ← readValue? (skipBlanks rest)
  some ((key, value), rest)

/-- Reads the entries of an inline table and its closing brace. -/
def readEntries? (readValue? : List Char → Option (Value × List Char)) :
    Nat → Entries → List Char → Option (Entries × List Char)
  | 0, _, _ => none
  | fuel + 1, entries, cs => do
      let ((key, value), rest) ← readAssignment? readValue? cs
      let entries ← entries.assign key.path key.key value
      let rest := skipBlanks rest
      match after? ',' rest with
      | some rest => readEntries? readValue? fuel entries rest
      | none =>
          let rest ← after? '}' rest
          some (entries, rest)

/-- Reads a value whose parts nest at most `depth` levels deep. -/
def readValue? : Nat → List Char → Option (Value × List Char)
  | 0, cs => readScalar? cs
  | depth + 1, cs =>
      match after? '[' cs with
      | some rest =>
          (readElements? (readValue? depth) (rest.length + 1) rest).map
            fun (values, rest) => (.array .brackets values, rest)
      | none =>
          match after? '{' cs with
          | some rest =>
              match after? '}' (skipBlanks rest) with
              | some rest => some (.table .braces [], rest)
              | none =>
                  (readEntries? (readValue? depth) (rest.length + 1) [] rest).map
                    fun (entries, rest) => (.table .braces entries, rest)
          | none => readScalar? cs

inductive Statement
  | assignment (key : KeyPath) (value : Value)
  | table (key : KeyPath)
  /-- A new element of an array of tables. -/
  | element (key : KeyPath)

/-- Reads a statement up to the end of its line. -/
def readStatement? (cs : List Char) : Option (Statement × List Char) :=
  if cs.take 2 = ['[', '['] then do
    let (key, rest) ← readKey? (cs.drop 2)
    let rest ← after? ']' rest
    let rest ← after? ']' rest
    let rest ← afterStatement? rest
    some (.element key, rest)
  else if cs.take 1 = ['['] then do
    let (key, rest) ← readKey? (cs.drop 1)
    let rest ← after? ']' rest
    let rest ← afterStatement? rest
    some (.table key, rest)
  else do
    let ((key, value), rest) ← readAssignment? (readValue? (depthLimit - 1)) cs
    let rest ← afterStatement? rest
    some (.assignment key value, rest)

def readStatements? : Nat → List Char → Option (List Statement)
  | 0, _ => none
  | fuel + 1, cs =>
      let cs := skipBlanks cs
      if cs = [] then some []
      else
        match afterStatement? cs with
        | some rest => readStatements? fuel rest
        | none => do
            let (statement, rest) ← readStatement? cs
            let statements ← readStatements? fuel rest
            some (statement :: statements)

end Toml
end GameLink
