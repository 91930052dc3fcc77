import GameLink.Toml.Quoted.Write
import GameLink.Toml.Value

/-!
# Writing documents

A document of named tables of scalars: a header, one assignment a line, an empty line
between tables.  Integers beyond 64 bits with a sign cannot be written.
-/

namespace GameLink
namespace Toml

/-- A table of scalars under its name. -/
structure NamedTable where
  name : String
  entries : List (String × Scalar)
deriving DecidableEq, Repr

namespace Scalar

def isWritable : Scalar → Bool
  | .integer value => Int64.minValue.toInt ≤ value && value ≤ Int64.maxValue.toInt
  | .text _ | .boolean _ => true

def write : Scalar → List Char
  | .text value => writeQuoted value.toList
  | .integer value => (toString value).toList
  | .boolean value => if value then "true".toList else "false".toList

end Scalar

def writeAssignment (entry : String × Scalar) : List Char :=
  entry.1.toList ++ [' ', '=', ' '] ++ entry.2.write ++ ['\n']

namespace NamedTable

/-- Whether all scalars of a table can be written. -/
def isWritable (t : NamedTable) : Bool :=
  t.entries.all fun entry => entry.2.isWritable

def write (t : NamedTable) : List Char :=
  ['['] ++ t.name.toList ++ [']', '\n'] ++ t.entries.flatMap writeAssignment

end NamedTable

/-- The text of a document, if all its integers can be written. -/
def write? (tables : List NamedTable) : Option String :=
  if tables.all NamedTable.isWritable then
    some (String.ofList (['\n'].intercalate (tables.map NamedTable.write)))
  else
    none

end Toml
end GameLink
