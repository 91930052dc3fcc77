import GameLink.Settings.Fault
import GameLink.Settings.Format

/-!
# Fields of a section

How each kind of setting is written as a scalar and read from one, and how a section
is written and read field by field.

**Order.** Reading looks at the entries of a table in the order of the document, so the
first value that does not fit is the one reported; a missing field is only noticed
when all entries are read, and then the first one in the order of the fields.
-/

namespace GameLink
namespace Settings

/-- How a kind of setting is written and read. -/
structure Codec (α : Type) where
  write : α → Toml.Scalar
  read : Toml.Scalar → Except TextFault α

namespace Codec

def text : Codec String where
  write := .text
  read
    | .text value => .ok value
    | _ => .error .mismatch

def flag : Codec Bool where
  write := .boolean
  read
    | .boolean value => .ok value
    | _ => .error .mismatch

/-- A natural number below a limit. -/
def readNatural (limit : Nat) : Toml.Scalar → Except TextFault Nat
  | .integer value =>
      if 0 ≤ value ∧ value < limit then .ok value.toNat else .error .mismatch
  | _ => .error .mismatch

def port : Codec UInt16 where
  write value := .integer value.toNat
  read scalar := (readNatural UInt16.size scalar).map UInt16.ofNat

def size : Codec UInt64 where
  write value := .integer value.toNat
  read scalar := (readNatural UInt64.size scalar).map UInt64.ofNat

/-- A duration in whole milliseconds; sixty-four bits of them are kept. -/
def milliseconds : Codec Duration where
  write value := .integer (UInt64.ofNat value.milliseconds).toNat
  read scalar := (readNatural UInt64.size scalar).map Duration.ofMilliseconds

def level (format : TextFormat) : Codec LogLevel where
  write value := .text value.name
  read
    | .text value =>
        match format.readLevel? value with
        | some level => .ok level
        | none => .error (.unknownLevel value)
    | _ => .error .mismatch

end Codec

structure Field (S : Type) where
  name : String
  write : S → Toml.Scalar
  read : S → Toml.Scalar → Except TextFault S

namespace Field

/-- A field from its codec, what it is and how it is changed. -/
def of {S α : Type} (name : String) (codec : Codec α) (get : S → α) (set : S → α → S) :
    Field S where
  name
  write s := codec.write (get s)
  read s scalar := (codec.read scalar).map (set s)

def readValue {S : Type} (field : Field S) (s : S) : Toml.Value → Except TextFault S
  | .scalar scalar => field.read s scalar
  | _ => .error .mismatch

end Field

/-- Reads one entry of a table; an entry that is no field is ignored. -/
def readEntry {S : Type} (fields : List (Field S)) (s : S) (entry : String × Toml.Value) :
    Except TextFault S :=
  match fields.find? fun field => field.name == entry.1 with
  | some field => field.readValue s entry.2
  | none => .ok s

/-- Reads a section from the entries of a table. -/
def readEntries {S : Type} (fields : List (Field S)) (s : S) (entries : Toml.Entries) :
    Except TextFault S := do
  let s ← entries.foldlM (readEntry fields) s
  match fields.find? fun field => (entries.lookup field.name).isNone with
  | some field => .error (.missingField field.name)
  | none => .ok s

/-- Reads a section from the elements of an array, one for each field; further elements
are ignored. -/
def readElements {S : Type} : List (Field S) → S → List Toml.Value → Except TextFault S
  | [], s, _ => .ok s
  | _ :: _, _, [] => .error .mismatch
  | field :: fields, s, value :: values => do
      readElements fields (← field.readValue s value) values

/-- Reads a section.  A date counts as a table without fields. -/
def readSection {S : Type} (fields : List (Field S)) (s : S) :
    Toml.Value → Except TextFault S
  | .table _ entries => readEntries fields s entries
  | .array _ elements => readElements fields s elements
  | .datetime => readEntries fields s []
  | .scalar _ | .float => .error .mismatch

def writeSection {S : Type} (name : String) (fields : List (Field S)) (s : S) :
    Toml.NamedTable :=
  ⟨name, fields.map fun field => (field.name, field.write s)⟩

end Settings
end GameLink
