/-!
# Values of a document

Documents are trees of tables; a table remembers the order of its entries and which
kind of statement made it, for that decides which later statements may add to it.
-/

namespace GameLink
namespace Toml

/-- A value that is not made of others. -/
inductive Scalar
  | text (value : String)
  | integer (value : Int)
  | boolean (value : Bool)
deriving DecidableEq, Repr

/-- What made a table. -/
inductive Origin
  /-- Its own header, or the document itself. -/
  | header
  /-- A header of a table inside it. -/
  | implied
  /-- A dotted key. -/
  | dotted
  /-- Braces. -/
  | braces
deriving DecidableEq, Repr

/-- What made an array. -/
inductive ArrayOrigin
  /-- Headers in double brackets. -/
  | headers
  /-- Brackets. -/
  | brackets
deriving DecidableEq, Repr

inductive Value
  | scalar (value : Scalar)
  /-- A float; which one is not kept. -/
  | float
  /-- A date or a time; which one is not kept. -/
  | datetime
  | array (origin : ArrayOrigin) (elements : List Value)
  | table (origin : Origin) (entries : List (String × Value))

/-- The entries of a table, in order. -/
abbrev Entries := List (String × Value)

namespace Entries

/-- The entries with another value for a key. -/
def replace (entries : Entries) (key : String) (value : Value) : Entries :=
  entries.map fun entry => if entry.1 = key then (key, value) else entry

/-- The entries without a key. -/
def remove (entries : Entries) (key : String) : Entries :=
  entries.filter fun entry => entry.1 ≠ key

/-- The entries with one more at the end. -/
def append (entries : Entries) (key : String) (value : Value) : Entries :=
  entries ++ [(key, value)]

/-- Assigns a value to a key under a path of dotted keys.  The path leads through tables
that have no header of their own and through the last element of an array of headers;
it must end in a table that dotted keys made. -/
def assign (entries : Entries) : List String → String → Value → Option Entries
  | [], key, value =>
      if (entries.lookup key).isSome then none else some (append entries key value)
  | step :: path, key, value =>
      match entries.lookup step with
      | none =>
          (assign [] path key value).map fun inner =>
            append entries step (.table .dotted inner)
      | some (.table origin inner) =>
          if origin = .dotted ∨ (origin = .implied ∧ path ≠ []) then
            (assign inner path key value).map fun inner =>
              replace entries step (.table origin inner)
          else
            none
      | some (.array .headers elements) =>
          match elements.getLast? with
          | some (.table origin inner) =>
              if path ≠ [] then
                (assign inner path key value).map fun inner =>
                  replace entries step
                    (.array .headers (elements.dropLast ++ [.table origin inner]))
              else
                none
          | _ => none
      | some _ => none

/-- Changes the table that a path of headers leads to.  Missing tables are made on the
way; the path leads through tables not in braces and through the last element of an
array of headers. -/
def alter {α : Type} (entries : Entries) :
    List String → (Entries → Option (α × Entries)) → Option (α × Entries)
  | [], change => change entries
  | step :: path, change =>
      match entries.lookup step with
      | none =>
          (alter [] path change).map fun (a, inner) =>
            (a, append entries step (.table .implied inner))
      | some (.table origin inner) =>
          if origin = .braces then none
          else
            (alter inner path change).map fun (a, inner) =>
              (a, replace entries step (.table origin inner))
      | some (.array .headers elements) =>
          match elements.getLast? with
          | some (.table origin inner) =>
              (alter inner path change).map fun (a, inner) =>
                (a, replace entries step
                  (.array .headers (elements.dropLast ++ [.table origin inner])))
          | _ => none
      | some _ => none

end Entries
end Toml
end GameLink
