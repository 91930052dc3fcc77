import GameLink.Toml.Read

/-!
# Documents

Putting the statements of a document together.  A header starts a table that takes the
assignments up to the next header; it is placed in the document when it is complete.
-/

namespace GameLink
namespace Toml

/-- Where the assignments at hand belong. -/
inductive Place
  | root
  | table (key : KeyPath)
  | element (key : KeyPath)

structure Draft where
  /-- What was placed. -/
  root : Entries
  /-- The table that takes the next assignment. -/
  place : Place
  /-- Its entries. -/
  entries : Entries

namespace Draft

def empty : Draft := ⟨[], .root, []⟩

/-- Places the table at hand; the result is the whole document so far. -/
def finish (d : Draft) : Option Entries :=
  match d.place with
  | .root => some d.entries
  | .table key =>
      (d.root.alter key.path fun parent =>
        some ((), parent.append key.key (.table .header d.entries))).map (·.2)
  | .element key =>
      (d.root.alter key.path fun parent =>
        match parent.lookup key.key with
        | some (.array .headers elements) =>
            some ((), parent.replace key.key
              (.array .headers (elements ++ [.table .header d.entries])))
        | _ => none).map (·.2)

/-- Starts a table.  One that headers of inner tables implied is taken out of the
document with what it holds. -/
def startTable (root : Entries) (key : KeyPath) : Option Draft :=
  (root.alter key.path fun parent =>
    match parent.lookup key.key with
    | none => some ([], parent)
    | some (.table .implied entries) => some (entries, parent.remove key.key)
    | some _ => none).map fun (entries, root) => ⟨root, .table key, entries⟩

/-- Starts an element of an array of tables. -/
def startElement (root : Entries) (key : KeyPath) : Option Draft :=
  (root.alter key.path fun parent =>
    match parent.lookup key.key with
    | none => some ((), parent.append key.key (.array .headers []))
    | some (.array .headers _) => some ((), parent)
    | some _ => none).map fun (_, root) => ⟨root, .element key, []⟩

def add (d : Draft) : Statement → Option Draft
  | .assignment key value =>
      (d.entries.assign key.path key.key value).map fun entries => { d with entries }
  | .table key => d.finish.bind fun root => startTable root key
  | .element key => d.finish.bind fun root => startElement root key

end Draft

/-- The entries that a list of statements makes. -/
def ofStatements? (statements : List Statement) : Option Entries :=
  (statements.foldlM Draft.add Draft.empty).bind Draft.finish

/-- A text without a byte order mark in front. -/
def withoutMark (cs : List Char) : List Char :=
  if cs.head? = some '\uFEFF' then cs.tail else cs

def read? (text : String) : Option Entries :=
  let cs := withoutMark text.toList
  (readStatements? (cs.length + 1) cs).bind ofStatements?

end Toml
end GameLink
