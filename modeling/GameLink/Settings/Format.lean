import GameLink.Settings.Basic
import GameLink.Toml.Document
import GameLink.Toml.Write

/-!
# Text formats

What settings rely on when they are written as text and read back: how a document of tables is
printed and parsed, and which texts name a log level.  Settings are given a format; `toml` is one.
-/

namespace GameLink

/-- A printer and a parser of documents, and a reader of log levels. -/
structure TextFormat where
  /-- The text of a document of tables, if all of it can be printed. -/
  print? : List Toml.NamedTable → Option String
  /-- The entries of the document that a text is, if it is one. -/
  parse? : String → Option Toml.Entries
  readLevel? : String → Option LogLevel

def TextFormat.toml : TextFormat where
  print? := Toml.write?
  parse? := Toml.read?
  readLevel? := LogLevel.ofText?

end GameLink
