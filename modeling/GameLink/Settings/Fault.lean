import GameLink.Settings.Numeral
import GameLink.Settings.Problem

/-!
# What is wrong with settings

Causes for settings that cannot be loaded, stored or used, and their wording.
-/

namespace GameLink
namespace Settings

/-- Why a text describes no settings. -/
inductive TextFault
  /-- The text is no document at all. -/
  | syntaxError
  /-- A value has the wrong type or is out of range. -/
  | mismatch
  /-- A section lacks a field. -/
  | missingField (name : String)
  /-- No log level has this name. -/
  | unknownLevel (name : String)
deriving DecidableEq, Repr

def TextFault.message : TextFault → String
  | .syntaxError => "not a document"
  | .mismatch => "a value does not fit its field"
  | .missingField name => "missing field \x60" ++ name ++ "\x60"
  | .unknownLevel name => "Invalid log level: " ++ name

/-- Why a file could not be used. -/
inductive FileFault
  | notFound
  | notText
deriving DecidableEq, Repr

def FileFault.message : FileFault → String
  | .notFound => "No such file or directory (os error 2)"
  | .notText => "stream did not contain valid UTF-8"

/-- Why settings cannot be loaded, stored or used. -/
inductive Fault
  /-- The file cannot be opened. -/
  | openFile (fault : FileFault)
  /-- The file cannot be read as text. -/
  | readFile (fault : FileFault)
  /-- The text describes no settings. -/
  | parse (fault : TextFault)
  /-- A number is too large for the text format. -/
  | unprintable
  /-- The file cannot be written. -/
  | writeFile (fault : FileFault)
  /-- The port in the environment is no port number. -/
  | environmentPort (text : String) (fault : NumeralFault)
  /-- The settings do not make sense. -/
  | invalid (problems : List Problem)
  /-- An integrity table of the wrong size was given. -/
  | tableSize (given : Nat)
deriving DecidableEq, Repr

def Fault.message : Fault → String
  | .openFile fault => "Failed to open config file: " ++ fault.message
  | .readFile fault => "Failed to read config file: " ++ fault.message
  | .parse fault => "Failed to parse TOML: " ++ fault.message
  | .unprintable => "Failed to serialize config: out-of-range value for u64 type"
  | .writeFile fault => "Failed to write config file: " ++ fault.message
  | .environmentPort text fault =>
      "Invalid TOS_NET_SERVER_PORT '" ++ text ++ "': " ++ fault.message
  | .invalid problems =>
      "Configuration validation failed:\n  - "
        ++ String.intercalate "\n  - " (problems.map Problem.message)
  | .tableSize given => "integrity table needs 2048 keys, got " ++ toString given

end Settings
end GameLink
