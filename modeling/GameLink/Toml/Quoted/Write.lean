import GameLink.Hex
import GameLink.Toml.Character

/-!
# Writing quoted text

Each text is written in the plainest of the four forms that can hold it: basic if
nothing in it needs an escape, else literal, else on several lines, and with escapes
only if no other form is left.
-/

namespace GameLink
namespace Toml

inductive QuotedForm
  | basic
  | literal
  | basicLines
  | literalLines
deriving DecidableEq, Repr

namespace QuotedForm

def delimiter : QuotedForm → List Char
  | .basic => ['"']
  | .literal => ['\'']
  | .basicLines => ['"', '"', '"']
  | .literalLines => ['\'', '\'', '\'']

/-- Whether a form may hold newlines. -/
def holdsLines : QuotedForm → Bool
  | .basic | .literal => false
  | .basicLines | .literalLines => true

def hasEscapes : QuotedForm → Bool
  | .basic | .basicLines => true
  | .literal | .literalLines => false

end QuotedForm

/-- The length of the longest run of a character in a text whose start is preceded by
`run` of them. -/
def longestRunFrom (quote : Char) : Nat → List Char → Nat
  | run, [] => run
  | run, c :: cs =>
      if c = quote then longestRunFrom quote (run + 1) cs
      else max run (longestRunFrom quote 0 cs)

/-- The length of the longest run of a character in a text. -/
def longestRun (quote : Char) (text : List Char) : Nat :=
  longestRunFrom quote 0 text

/-- Whether a character can only be written as an escape: a control character other than
tab and line feed. -/
def needsEscape (c : Char) : Bool :=
  !isPlain c && c != '\n'

/-- The form in which a text is written. -/
def QuotedForm.of (text : List Char) : QuotedForm :=
  let lines := text.contains '\n'
  let control := text.any needsEscape
  let backslash := text.contains '\\'
  let double := longestRun '"' text
  let single := longestRun '\'' text
  if !control && !backslash && double == 0 && !lines then .basic
  else if !control && single == 0 && !lines then .literal
  else if !control && !backslash && double ≤ 2 then .basicLines
  else if !control && single ≤ 2 then .literalLines
  else if lines then .basicLines
  else .basic

/-- A character as an escape. -/
def escaped (c : Char) : List Char :=
  if c = '\x08' then ['\\', 'b']
  else if c = '\t' then ['\\', 't']
  else if c = '\n' then ['\\', 'n']
  else if c = '\x0c' then ['\\', 'f']
  else if c = '\r' then ['\\', 'r']
  else if c = '"' then ['\\', '"']
  else if c = '\\' then ['\\', '\\']
  else '\\' :: 'u' :: Hex.padded .upper 4 c.toNat

/-- Whether a character other than a quote is written as an escape in basic text. -/
def isEscaped (lines : Bool) (c : Char) : Bool :=
  c == '\t' || c == '\\' || needsEscape c || (c == '\n' && !lines)

/-- Basic text with its escapes.  `spare` quotes may still be written as they are; on
several lines that is up to two in a row. -/
def writeEscaped (lines : Bool) : Nat → List Char → List Char
  | _, [] => []
  | spare, c :: cs =>
      let most := if lines then 2 else 0
      if c = '"' then
        if spare = 0 then escaped c ++ writeEscaped lines most cs
        else c :: writeEscaped lines (spare - 1) cs
      else if isEscaped lines c then escaped c ++ writeEscaped lines most cs
      else c :: writeEscaped lines most cs

/-- A text in a form, with its quotes. -/
def QuotedForm.write (form : QuotedForm) (text : List Char) : List Char :=
  let opening := if form.holdsLines && text.contains '\n' then ['\n'] else []
  let body :=
    if form.hasEscapes then
      writeEscaped form.holdsLines (if form.holdsLines then 2 else 0) text
    else
      text
  form.delimiter ++ opening ++ body ++ form.delimiter

/-- A text in its plainest form. -/
def writeQuoted (text : List Char) : List Char :=
  (QuotedForm.of text).write text

end Toml
end GameLink
