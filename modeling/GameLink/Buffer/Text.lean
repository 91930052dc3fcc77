import GameLink.Buffer.Scalar
import GameLink.Text.Utf8

/-!
# Texts

A text is written as the number of its octets, four octets wide, and the octets
themselves; both are written or neither.  A text whose count passes the end of the
data is read as empty, the count consumed.
-/

namespace GameLink
namespace Buffer

/-- Writes octets with their count in front, all or nothing. -/
def writePrefixed (b : Buffer) (bs : Bytes) : Buffer :=
  if bs.length < UInt32.size then
    b.write (Bytes.ofNat 4 bs.length ++ bs)
  else
    b

/-- Reads octets with their count in front. -/
def readPrefixed (b : Buffer) : Bytes × Buffer :=
  let (count, rest) := b.readNat 4
  if rest.remaining < count then
    ([], rest)
  else
    rest.readBytes count

def writeText (b : Buffer) (s : String) : Buffer :=
  b.writePrefixed (Utf8.encode s)

/-- Reads a text, what is no character replaced. -/
def readText (b : Buffer) : String × Buffer :=
  let (bs, rest) := b.readPrefixed
  (Utf8.decode bs, rest)

/-- Writes a text clamped to ASCII. -/
def writeAscii (b : Buffer) (s : String) : Buffer :=
  b.writePrefixed (Ascii.encode s)

/-- Reads a text clamped to ASCII. -/
def readAscii (b : Buffer) : String × Buffer :=
  let (bs, rest) := b.readPrefixed
  (Ascii.decode bs, rest)

end Buffer
end GameLink
