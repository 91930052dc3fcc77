import GameLink.Buffer.Basic

/-!
# Numbers of a variable width

Base-128 numerals: seven bits to an octet, the least significant group first, the top
bit set on every octet but the last.  Signed numbers are folded so that small
magnitudes stay small.

**Results.** A numeral is never empty (`encode_ne_nil`).
-/

namespace GameLink

namespace Varint

/-- The base-128 numeral of a number. -/
def encode (n : Nat) : Bytes :=
  if n < 128 then
    [UInt8.ofNat n]
  else
    UInt8.ofNat (n % 128 + 128) :: encode (n / 128)

theorem encode_ne_nil (n : Nat) : encode n ≠ [] := by
  unfold encode
  split <;> simp

/-- Folds a signed number: sign in the lowest bit, magnitude above. -/
def fold32 (v : Int32) : UInt32 :=
  ((v <<< 1) ^^^ (v >>> 31)).toUInt32

/-- Undoes `fold32`. -/
def unfold32 (v : UInt32) : Int32 :=
  (v >>> 1).toInt32 ^^^ -(v &&& 1).toInt32

/-- Folds a signed number: sign in the lowest bit, magnitude above. -/
def fold64 (v : Int64) : UInt64 :=
  ((v <<< 1) ^^^ (v >>> 63)).toUInt64

/-- Undoes `fold64`. -/
def unfold64 (v : UInt64) : Int64 :=
  (v >>> 1).toInt64 ^^^ -(v &&& 1).toInt64

/-- The octet limit of a 32-bit number. -/
def limit32 : Nat := 5

/-- The octet limit of a 64-bit number. -/
def limit64 : Nat := 10

end Varint

namespace Buffer

/-- Writes a base-128 numeral, all of it or nothing. -/
def writeVarNat (b : Buffer) (n : Nat) : Buffer :=
  b.write (Varint.encode n)

/--
Reads a base-128 numeral of at most `limit` more octets, on top of the groups read so
far.  A numeral that the data cut short is zero and leaves the cursor at the end of
the data; one that goes on past the limit is zero.
-/
def readVarNatFrom (value place : Nat) : Nat → Buffer → Nat × Buffer
  | 0, b => (0, b)
  | limit + 1, b =>
      if b.position < b.length then
        let octet := (b.storage.getD b.position 0).toNat
        let value := value + (octet % 128) <<< (7 * place)
        if octet < 128 then
          (value, b.advance 1)
        else
          readVarNatFrom value (place + 1) limit (b.advance 1)
      else
        (0, { b with position := b.length })

/-- Reads a base-128 numeral of at most `limit` octets. -/
def readVarNat (limit : Nat) (b : Buffer) : Nat × Buffer :=
  readVarNatFrom 0 0 limit b

section Kinds

variable (b : Buffer)

def writeVarint (v : Int32) : Buffer :=
  b.writeVarNat (Varint.fold32 v).toNat

def writeVarlong (v : Int64) : Buffer :=
  b.writeVarNat (Varint.fold64 v).toNat

def writeVaruint (v : UInt32) : Buffer :=
  b.writeVarNat v.toNat

def writeVarulong (v : UInt64) : Buffer :=
  b.writeVarNat v.toNat

/-- Reads a 32-bit number; groups above its width are dropped. -/
def readVaruint : UInt32 × Buffer :=
  let (n, rest) := b.readVarNat Varint.limit32
  (UInt32.ofNat n, rest)

/-- Reads a 64-bit number; groups above its width are dropped. -/
def readVarulong : UInt64 × Buffer :=
  let (n, rest) := b.readVarNat Varint.limit64
  (UInt64.ofNat n, rest)

def readVarint : Int32 × Buffer :=
  let (v, rest) := b.readVaruint
  (Varint.unfold32 v, rest)

def readVarlong : Int64 × Buffer :=
  let (v, rest) := b.readVarulong
  (Varint.unfold64 v, rest)

end Kinds
end Buffer
end GameLink
