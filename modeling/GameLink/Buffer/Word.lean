import GameLink.Buffer.Varint

/-!
# Numerals in words

Base-128 numerals as they are made and read in words of 64 bits: a group is what a mask leaves
of an octet, shifted to its place and joined to the groups in front of it.  Bits that are shifted
past the end of the word are lost.
-/

namespace GameLink

namespace Varint

theorem toNat_shiftRight (v : UInt64) : (v >>> 7).toNat = v.toNat / 128 :=
  (UInt64.toNat_shiftRight ..).trans (Nat.shiftRight_eq_div_pow _ _)

/-- The base-128 numeral of a word. -/
def ofWord (v : UInt64) : Bytes :=
  if v < 0x80 then
    [v.toUInt8]
  else
    (v.toUInt8 ||| 0x80) :: ofWord (v >>> 7)
termination_by v.toNat
decreasing_by
  rename_i hlarge
  have hlow : 128 ≤ v.toNat :=
    Nat.not_lt.mp fun hsmall => hlarge (UInt64.lt_iff_toNat_lt.mpr hsmall)
  rw [toNat_shiftRight]
  omega

end Varint

namespace Buffer

/-- Writes the numeral of a word, all of it or nothing. -/
def writeWord (b : Buffer) (v : UInt64) : Buffer :=
  b.write (Varint.ofWord v)

/-- Reads a numeral of at most `limit` more octets into a word that holds the groups read so far.
What is cut short, or goes on past the limit, is zero. -/
def readWordFrom (value : UInt64) (place : Nat) : Nat → Buffer → UInt64 × Buffer
  | 0, b => (0, b)
  | limit + 1, b =>
      if b.position < b.length then
        let octet := b.storage.getD b.position 0
        let value := value ||| (octet &&& 0x7F).toUInt64 <<< UInt64.ofNat (7 * place)
        if octet &&& 0x80 = 0 then
          (value, b.advance 1)
        else
          readWordFrom value (place + 1) limit (b.advance 1)
      else
        (0, { b with position := b.length })

/-- Reads a numeral of at most `limit` octets into a word. -/
def readWord (limit : Nat) (b : Buffer) : UInt64 × Buffer :=
  readWordFrom 0 0 limit b

end Buffer
end GameLink
