import GameLink.Checksum.Castagnoli

/-!
# The checksum by slices of sixteen

The Castagnoli checksum from sixteen tables of 256 entries: entry `i` of table `k` is
the register after octet `i` and `k` zero octets.

**Algorithm.** A block of sixteen octets is absorbed at once: the register is added to
its first four octets, octet `j` of the block is looked up in table `15 - j`, and the
sixteen words are added.  Octets after the last whole block go through table `0`.
-/

namespace GameLink
namespace Checksum

/-- The register after one octet, for each octet. -/
def firstTable : Array UInt32 :=
  Array.ofFn (n := 256) fun i => shifts 8 (UInt32.ofNat i.val)

/-- A word of a table, selected by the low octet of a register. -/
def entry (table : Array UInt32) (r : UInt32) : UInt32 :=
  table.getD (r &&& 0xFF).toNat 0

/-- One more zero octet after each entry of a table. -/
def nextTable (table : Array UInt32) : Array UInt32 :=
  table.map fun (r : UInt32) => (r >>> 8) ^^^ entry firstTable r

/-- The table for an octet that `k` further octets follow. -/
def table : Nat → Array UInt32
  | 0 => firstTable
  | k + 1 => nextTable (table k)

/-- The sixteen tables, that of the last octet of a block first. -/
def tables : Array (Array UInt32) :=
  (Array.range 16).map table

/-- The word for octet `b` with `k` octets of its block after it. -/
def slice (k : Nat) (b : UInt8) : UInt32 :=
  entry (tables.getD k #[]) b.toUInt32

/-- The register after one octet, by table. -/
def absorbByTable (r : UInt32) (b : UInt8) : UInt32 :=
  (r >>> 8) ^^^ slice 0 (r ^^^ b.toUInt32).toUInt8

/-- The first octets of a block with the register added to them. -/
def mix (r : UInt32) (block : Bytes) : Bytes :=
  List.zipWith (· ^^^ ·) (Bytes.ofNat 4 r.toNat) block ++ block.drop 4

/-- The sum of the table words of a block's octets. -/
def sliceSum : Bytes → UInt32
  | [] => 0
  | b :: bs => slice bs.length b ^^^ sliceSum bs

/-- The register after a block of sixteen octets. -/
def absorbBlock (r : UInt32) (block : Bytes) : UInt32 :=
  sliceSum (mix r block)

/-- The register after a byte string, sixteen octets at a time. -/
def absorbSliced (r : UInt32) (data : Bytes) : UInt32 :=
  let block := data.take 16
  if block.length = 16 then
    absorbSliced (absorbBlock r block) (data.drop 16)
  else
    data.foldl absorbByTable r
termination_by data.length
decreasing_by simp only [List.length_take, List.length_drop, block] at *; omega

/-- The checksum of a byte string, sixteen octets at a time. -/
def sliced (data : Bytes) : UInt32 :=
  ~~~ absorbSliced initial data

/-- How a checksum is computed. -/
inductive Method
  | bitwise
  | slices

def compute : Method → Bytes → UInt32
  | .bitwise, data => crc32c data
  | .slices, data => sliced data

end Checksum
end GameLink
