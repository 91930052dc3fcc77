import GameLink.Block.Factors

/-!
# Finding copies

The greedy search that turns a block into factors.

**Algorithm.** A table of 65536 buckets keeps, for each hash of four octets, the
position where they were last looked up.  At each position the four octets there are
compared with those at the position in their bucket; if they are equal and near enough,
the copy is taken at its full length, found four octets at a time and then one by one, and
the search goes on after it.  The search ends four octets before the end of the block.
-/

namespace GameLink
namespace Block

/-- How many positions the table keeps. -/
def bucketCount : Nat := 65536

/-- A copy must be nearer than this. -/
def reach : Nat := 65535

/-- The octet at a position, zero past the end. -/
def octetAt (src : Array UInt8) (i : Nat) : UInt8 :=
  src.getD i 0

/-- The four octets at a position as one word, the first lowest. -/
def wordAt (src : Array UInt8) (i : Nat) : UInt32 :=
  (octetAt src i).toUInt32 ||| (octetAt src (i + 1)).toUInt32 <<< 8
    ||| (octetAt src (i + 2)).toUInt32 <<< 16 ||| (octetAt src (i + 3)).toUInt32 <<< 24

/-- The bucket of four octets: the high half of a multiplicative hash. -/
def bucket (word : UInt32) : Nat :=
  ((word * 2654435761) >>> 16).toNat

/-- How far the octets from `i` and from `j` agree, on top of `n` that do. -/
def agreement (src : Array UInt8) (i j n : Nat) : Nat :=
  if j < src.size ∧ octetAt src i = octetAt src j then
    agreement src (i + 1) (j + 1) (n + 1)
  else
    n
termination_by src.size - j

theorem le_agreement (src : Array UInt8) (i j n : Nat) :
    n ≤ agreement src i j n := by
  fun_induction agreement src i j n with
  | case1 => omega
  | case2 => omega

/-- The same distance, compared four octets at a time as far as words agree. -/
def agreementByWords (src : Array UInt8) (i j n : Nat) : Nat :=
  if j + minCopy < src.size ∧ wordAt src j = wordAt src i then
    agreementByWords src (i + minCopy) (j + minCopy) (n + minCopy)
  else
    agreement src i j n
termination_by src.size - j
decreasing_by simp only [minCopy] at *; omega

theorem le_agreementByWords (src : Array UInt8) (i j n : Nat) :
    n ≤ agreementByWords src i j n := by
  fun_induction agreementByWords src i j n with
  | case1 => omega
  | case2 i j n => exact le_agreement src i j n

/--
The factors found from position `i` on, where the octets from `anchor` up to `i` are
literals not yet part of a factor; with them the position of the last literals.
-/
def search (src : Array UInt8) (table : Array UInt32) (found : Array Factor)
    (anchor i : Nat) : Array Factor × Nat :=
  if i + minCopy < src.size then
    let word := wordAt src i
    let candidate := (table.getD (bucket word) 0).toNat
    let table := table.setIfInBounds (bucket word) (UInt32.ofNat i)
    if candidate < i ∧ i - candidate < reach ∧ wordAt src candidate = word then
      let length := agreementByWords src (candidate + minCopy) (i + minCopy) minCopy
      let factor : Factor :=
        { literals := (src.extract anchor i).toList
          distance := i - candidate
          length }
      search src table (found.push factor) (i + length) (i + length)
    else
      search src table found anchor (i + 1)
  else
    (found, anchor)
termination_by src.size - i
decreasing_by
  · have inside : i < src.size := by simp only [minCopy] at *; omega
    exact Nat.sub_lt_sub_left inside
      (Nat.lt_add_of_pos_right (Nat.lt_of_lt_of_le (by decide) (le_agreementByWords ..)))
  · omega

def factorsOf (src : Bytes) : Factors :=
  let octets := src.toArray
  let (found, anchor) := search octets (Array.replicate bucketCount 0) #[] 0 0
  { factors := found.toList, tail := (octets.extract anchor octets.size).toList }

end Block
end GameLink
