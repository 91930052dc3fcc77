import GameLink.Block.Matching
import GameLink.Failure

/-!
# Compressing a block

The written form of a block's factors, given up as soon as it may not fit a capacity.

**Bounds.** Before a factor there must be room for its token, its literals and eight
octets more; after it for five more; at the end for the last literals, one octet per
255 of them and two more.  A block is only worth its compressed form if that is
strictly shorter.
-/

namespace GameLink
namespace Block

/-- The largest compressed form of a block of `length` octets. -/
def maxSize (length : Nat) : Nat :=
  length + length / 255 + 16

/-- The largest compressed form, if that is a 64-bit number. -/
def maxSize? (length : Nat) : Except Failure Nat :=
  if maxSize length < UInt64.size then .ok (maxSize length) else .error .exhausted

/-- Appends the written forms of factors while they fit. -/
def emit (capacity : Nat) (out : Array UInt8) : List Factor → Option (Array UInt8)
  | [] => some out
  | f :: fs =>
      if capacity < out.size + 1 + f.literals.length + 8 then
        none
      else
        let out := out ++ f.encode
        if capacity < out.size + 5 then none else emit capacity out fs

/-- Appends the written form of the last literals if they fit. -/
def emitTail (capacity : Nat) (out : Array UInt8) (tail : Bytes) : Option Bytes :=
  if capacity < out.size + tail.length + tail.length / 255 + 2 then
    none
  else
    some (out ++ encodeTail tail).toList

/-- The compressed form of a block, if it surely fits a capacity. -/
def compressBounded (src : Bytes) (capacity : Nat) : Option Bytes :=
  let f := factorsOf src
  (emit capacity #[] f.factors).bind fun out => emitTail capacity out f.tail

/-- The compressed form of a block, if it is shorter than the block. -/
def compress (src : Bytes) : Option Bytes :=
  (compressBounded src (maxSize src.length)).filter fun out => out.length < src.length

end Block
end GameLink
