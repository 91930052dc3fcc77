import GameLink.Buffer.Item
import GameLink.Buffer.Signature

/-!
# Operations as data

Every public operation on a buffer as a value, so that runs of a buffer are lists.

**Faults.** A read whose end has no 64-bit address is refused with `exhausted`; no
other operation can fail.
-/

namespace GameLink
namespace Buffer

inductive Operation
  | write (item : Item)
  | read (kind : Kind)
  | readOctets (count : Nat)
  | peek (kind : ScalarKind)
  | align
  | sign
  | signature
  | verify
  | digest
  | hex
  | seek (position : Nat)
  | reset
  | load (bytes : Bytes)
  | remaining
  | isEmpty
  | unread
  | contents
  | copy
  | describe

inductive Answer
  | nothing
  | item (item : Item)
  | bytes (bytes : Bytes)
  | number (n : Nat)
  | flag (v : Bool)
  | text (s : String)
  | verified (failure : Option Failure)

def run (b : Buffer) : Operation → Except Failure (Answer × Buffer)
  | .write item => .ok (.nothing, item.write b)
  | .read (.bytes count) =>
      if UInt64.size ≤ b.position + count then
        .error .exhausted
      else
        let (item, rest) := Kind.read b (.bytes count)
        .ok (.item item, rest)
  | .read kind =>
      let (item, rest) := kind.read b
      .ok (.item item, rest)
  | .readOctets count =>
      let (octets, rest) := b.readOctets count
      .ok (.bytes octets.bytes, rest)
  | .peek kind => .ok (.item (.scalar (b.peekScalar kind)), b)
  | .align => .ok (.nothing, b.align)
  | .sign => .ok (.nothing, b.sign)
  | .signature => .ok (.number b.signature.toNat, b)
  | .verify =>
      match b.verify with
      | .ok rest => .ok (.verified none, rest)
      | .error failure => .ok (.verified (some failure), b)
  | .digest => .ok (.number b.digest.toNat, b)
  | .hex => .ok (.text b.toHex, b)
  | .seek position => .ok (.nothing, b.seek position)
  | .reset => .ok (.nothing, b.reset)
  | .load bytes => .ok (.nothing, b.load bytes)
  | .remaining => .ok (.number b.remaining, b)
  | .isEmpty => .ok (.flag (b.length == 0), b)
  | .unread => .ok (.bytes b.unread, b)
  | .contents => .ok (.bytes b.contents, b)
  | .copy => .ok (.nothing, b)
  | .describe => .ok (.text b.describe, b)

end Buffer
end GameLink
