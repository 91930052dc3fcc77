import GameLink.Crypto.Sha256

/-!
# Key derivation

Keyed hashing and the two-step derivation of key material from a shared secret: a salt
extracts a pseudorandom key, a label expands it.
-/

namespace GameLink
namespace Hkdf

/-- A key filled up with zeros to one block, hashed first if it is longer. -/
def blockKey (key : Bytes) : Bytes :=
  let short := if 64 < key.length then Sha256.hash key else key
  short ++ List.replicate (64 - short.length) 0

def mac (key message : Bytes) : Bytes :=
  let inner := (blockKey key).map (· ^^^ 0x36)
  let outer := (blockKey key).map (· ^^^ 0x5c)
  Sha256.hash (outer ++ Sha256.hash (inner ++ message))

/-- The pseudorandom key of some input material. -/
def extract (salt material : Bytes) : Bytes :=
  mac salt material

/-- `count` output blocks after a previous one, numbered from `index`. -/
def expandFrom (key label previous : Bytes) (index : UInt8) : Nat → Bytes
  | 0 => []
  | count + 1 =>
      let block := mac key (previous ++ label ++ [index])
      block ++ expandFrom key label block (index + 1) count

/-- Sixty-four octets of key material for a label. -/
def expand64 (key label : Bytes) : Bytes :=
  expandFrom key label [] 1 2

@[simp] theorem length_mac (key message : Bytes) : (mac key message).length = 32 := by
  simp [mac]

@[simp] theorem length_expand64 (key label : Bytes) :
    (expand64 key label).length = 64 := by
  simp [expand64, expandFrom]

end Hkdf
end GameLink
