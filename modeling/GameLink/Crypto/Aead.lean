import GameLink.Crypto.ChaCha20
import GameLink.Crypto.Poly1305

/-!
# Authenticated encryption

ChaCha20 with Poly1305: the text is encrypted from block one on, block zero is the key
of a tag over the associated data, the encrypted text and both lengths.  Opening checks
the tag first.
-/

namespace GameLink
namespace Aead

/-- How many octets sealing adds. -/
def tagSize : Nat := 16

/-- A text has fewer octets than this: the block counter must not come round. -/
def messageLimit : Nat := 64 * (UInt32.size - 1)

/-- Zeros up to the next multiple of sixteen octets. -/
def padding (bs : Bytes) : Bytes :=
  List.replicate ((16 - bs.length % 16) % 16) 0

/-- What the tag is computed over. -/
def authenticated (associated sealed : Bytes) : Bytes :=
  associated ++ padding associated ++ sealed ++ padding sealed
    ++ Bytes.ofNat 8 associated.length ++ Bytes.ofNat 8 sealed.length

def tagOf (key nonce associated encrypted : Bytes) : Bytes :=
  Poly1305.tag ((ChaCha20.block key nonce 0).take 32) (authenticated associated encrypted)

/-- Encrypts a text and appends the tag. -/
def sealText (key nonce associated message : Bytes) : Bytes :=
  let encrypted := ChaCha20.apply key nonce 1 message
  encrypted ++ tagOf key nonce associated encrypted

/-- The text of a sealed text whose tag is right. -/
def openText? (key nonce associated sealed : Bytes) : Option Bytes :=
  if sealed.length < tagSize ∨ messageLimit ≤ sealed.length - tagSize then
    none
  else
    let encrypted := sealed.take (sealed.length - tagSize)
    let given := sealed.drop (sealed.length - tagSize)
    if given = tagOf key nonce associated encrypted then
      some (ChaCha20.apply key nonce 1 encrypted)
    else
      none

end Aead
end GameLink
