import GameLink.Buffer.Scalar
import GameLink.Checksum.Castagnoli
import GameLink.Failure

/-!
# Signatures and digests

A signed buffer ends in the checksum of everything before it.  Verifying takes the
signature off; a buffer that does not verify is left as it is.
-/

namespace GameLink
namespace Buffer

def signatureSize : Nat := 4

/-- Appends the checksum of the contents. -/
def sign (b : Buffer) : Buffer :=
  { b with position := b.length }.writeU32 (Checksum.crc32c b.contents)

/-- The signature at the end of the contents, zero if they are too short. -/
def signature (b : Buffer) : UInt32 :=
  if b.length < signatureSize then
    0
  else
    UInt32.ofNat (Bytes.toNat (b.contents.drop (b.length - signatureSize)))

/-- The contents in front of the signature. -/
def signedPart (b : Buffer) : Bytes :=
  b.contents.take (b.length - signatureSize)

/-- Takes a correct signature off the contents. -/
def verify (b : Buffer) : Except Failure Buffer :=
  if b.length < signatureSize then
    .error (.malformed (.shortSignature b.length))
  else if b.signature ≠ Checksum.crc32c b.signedPart then
    .error (.checksumMismatch b.signature (Checksum.crc32c b.signedPart))
  else
    .ok
      { b with
        length := b.length - signatureSize
        position := min b.position (b.length - signatureSize) }

/-- A short digest of the contents: times 33 plus the octet, modulo `2 ^ 32`. -/
def digest (b : Buffer) : UInt32 :=
  b.contents.foldl (fun d octet => d * 33 + octet.toUInt32) 0

/-- The contents in upper-case hexadecimal. -/
def toHex (b : Buffer) : String :=
  Hex.dump .upper b.contents

def describe (b : Buffer) : String :=
  "WireBuffer \x7b capacity: " ++ toString b.capacity ++ ", position: " ++ toString b.position
    ++ ", length: " ++ toString b.length ++ " \x7d"

end Buffer
end GameLink
