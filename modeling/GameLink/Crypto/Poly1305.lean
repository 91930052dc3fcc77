import GameLink.Bytes

/-!
# Poly1305

The one-time authenticator: a message is a polynomial over the integers modulo
`2 ^ 130 - 5`, evaluated at the clamped first half of the key and shifted by the
second half.
-/

namespace GameLink
namespace Poly1305

def prime : Nat := (1 <<< 130) - 5

/-- Clears the bits of a multiplier that the scheme keeps zero. -/
def clamp (r : Nat) : Nat :=
  r &&& 0x0ffffffc0ffffffc0ffffffc0fffffff

/-- The coefficient of a piece: its octets with a one octet behind them. -/
def coefficient (piece : Bytes) : Nat :=
  Bytes.toNat piece + 1 <<< (8 * piece.length)

/-- The polynomial of a message at a point. -/
def evaluate (r : Nat) (message : Bytes) : Nat :=
  (Bytes.pieces 16 message).foldl (fun acc piece => (acc + coefficient piece) * r % prime) 0

/-- The tag of a message under a one-time key of 32 octets. -/
def tag (key message : Bytes) : Bytes :=
  let r := clamp (Bytes.toNat (key.take 16))
  let s := Bytes.toNat (key.drop 16)
  Bytes.ofNat 16 (evaluate r message + s)

@[simp] theorem length_tag (key message : Bytes) : (tag key message).length = 16 := by
  simp [tag]

end Poly1305
end GameLink
