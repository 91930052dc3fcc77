import GameLink.Bytes

/-!
# ChaCha20

The stream cipher: a key of 32 octets, a nonce of 12 and a block counter give blocks
of 64 octets that are added to the text.
-/

namespace GameLink
namespace ChaCha20

def rotateLeft (x : UInt32) (n : UInt32) : UInt32 :=
  (x <<< n) ||| (x >>> (32 - n))

def quarterRound (a b c d : UInt32) : UInt32 × UInt32 × UInt32 × UInt32 :=
  let a := a + b
  let d := rotateLeft (d ^^^ a) 16
  let c := c + d
  let b := rotateLeft (b ^^^ c) 12
  let a := a + b
  let d := rotateLeft (d ^^^ a) 8
  let c := c + d
  let b := rotateLeft (b ^^^ c) 7
  (a, b, c, d)

/-- A quarter round on four words of the state. -/
def mixAt (s : Array UInt32) (i j k l : Nat) : Array UInt32 :=
  let (a, b, c, d) := quarterRound (s.getD i 0) (s.getD j 0) (s.getD k 0) (s.getD l 0)
  (((s.setIfInBounds i a).setIfInBounds j b).setIfInBounds k c).setIfInBounds l d

/-- Four columns, then four diagonals. -/
def doubleRound (s : Array UInt32) : Array UInt32 :=
  let s := mixAt (mixAt (mixAt (mixAt s 0 4 8 12) 1 5 9 13) 2 6 10 14) 3 7 11 15
  mixAt (mixAt (mixAt (mixAt s 0 5 10 15) 1 6 11 12) 2 7 8 13) 3 4 9 14

/-- The words of a byte string, each of four octets, the lowest first. -/
def wordsOf (bs : Bytes) : List UInt32 :=
  (Bytes.pieces 4 bs).map fun piece => UInt32.ofNat (Bytes.toNat piece)

/-- The state before mixing: constants, key, counter, nonce. -/
def start (key nonce : Bytes) (counter : Nat) : Array UInt32 :=
  ([0x61707865, 0x3320646e, 0x79622d32, 0x6b206574] ++ wordsOf key
    ++ [UInt32.ofNat counter] ++ wordsOf nonce).toArray

def block (key nonce : Bytes) (counter : Nat) : Bytes :=
  let s := start key nonce counter
  let mixed := Nat.repeat doubleRound 10 s
  (s.zipWith (· + ·) mixed).toList.flatMap fun w => Bytes.ofNat 4 w.toNat

/-- The text added to the key stream, from a block counter on. -/
def apply (key nonce : Bytes) (counter : Nat) (message : Bytes) : Bytes :=
  ((Bytes.pieces 64 message).zipIdx counter).flatMap fun (piece, i) =>
    List.zipWith (· ^^^ ·) piece (block key nonce i)

end ChaCha20
end GameLink
