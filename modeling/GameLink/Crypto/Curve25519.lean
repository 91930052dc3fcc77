import GameLink.Bytes

/-!
# Key agreement on Curve25519

The Diffie-Hellman function of the Montgomery curve `y² = x³ + 486662 x² + x` over the
integers modulo `2 ^ 255 - 19`, on first coordinates only.

**Algorithm.** A scalar is clamped and read bit by bit from the top; two multiples of the
point that differ by the point itself are kept in projective form.
-/

namespace GameLink
namespace Curve25519

def prime : Nat := (1 <<< 255) - 19

/-- The first coordinate of the base point. -/
def basePoint : Nat := 9

def mul (a b : Nat) : Nat :=
  a * b % prime

def add (a b : Nat) : Nat :=
  (a + b) % prime

def sub (a b : Nat) : Nat :=
  (a + (prime - b % prime)) % prime

/-- The bits of a number, the highest of `n` first. -/
def bitsFrom (value : Nat) : Nat → List Bool
  | 0 => []
  | n + 1 => value.testBit n :: bitsFrom value n

def power (base exponent : Nat) : Nat :=
  (bitsFrom exponent 255).foldl
    (fun acc bit => if bit then mul (mul acc acc) base else mul acc acc) 1

/-- The inverse of a field element, zero for zero. -/
def inverse (a : Nat) : Nat :=
  power a (prime - 2)

/-- A first coordinate in projective form. -/
structure Projective where
  x : Nat
  z : Nat

/-- The double of a multiple. -/
def double (p : Projective) : Projective :=
  let s := mul (add p.x p.z) (add p.x p.z)
  let d := mul (sub p.x p.z) (sub p.x p.z)
  let e := sub s d
  ⟨mul s d, mul e (add s (mul 121665 e))⟩

/-- The sum of two multiples whose difference has first coordinate `u`. -/
def differentialAdd (u : Nat) (p q : Projective) : Projective :=
  let da := mul (sub q.x q.z) (add p.x p.z)
  let cb := mul (add q.x q.z) (sub p.x p.z)
  ⟨mul (add da cb) (add da cb), mul u (mul (sub da cb) (sub da cb))⟩

/-- One bit of a scalar: the lower multiple is doubled or takes the sum. -/
def ladderStep (u : Nat) (pair : Projective × Projective) (bit : Bool) :
    Projective × Projective :=
  let sum := differentialAdd u pair.1 pair.2
  if bit then (sum, double pair.2) else (double pair.1, sum)

/-- The multiple of a point by a scalar of 255 bits. -/
def multiply (scalar u : Nat) : Nat :=
  let u := u % prime
  let (p, _) := (bitsFrom scalar 255).foldl (ladderStep u) (⟨1, 0⟩, ⟨u, 1⟩)
  mul p.x (inverse p.z)

/-- A private key as a scalar: a multiple of eight with bit 254 set. -/
def clamp (key : Octets 32) : Nat :=
  let n := key.toNat % (1 <<< 254)
  (1 <<< 254) + (n - n % 8)

/-- The multiple of a point by a private key; the highest bit of the point is ignored. -/
def agree (privateKey point : Octets 32) : Octets 32 :=
  Octets.ofNat 32 (multiply (clamp privateKey) (point.toNat % (1 <<< 255)))

/-- The public key of a private key. -/
def publicKey (privateKey : Octets 32) : Octets 32 :=
  agree privateKey (Octets.ofNat 32 basePoint)

end Curve25519
end GameLink
