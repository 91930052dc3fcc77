import GameLink.Bytes

/-!
# Factors of a block

A block as literals and copies of earlier octets, what the factors stand for, and
their written form.

**Layout.** Each factor starts with a token: the literal count in its high half, the
copy length less four in its low half.  A half of fifteen is continued by octets that
are added up, the last of them below 255.  Then come the literals, the distance of the
copy (2, little-endian) and the continuation of its length.  The written form ends
with a token for the last literals.
-/

namespace GameLink
namespace Block

/-- The length of the shortest copy. -/
def minCopy : Nat := 4

/-- Literals, and a copy of octets some distance back. -/
structure Factor where
  literals : Bytes
  distance : Nat
  length : Nat
deriving DecidableEq, Repr

/-- The factors of a block and the literals after them. -/
structure Factors where
  factors : List Factor
  tail : Bytes
deriving DecidableEq, Repr

/-- Appends `n` octets, each the one `distance` back; copies may overlap themselves. -/
def copyBack (distance : Nat) : Nat → Array UInt8 → Array UInt8
  | 0, out => out
  | n + 1, out => copyBack distance n (out.push (out.getD (out.size - distance) 0))

/-- The output after a factor; a copy must start inside the output. -/
def Factor.apply? (out : Array UInt8) (f : Factor) : Option (Array UInt8) :=
  let out := out ++ f.literals
  if 0 < f.distance ∧ f.distance ≤ out.size then
    some (copyBack f.distance f.length out)
  else
    none

/-- A number as octets to be added up, the last below 255. -/
def continuation (n : Nat) : Bytes :=
  if n < 255 then [UInt8.ofNat n] else 255 :: continuation (n - 255)

/-- The half of a token that stands for a number. -/
def half (n : Nat) : Nat :=
  min n 15

/-- The octets that continue a full half. -/
def overflow (n : Nat) : Bytes :=
  if n < 15 then [] else continuation (n - 15)

/-- The token for a literal count and a copy length. -/
def token (literals copy : Nat) : UInt8 :=
  UInt8.ofNat (half literals * 16 + half copy)

def Factor.encode (f : Factor) : Bytes :=
  let literals := f.literals.length
  let copy := f.length - minCopy
  token literals copy :: (overflow literals ++ f.literals ++ Bytes.ofNat 2 f.distance ++ overflow copy)

/-- The written form of the last literals. -/
def encodeTail (tail : Bytes) : Bytes :=
  token tail.length 0 :: (overflow tail.length ++ tail)

/-- The written form of a block's factors. -/
def Factors.encode (f : Factors) : Bytes :=
  f.factors.flatMap Factor.encode ++ encodeTail f.tail

@[simp] theorem size_copyBack (distance n : Nat) (out : Array UInt8) :
    (copyBack distance n out).size = out.size + n := by
  induction n generalizing out with
  | zero => rfl
  | succ n ih => simp [copyBack, ih]; omega

end Block
end GameLink
