import GameLink.Bytes

/-!
# Entropy

A source of random octets as a value: an endless stream and how much of it was drawn.
Drawing is the only way to use it, so what is random in a run is explicit in its
state.
-/

namespace GameLink

/-- An endless stream of octets and how many were drawn. -/
structure Entropy where
  stream : Nat → UInt8
  drawn : Nat

namespace Entropy

/-- The stream that repeats a byte string for ever; zeros for the empty string. -/
def cyclic (bs : Bytes) : Entropy :=
  let octets := bs.toArray
  { stream := fun i => octets.getD (i % octets.size) 0, drawn := 0 }

/-- Draws the next `n` octets. -/
def draw (n : Nat) (e : Entropy) : Octets n × Entropy :=
  ( ⟨(List.range n).map fun i => e.stream (e.drawn + i), by simp⟩,
    { e with drawn := e.drawn + n } )

end Entropy
end GameLink
