import GameLink.Buffer.Vector

/-!
# Positions relative to a quadrant

A position as offsets inside a cell of the world, in quantization steps, together with
the cell.  Each of the five numbers is read for itself.
-/

namespace GameLink

/-- Offsets inside a quadrant, and the quadrant. -/
structure QuadrantPosition where
  x : Int16
  y : Int16
  z : Int16
  column : Int16
  row : Int16
deriving DecidableEq, Repr, Inhabited

namespace QuadrantPosition

def write (p : QuadrantPosition) (b : Buffer) : Buffer :=
  ((((b.writeI16 p.x).writeI16 p.y).writeI16 p.z).writeI16 p.column).writeI16 p.row

def read (b : Buffer) : QuadrantPosition × Buffer :=
  let (x, b) := b.readI16
  let (y, b) := b.readI16
  let (z, b) := b.readI16
  let (column, b) := b.readI16
  let (row, b) := b.readI16
  (⟨x, y, z, column, row⟩, b)

end QuadrantPosition
end GameLink
