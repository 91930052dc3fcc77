/-!
# Replay window

Which sequence numbers of a peer were accepted: the highest one, and a mask of 64
bits whose bit `i` says whether the number `i` below the highest was.  A number 64 or
more below the highest is out of reach and counts as seen.
-/

namespace GameLink

/-- The highest accepted number and the acceptances just below it. -/
structure ReplayWindow where
  highest : UInt64 := 0
  mask : UInt64 := 0
deriving DecidableEq, Repr

namespace ReplayWindow

/-- How many numbers are tracked. -/
def width : UInt64 := 64

/-- Nothing accepted yet. -/
def empty : ReplayWindow := {}

/-- Whether a number was not accepted before and is still within reach. -/
def isFresh (w : ReplayWindow) (seq : UInt64) : Bool :=
  if w.highest < seq then
    true
  else if width ≤ w.highest - seq then
    false
  else
    w.mask &&& (1 <<< (w.highest - seq)) == 0

/-- The window after a number was accepted; a higher one slides it forward. -/
def insert (w : ReplayWindow) (seq : UInt64) : ReplayWindow :=
  if w.highest < seq then
    let kept := if width ≤ seq - w.highest then 0 else w.mask <<< (seq - w.highest)
    { highest := seq, mask := kept ||| 1 }
  else if w.highest - seq < width then
    { w with mask := w.mask ||| (1 <<< (w.highest - seq)) }
  else
    w

/-- Accepts a fresh number and refuses any other. -/
def accept (w : ReplayWindow) (seq : UInt64) : Bool × ReplayWindow :=
  if w.isFresh seq then (true, w.insert seq) else (false, w)

end ReplayWindow
end GameLink
