import GameLink.Buffer.Basic

/-!
# Buffer pool

Buffers of one capacity that are used again and again.  A released buffer lies on a
stack of the releasing thread; merging moves that stack onto the shared one.  Two
counters tell how many buffers the pool made and how many lie on its stacks.

**Algorithm.** Taking a buffer looks at the thread's stack, then at the shared one,
and makes a new buffer if both are empty.  A buffer is reset when it is released; its
storage is not erased.
-/

namespace GameLink

/-- A thread that uses pools. -/
abbrev Thread := Nat

/-- Stacks of buffers, the top first, and the counters. -/
structure Pool where
  bufferCapacity : Nat
  shared : List Buffer
  /-- The stack of each thread that has one. -/
  byThread : List (Thread × List Buffer)
  /-- Buffers made and not freed; wraps around below zero. -/
  created : UInt64
  /-- Buffers on the stacks; wraps around below zero. -/
  pooled : UInt64

namespace Pool

def empty (bufferCapacity : Nat) : Pool where
  bufferCapacity := bufferCapacity
  shared := []
  byThread := []
  created := 0
  pooled := 0

def stack (p : Pool) (t : Thread) : List Buffer :=
  (p.byThread.lookup t).getD []

/-- The pool with another stack for a thread. -/
def setStack (p : Pool) (t : Thread) (buffers : List Buffer) : Pool :=
  { p with byThread := (t, buffers) :: p.byThread.filter fun entry => entry.1 != t }

/-- Takes a buffer. -/
def acquire (p : Pool) (t : Thread) : Buffer × Pool :=
  match p.stack t, p.shared with
  | b :: rest, _ => (b, { p.setStack t rest with pooled := p.pooled - 1 })
  | [], b :: rest => (b, { p with shared := rest, pooled := p.pooled - 1 })
  | [], [] => (Buffer.empty p.bufferCapacity, { p with created := p.created + 1 })

/-- Gives a buffer back; one of another capacity is dropped. -/
def release (p : Pool) (t : Thread) (b : Buffer) : Pool :=
  if b.capacity = p.bufferCapacity then
    { p.setStack t (b.reset :: p.stack t) with pooled := p.pooled + 1 }
  else
    p

/-- Moves the stack of a thread onto the shared one. -/
def merge (p : Pool) (t : Thread) : Pool :=
  { p.setStack t [] with shared := p.stack t ++ p.shared }

/-- Makes `count` buffers and moves them, with the thread's own, onto the shared stack. -/
def preallocate (p : Pool) (t : Thread) (count : Nat) : Pool :=
  let fresh := List.replicate count (Buffer.empty p.bufferCapacity)
  let filled :=
    { p.setStack t (fresh ++ p.stack t) with
      created := p.created + UInt64.ofNat count
      pooled := p.pooled + UInt64.ofNat count }
  filled.merge t

/-- Frees shared buffers from the top until at most `keep` are pooled. -/
def freeDownTo (keep : Nat) (p : Pool) : List Buffer → Pool
  | [] => { p with shared := [] }
  | b :: rest =>
      if keep < p.pooled.toNat then
        freeDownTo keep { p with created := p.created - 1, pooled := p.pooled - 1 } rest
      else
        { p with shared := b :: rest }

/-- Merges, then frees shared buffers until at most `keep` are pooled. -/
def trim (p : Pool) (t : Thread) (keep : Nat) : Pool :=
  let merged := p.merge t
  freeDownTo keep merged merged.shared

/-- Frees all shared buffers and tells how many there were. -/
def clear (p : Pool) : Nat × Pool :=
  let freed := UInt64.ofNat p.shared.length
  ( p.shared.length,
    { p with shared := [], created := p.created - freed, pooled := p.pooled - freed } )

/-- The pool after a thread ended: its stack is gone, the counters stay. -/
def endThread (p : Pool) (t : Thread) : Pool :=
  { p with byThread := p.byThread.filter fun entry => entry.1 != t }

def describe (p : Pool) : String :=
  "BufferPool \x7b buffer_capacity: " ++ toString p.bufferCapacity
    ++ ", stats: PoolStats \x7b created: " ++ toString p.created.toNat
    ++ ", pooled: " ++ toString p.pooled.toNat ++ " \x7d \x7d"

@[simp] theorem bufferCapacity_setStack (p : Pool) (t : Thread) (bs : List Buffer) :
    (p.setStack t bs).bufferCapacity = p.bufferCapacity := by
  rfl

/-- The stack of a thread is what was last set for it. -/
@[simp] theorem stack_setStack (p : Pool) (t : Thread) (bs : List Buffer) :
    (p.setStack t bs).stack t = bs := by
  simp [setStack, stack]

end Pool
end GameLink
