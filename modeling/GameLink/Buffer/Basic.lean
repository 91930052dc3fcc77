import GameLink.Bytes

/-!
# Bounded buffer

A fixed amount of storage with one cursor for reading and writing, and a high-water
mark of what was written or loaded.

**Bounds.** A write that would pass the end of the storage is dropped; a read that
would pass the high-water mark gives nothing and leaves the cursor where it was.

**Results.** No write changes the capacity (`capacity_write`), a write that does not
fit changes nothing (`write_of_not_fits`), one that fits puts the octets at the cursor
(`storage_write`).
-/

namespace GameLink

/-- Storage, cursor, high-water mark, and the bits that fill no whole octet yet. -/
structure Buffer where
  /-- All octets of the storage, also those past the high-water mark. -/
  storage : Bytes
  /-- The cursor. -/
  position : Nat
  /-- The high-water mark. -/
  length : Nat
  /-- Bits written but not yet stored, the first in the lowest place. -/
  pendingBits : UInt8
  /-- How many bits are written but not yet stored. -/
  pendingCount : Nat
  /-- The octet that bits are being read from. -/
  loadedBits : UInt8
  /-- How many bits of it were read; `0` when a new octet is due. -/
  loadedCount : Nat
deriving DecidableEq

namespace Buffer

/-- The capacity of a buffer that is asked for without one: one datagram. -/
def defaultCapacity : Nat := 1500

/-- A buffer of zeros with nothing written. -/
def empty (capacity : Nat) : Buffer where
  storage := List.replicate capacity 0
  position := 0
  length := 0
  pendingBits := 0
  pendingCount := 0
  loadedBits := 0
  loadedCount := 0

/-- A buffer that holds exactly the given octets, the cursor at their start. -/
def ofBytes (bs : Bytes) : Buffer :=
  { empty 0 with storage := bs, length := bs.length }

/-- How many octets there is room for. -/
def capacity (b : Buffer) : Nat :=
  b.storage.length

/-- The octets written or loaded. -/
def contents (b : Buffer) : Bytes :=
  b.storage.take b.length

/-- How many octets are left to read. -/
def remaining (b : Buffer) : Nat :=
  b.length - b.position

/-- The octets left to read. -/
def unread (b : Buffer) : Bytes :=
  b.contents.drop b.position

/-- The buffer with cursor, mark and bits at their start; the storage stays. -/
def reset (b : Buffer) : Buffer :=
  { empty 0 with storage := b.storage }

/-- The buffer with the cursor moved, at most to the end of the storage. -/
def seek (b : Buffer) (position : Nat) : Buffer :=
  { b with position := min position b.capacity }

/-- The buffer reset and filled with as many of the octets as fit. -/
def load (b : Buffer) (bs : Bytes) : Buffer :=
  let kept := bs.take b.capacity
  { b.reset with
    storage := kept ++ b.storage.drop kept.length
    length := kept.length }

/-- Whether `n` more octets fit behind the cursor. -/
def fits (b : Buffer) (n : Nat) : Bool :=
  b.position + n ≤ b.capacity

/-- Whether `n` octets are left to read. -/
def holds (b : Buffer) (n : Nat) : Bool :=
  b.position + n ≤ b.length

/-- Writes octets at the cursor, all or none of them. -/
def write (b : Buffer) (bs : Bytes) : Buffer :=
  if b.fits bs.length then
    { b with
      storage :=
        b.storage.take b.position ++ bs ++ b.storage.drop (b.position + bs.length)
      position := b.position + bs.length
      length := max b.length (b.position + bs.length) }
  else
    b

/-- The octet string of length `n` at the cursor. -/
def upcoming (b : Buffer) (n : Nat) : Bytes :=
  (b.storage.drop b.position).take n

/-- The buffer with the cursor moved forward. -/
def advance (b : Buffer) (n : Nat) : Buffer :=
  { b with position := b.position + n }

/-- The next `n` octets if so many are left, without moving the cursor. -/
def peek? (b : Buffer) (n : Nat) : Option Bytes :=
  if b.holds n then some (b.upcoming n) else none

/-- Reads `n` octets if so many are left. -/
def read? (b : Buffer) (n : Nat) : Option Bytes × Buffer :=
  if b.holds n then (some (b.upcoming n), b.advance n) else (none, b)

/-- Reads `n` octets, the empty string if fewer are left. -/
def readBytes (n : Nat) (b : Buffer) : Bytes × Buffer :=
  match b.read? n with
  | (some bs, rest) => (bs, rest)
  | (none, rest) => ([], rest)

/-- Reads exactly `n` octets, zeros if fewer are left. -/
def readOctets (n : Nat) (b : Buffer) : Octets n × Buffer :=
  match b.read? n with
  | (some bs, rest) => ((Octets.ofBytes? n bs).getD (Octets.zero n), rest)
  | (none, rest) => (Octets.zero n, rest)

@[simp] theorem capacity_empty (n : Nat) : (empty n).capacity = n := by
  simp [empty, capacity]

@[simp] theorem capacity_seek (b : Buffer) (p : Nat) :
    (b.seek p).capacity = b.capacity := by
  rfl

/-- A write that does not fit changes nothing. -/
theorem write_of_not_fits {b : Buffer} {bs : Bytes}
    (h : b.fits bs.length = false) : b.write bs = b := by
  simp [write, h]

/-- A write that fits replaces the octets at the cursor and no others. -/
theorem storage_write {b : Buffer} {bs : Bytes} (h : b.fits bs.length = true) :
    (b.write bs).storage =
      b.storage.take b.position ++ bs ++ b.storage.drop (b.position + bs.length) := by
  simp [write, h]

@[simp] theorem capacity_write (b : Buffer) (bs : Bytes) :
    (b.write bs).capacity = b.capacity := by
  unfold write
  split
  · rename_i h
    have room : b.position + bs.length ≤ b.storage.length := of_decide_eq_true h
    simp only [capacity, List.length_append, List.length_take, List.length_drop]
    omega
  · rfl

end Buffer
end GameLink
