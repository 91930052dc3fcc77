/-!
# Lengths of time

A duration is a whole number of nanoseconds.  A moment is the duration from the start
of the clock to it.
-/

namespace GameLink

structure Duration where
  nanoseconds : Nat
deriving DecidableEq, Repr

/-- A moment, as the time since the clock was started. -/
abbrev Moment := Duration

namespace Duration

def zero : Duration := ⟨0⟩

def ofMilliseconds (n : Nat) : Duration := ⟨n * 1000000⟩

def ofSeconds (n : Nat) : Duration := ⟨n * 1000000000⟩

def milliseconds (d : Duration) : Nat := d.nanoseconds / 1000000

def seconds (d : Duration) : Nat := d.nanoseconds / 1000000000

instance : LE Duration := ⟨fun a b => a.nanoseconds ≤ b.nanoseconds⟩

instance : LT Duration := ⟨fun a b => a.nanoseconds < b.nanoseconds⟩

instance (a b : Duration) : Decidable (a ≤ b) :=
  inferInstanceAs (Decidable (a.nanoseconds ≤ b.nanoseconds))

instance (a b : Duration) : Decidable (a < b) :=
  inferInstanceAs (Decidable (a.nanoseconds < b.nanoseconds))

instance : Add Duration := ⟨fun a b => ⟨a.nanoseconds + b.nanoseconds⟩⟩

/-- The time from a start to now, zero if the start is still to come. -/
def since (start now : Moment) : Duration :=
  ⟨now.nanoseconds - start.nanoseconds⟩

def longer (a b : Duration) : Duration :=
  ⟨max a.nanoseconds b.nanoseconds⟩

theorem le_iff {a b : Duration} : a ≤ b ↔ a.nanoseconds ≤ b.nanoseconds :=
  Iff.rfl

theorem lt_iff {a b : Duration} : a < b ↔ a.nanoseconds < b.nanoseconds :=
  Iff.rfl

@[simp] theorem milliseconds_ofMilliseconds (n : Nat) :
    (ofMilliseconds n).milliseconds = n := by
  simp [ofMilliseconds, milliseconds]

end Duration
end GameLink
