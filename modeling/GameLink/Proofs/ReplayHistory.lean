import GameLink.Proofs.ReplayWindow
import Mathlib.Data.List.Nodup
import Mathlib.Order.Bounds.Basic

/-!
# Histories of a replay window

A window is an implementation of a set: the set of the numbers recorded in it since it
was last reset.  A number is recorded if it is inserted, or if it is accepted.

**Results.**
* `WindowHistory.Faithful.run`: over any calls, the window records that set, and no
  number is accepted that was recorded before.
* `window_represents_recorded`: highest number, mask and answers in terms of the set;
  windows with the same set are the same.
-/

namespace GameLink

/-- A call on a window. -/
inductive WindowCall
  | insert (seq : UInt64)
  | accept (seq : UInt64)
  | reset
deriving DecidableEq, Repr

/-- A window with the numbers recorded in it and those of them that it accepted, both since
the last reset. -/
structure WindowHistory where
  window : ReplayWindow := .empty
  recorded : List UInt64 := []
  accepted : List UInt64 := []

namespace WindowHistory

def step (x : WindowHistory) : WindowCall → WindowHistory
  | .insert seq =>
      { x with window := x.window.insert seq, recorded := x.recorded ++ [seq] }
  | .accept seq =>
      match x.window.accept seq with
      | (true, next) =>
          { window := next
            recorded := x.recorded ++ [seq]
            accepted := x.accepted ++ [seq] }
      | (false, next) => { x with window := next }
  | .reset => {}

/-- Calls one after the other. -/
def run (x : WindowHistory) (calls : List WindowCall) : WindowHistory :=
  calls.foldl step x

/-- The set of the numbers recorded. -/
def seen (x : WindowHistory) : Set UInt64 :=
  {seq | seq ∈ x.recorded}

variable {x : WindowHistory}

theorem seen_append
    (window : ReplayWindow) (recorded accepted : List UInt64) (seq : UInt64) :
    seen ⟨window, recorded ++ [seq], accepted⟩ = insert seq {s | s ∈ recorded} := by
  ext other
  simp [seen, or_comm]

theorem step_accept_of_fresh
    {seq : UInt64} (h : x.window.isFresh seq = true) :
    x.step (.accept seq) =
      ⟨x.window.insert seq, x.recorded ++ [seq], x.accepted ++ [seq]⟩ := by
  simp only [step, ReplayWindow.accept, h, if_true]

theorem step_accept_of_not_fresh
    {seq : UInt64} (h : x.window.isFresh seq = false) :
    x.step (.accept seq) = x := by
  simp only [step, ReplayWindow.accept, h, Bool.false_eq_true, if_false]

/-- What holds of a history at all times. -/
structure Faithful (x : WindowHistory) : Prop where
  records : x.window.Records x.seen
  accepted_subset : ∀ seq ∈ x.accepted, seq ∈ x.recorded
  accepted_nodup : x.accepted.Nodup

namespace Faithful

theorem start : Faithful {} where
  records := by
    have hset : seen {} = ∅ := by simp [seen]
    rw [hset]
    exact ReplayWindow.records_empty
  accepted_subset := by simp
  accepted_nodup := List.nodup_nil

theorem step
    (h : x.Faithful) (call : WindowCall) :
    (x.step call).Faithful := by
  cases call with
  | insert seq =>
      refine ⟨?_, ?_, h.accepted_nodup⟩
      · simp only [WindowHistory.step, seen_append]
        exact h.records.insert seq
      · intro other hother
        exact List.mem_append_left _ (h.accepted_subset other hother)
  | accept seq =>
      cases hfresh : x.window.isFresh seq with
      | false =>
          rw [step_accept_of_not_fresh hfresh]
          exact h
      | true =>
          rw [step_accept_of_fresh hfresh]
          have hnew : seq ∉ x.recorded := ((h.records.isFresh_iff seq).mp hfresh).1
          refine ⟨?_, ?_, ?_⟩
          · simp only [seen_append]
            exact h.records.insert seq
          · intro other hother
            rcases List.mem_append.mp hother with hold | hlast
            · exact List.mem_append_left _ (h.accepted_subset other hold)
            · exact List.mem_append_right _ hlast
          · -- The number was not recorded, so it was not accepted either.
            have hapart : seq ∉ x.accepted := fun hmem => hnew (h.accepted_subset seq hmem)
            have hnodup := h.accepted_nodup.concat hapart
            rwa [List.concat_eq_append] at hnodup
  | reset => exact start

/-- Any calls leave a history faithful. -/
theorem run
    (h : x.Faithful) (calls : List WindowCall) :
    (x.run calls).Faithful := by
  induction calls generalizing x with
  | nil => exact h
  | cons call rest ih => exact ih (h.step call)

end Faithful

/-- A window stands for the set of the numbers recorded in it since the last reset.  Its
highest number is the greatest of the set, or zero; bit `i` of its mask tells whether the
number `i` below the highest is in the set; a number is fresh, and accepted, exactly if it
is not in the set and the highest is less than 64 above it.  So no number is accepted twice,
and two histories with the same set have the same window. -/
theorem window_represents_recorded (calls : List WindowCall) :
    let x := run {} calls
    (x.seen = ∅ → x.window.highest = 0) ∧
    (x.seen.Nonempty → IsGreatest x.seen x.window.highest) ∧
    (∀ i < 64, x.window.mask.toNat.testBit i = true ↔
      i ≤ x.window.highest.toNat ∧ x.window.highest - UInt64.ofNat i ∈ x.seen) ∧
    (∀ seq, x.window.isFresh seq = true ↔
      seq ∉ x.seen ∧ x.window.highest.toNat < seq.toNat + 64) ∧
    (∀ seq, (x.window.accept seq).1 = true ↔
      seq ∉ x.seen ∧ x.window.highest.toNat < seq.toNat + 64) ∧
    x.accepted.Nodup ∧
    (∀ others, (run {} others).seen = x.seen → (run {} others).window = x.window) := by
  intro x
  have h : x.Faithful := Faithful.start.run calls
  refine ⟨h.records.highest_of_empty, h.records.isGreatest, h.records.testBit_iff_sub_mem,
    h.records.isFresh_iff, h.records.accept_iff, h.accepted_nodup, ?_⟩
  intro others hsame
  have hother : (run {} others).window.Records x.seen :=
    hsame ▸ (Faithful.start.run others).records
  exact hother.unique h.records

/-- Numbers in any order, far apart and repeated: the same set gives the same window. -/
example :
    (run {} [.accept 3, .reset, .insert 200, .accept 137, .accept 136, .accept 150]).window =
      (run {} [.insert 150, .accept 200, .accept 150, .insert 137]).window := by
  decide

end WindowHistory
end GameLink
