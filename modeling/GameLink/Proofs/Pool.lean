import GameLink.Pool

/-!
# Buffers of one capacity

A pool hands out buffers of its own capacity in which nothing is written, whatever was released
to it: buffers of another capacity are dropped, the others are reset.

**Results.**
* `Uniform.acquire`, `Uniform.release`, `Uniform.merge`, `Uniform.preallocate`: the
  operations keep a pool uniform.
* `Uniform.spare_acquire`: the buffer that is handed out is like all others.
* `Settled.of_returned`: a buffer that is taken and given back leaves as many in use as before.
-/

namespace GameLink
namespace Pool

/-- A buffer has a capacity, and nothing is written in it. -/
structure Spare (capacity : Nat) (b : Buffer) : Prop where
  capacity : b.capacity = capacity
  reset : b.reset = b

theorem Spare.of_released {capacity : Nat} {b : Buffer} (h : b.capacity = capacity) :
    Spare capacity b.reset :=
  ⟨h, rfl⟩

theorem Spare.of_fresh (capacity : Nat) : Spare capacity (Buffer.empty capacity) :=
  ⟨Buffer.capacity_empty _, rfl⟩

/-- All free buffers of a pool are alike. -/
structure Uniform (p : Pool) : Prop where
  shared : ∀ b ∈ p.shared, Spare p.bufferCapacity b
  byThread : ∀ entry ∈ p.byThread, ∀ b ∈ entry.2, Spare p.bufferCapacity b

namespace Uniform

variable {p : Pool}

theorem empty (bufferCapacity : Nat) : (Pool.empty bufferCapacity).Uniform where
  shared := by simp [Pool.empty]
  byThread := by simp [Pool.empty]

theorem stack (h : p.Uniform) (t : Thread) :
    ∀ b ∈ p.stack t, Spare p.bufferCapacity b := by
  intro b hb
  simp only [Pool.stack] at hb
  cases hlookup : p.byThread.lookup t with
  | none =>
      rw [hlookup] at hb
      cases hb
  | some buffers =>
      rw [hlookup] at hb
      obtain ⟨before, after, hsplit, -⟩ := List.lookup_eq_some_iff.mp hlookup
      exact h.byThread (t, buffers) (by rw [hsplit]; simp) b hb

theorem setStack
    (h : p.Uniform) (t : Thread) (buffers : List Buffer)
    (hbuffers : ∀ b ∈ buffers, Spare p.bufferCapacity b) :
    (p.setStack t buffers).Uniform where
  shared := h.shared
  byThread := by
    intro entry hentry
    rcases List.mem_cons.mp hentry with rfl | hold
    · exact hbuffers
    · exact h.byThread entry (List.mem_filter.mp hold).1

/-- The buffer that is handed out is like all others. -/
theorem spare_acquire (h : p.Uniform) (t : Thread) : Spare p.bufferCapacity (p.acquire t).1 := by
  simp only [Pool.acquire]
  split
  · rename_i b rest hstack
    exact h.stack t b (by rw [hstack]; simp)
  · rename_i b rest _ hshared
    exact h.shared b (by rw [hshared]; simp)
  · exact .of_fresh p.bufferCapacity

theorem capacity_acquire (h : p.Uniform) (t : Thread) :
    (p.acquire t).1.capacity = p.bufferCapacity :=
  (h.spare_acquire t).capacity

theorem acquire (h : p.Uniform) (t : Thread) : (p.acquire t).2.Uniform := by
  simp only [Pool.acquire]
  split
  · rename_i b rest hstack
    have hrest := h.setStack t rest fun b' hb' =>
      h.stack t b' (by rw [hstack]; exact List.mem_cons_of_mem _ hb')
    exact ⟨hrest.shared, hrest.byThread⟩
  · rename_i b rest _ hshared
    exact ⟨fun b' hb' => h.shared b' (by rw [hshared]; exact List.mem_cons_of_mem _ hb'),
      h.byThread⟩
  · exact ⟨h.shared, h.byThread⟩

/-- A buffer of another capacity is not taken back. -/
theorem release (h : p.Uniform) (t : Thread) (b : Buffer) : (p.release t b).Uniform := by
  simp only [Pool.release]
  split
  · rename_i hcapacity
    have hpushed := h.setStack t (b.reset :: p.stack t) fun b' hb' => by
      rcases List.mem_cons.mp hb' with rfl | hold
      · exact .of_released hcapacity
      · exact h.stack t b' hold
    exact ⟨hpushed.shared, hpushed.byThread⟩
  · exact h

theorem merge (h : p.Uniform) (t : Thread) : (p.merge t).Uniform := by
  simp only [Pool.merge]
  have hcleared := h.setStack t [] (by simp)
  refine ⟨fun b hb => ?_, hcleared.byThread⟩
  rcases List.mem_append.mp hb with hown | hshared
  · exact h.stack t b hown
  · exact h.shared b hshared

theorem preallocate (h : p.Uniform) (t : Thread) (count : Nat) :
    (p.preallocate t count).Uniform := by
  simp only [Pool.preallocate]
  have hfilled := h.setStack t
    (List.replicate count (Buffer.empty p.bufferCapacity) ++ p.stack t)
    fun b hb => by
      rcases List.mem_append.mp hb with hfresh | hown
      · rw [List.eq_of_mem_replicate hfresh]
        exact .of_fresh p.bufferCapacity
      · exact h.stack t b hown
  refine Uniform.merge ?_ t
  exact ⟨hfilled.shared, hfilled.byThread⟩

end Uniform

section BuffersInUse

/-- How many buffers of a pool are handed out. -/
def inUse (p : Pool) : UInt64 :=
  p.created - p.pooled

@[simp] theorem bufferCapacity_acquire (p : Pool) (t : Thread) :
    (p.acquire t).2.bufferCapacity = p.bufferCapacity := by
  simp only [acquire]
  split
  · rfl
  · rfl
  · rfl

@[simp] theorem bufferCapacity_release (p : Pool) (t : Thread) (b : Buffer) :
    (p.release t b).bufferCapacity = p.bufferCapacity := by
  simp only [release]
  split
  · rfl
  · rfl

theorem inUse_acquire (p : Pool) (t : Thread) : (p.acquire t).2.inUse = p.inUse + 1 := by
  simp only [acquire]
  split
  · simp only [inUse, setStack]
    grind
  · simp only [inUse]
    grind
  · simp only [inUse]
    grind

theorem inUse_release {p : Pool} {b : Buffer} (h : b.capacity = p.bufferCapacity) (t : Thread) :
    (p.release t b).inUse = p.inUse - 1 := by
  simp only [release, if_pos h, inUse, setStack]
  grind

/-- From one pool to the next free buffers may move, and new ones may be made: all buffers have
the old capacity, and as many are in use as before. -/
structure Settled (p p' : Pool) : Prop where
  bufferCapacity : p'.bufferCapacity = p.bufferCapacity
  inUse : p'.inUse = p.inUse
  uniform : p'.Uniform

namespace Settled

variable {p p' p'' : Pool}

theorem refl (h : p.Uniform) : Settled p p :=
  ⟨rfl, rfl, h⟩

theorem trans (h : Settled p p') (h' : Settled p' p'') : Settled p p'' :=
  ⟨h'.bufferCapacity.trans h.bufferCapacity, h'.inUse.trans h.inUse, h'.uniform⟩

/-- A buffer is taken, and one of its capacity is given back. -/
theorem of_returned
    (h : p.Uniform) (t : Thread) {b : Buffer} (hb : b.capacity = (p.acquire t).1.capacity) :
    Settled p ((p.acquire t).2.release t b) where
  bufferCapacity := by rw [bufferCapacity_release, bufferCapacity_acquire]
  inUse := by
    have hcapacity : b.capacity = (p.acquire t).2.bufferCapacity := by
      rw [hb, h.capacity_acquire, bufferCapacity_acquire]
    rw [inUse_release hcapacity, inUse_acquire]
    grind
  uniform := (h.acquire t).release t b

/-- A buffer of another capacity is dropped. -/
theorem of_dropped (h : p.Uniform) (t : Thread) {b : Buffer} (hb : b.capacity ≠ p.bufferCapacity) :
    Settled p (p.release t b) := by
  rw [release, if_neg hb]
  exact refl h

end Settled

end BuffersInUse

end Pool
end GameLink
