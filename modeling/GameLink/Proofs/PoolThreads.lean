import GameLink.Client.Threads
import GameLink.Proofs.PoolHistory
import Mathlib.Data.List.Nodup

/-!
# Pools used on several threads

What a thread does with a pool leaves the stacks of the other threads alone, and what lies on all
stacks together is known from the threads whose stacks are not empty.

**Results.**
* `Traffic.acquire`, `Traffic.release`, `Traffic.merge`: what one thread does with a pool.
* `Uniform.exchange`, `Tally.exchange`: it does not matter which thread has which stack.
* `stored_of_stacks`: what is stored if no stack of a thread has more than one buffer.
-/

namespace GameLink
namespace Pool

variable {p p' p'' : Pool} {s t : Thread} {n m k : Nat}

theorem stack_setStack_of_ne {other : Thread} (h : other ≠ t) (buffers : List Buffer) :
    (p.setStack t buffers).stack other = p.stack other := by
  have hpassed : (other == t) = false := by simpa using h
  simp only [stack, setStack, List.lookup_cons, hpassed, lookup_filter_of_ne h]

/-- A thread has used a pool: of the buffers in use it gave `n` back, and it took `m`. -/
structure Traffic (t : Thread) (n m : Nat) (p p' : Pool) : Prop where
  bufferCapacity : p'.bufferCapacity = p.bufferCapacity
  uniform : p.Uniform → p'.Uniform
  tally : ∀ held, p.Tally (held + n) → p'.Tally (held + m)
  others : ∀ other ≠ t, p'.stack other = p.stack other

namespace Traffic

theorem refl (t : Thread) (n : Nat) (p : Pool) : Traffic t n n p p :=
  ⟨rfl, id, fun _ h => h, fun _ _ => rfl⟩

theorem trans (h : Traffic t n m p p') (h' : Traffic t m k p' p'') : Traffic t n k p p'' where
  bufferCapacity := h'.bufferCapacity.trans h.bufferCapacity
  uniform hp := h'.uniform (h.uniform hp)
  tally held hp := h'.tally held (h.tally held hp)
  others other hother := (h'.others other hother).trans (h.others other hother)

/-- Other buffers may be in use meanwhile. -/
theorem beside (h : Traffic t n m p p') (k : Nat) : Traffic t (k + n) (k + m) p p' where
  bufferCapacity := h.bufferCapacity
  uniform := h.uniform
  tally held hp := by
    rw [← Nat.add_assoc] at hp ⊢
    exact h.tally (held + k) hp
  others := h.others

theorem acquire (t : Thread) (p : Pool) : Traffic t 0 1 p (p.acquire t).2 where
  bufferCapacity := bufferCapacity_acquire p t
  uniform hp := hp.acquire t
  tally _ hp := hp.acquire t
  others other hother := by
    simp only [Pool.acquire]
    split
    · exact stack_setStack_of_ne hother _
    · rfl
    · rfl

theorem release {b : Buffer} (hb : b.capacity = p.bufferCapacity) (t : Thread) :
    Traffic t 1 0 p (p.release t b) where
  bufferCapacity := bufferCapacity_release p t b
  uniform hp := hp.release t b
  tally _ hp := hp.release hb t
  others other hother := by
    rw [Pool.release, if_pos hb]
    exact stack_setStack_of_ne hother _

theorem merge (t : Thread) (p : Pool) : Traffic t 0 0 p (p.merge t) where
  bufferCapacity := rfl
  uniform hp := hp.merge t
  tally _ hp := hp.merge t
  others _ hother := stack_setStack_of_ne hother _

/-- A buffer is taken, and one of its capacity is given back. -/
theorem of_returned (hp : p.Uniform) (t : Thread) {b : Buffer}
    (hb : b.capacity = (p.acquire t).1.capacity) :
    Traffic t 0 0 p ((p.acquire t).2.release t b) := by
  refine (acquire t p).trans (release ?_ t)
  rw [hb, hp.capacity_acquire, bufferCapacity_acquire]

end Traffic

section ThreadStack

theorem stack_merge (p : Pool) (t : Thread) : (p.merge t).stack t = [] :=
  stack_setStack p t []

/-- What is preallocated is shared. -/
theorem stack_preallocate_empty (bufferCapacity count : Nat) (t other : Thread) :
    ((Pool.empty bufferCapacity).preallocate t count).stack other = [] := by
  by_cases hother : other = t
  · rw [hother]
    exact stack_merge _ t
  · exact (stack_setStack_of_ne hother []).trans (stack_setStack_of_ne hother _)

/-- A thread with at most one buffer on its stack takes it. -/
theorem stack_acquire (h : (p.stack t).length ≤ 1) : (p.acquire t).2.stack t = [] := by
  simp only [acquire]
  split
  · rename_i b rest hstack
    rw [hstack] at h
    have hrest : rest = [] := List.eq_nil_of_length_eq_zero (by simpa using h)
    rw [hrest]
    exact stack_setStack p t []
  · rename_i b rest hstack _
    exact hstack
  · rename_i hstack _
    exact hstack

theorem length_stack_release {b : Buffer} (hb : b.capacity = p.bufferCapacity)
    (hempty : p.stack t = []) : ((p.release t b).stack t).length = 1 := by
  have hstack : (p.release t b).stack t = b.reset :: p.stack t := by
    rw [release, if_pos hb]
    exact stack_setStack p t _
  rw [hstack, hempty]
  rfl

end ThreadStack

section ExchangedStacks

theorem owners_exchange (p : Pool) (s t : Thread) :
    (p.exchange s t).byThread.map Prod.fst =
      (p.byThread.map Prod.fst).map fun owner => owner.exchange s t := by
  simp only [exchange, List.map_map]
  rfl

theorem stored_exchange (p : Pool) (s t : Thread) : (p.exchange s t).stored = p.stored := by
  simp only [stored, exchange]
  congr 1
  induction p.byThread with
  | nil => rfl
  | cons entry rest ih => simp only [List.map_cons, onThreads_cons, ih]

theorem Uniform.exchange (h : p.Uniform) (s t : Thread) : (p.exchange s t).Uniform where
  shared := h.shared
  byThread := by
    intro entry hentry
    obtain ⟨old, hold, rfl⟩ := List.mem_map.mp hentry
    exact h.byThread old hold

theorem Tally.exchange {held : Nat} (h : p.Tally held) (s t : Thread) :
    (p.exchange s t).Tally held where
  threads := by
    have hinjective : Function.Injective fun owner : Thread => owner.exchange s t := by
      intro first second hsame
      have hback := congrArg (fun owner : Thread => owner.exchange s t) hsame
      simpa using hback
    rw [OneStackEach, owners_exchange]
    exact List.Nodup.map hinjective h.threads
  pooled := by
    rw [stored_exchange]
    exact h.pooled
  created := by
    rw [stored_exchange]
    exact h.created

/-- What is done on a thread while it is exchanged for another is done on the other. -/
theorem Traffic.exchange (h : Traffic s n m (p.exchange s t) p') :
    Traffic t n m p (p'.exchange s t) where
  bufferCapacity := h.bufferCapacity
  uniform hp := (h.uniform (hp.exchange s t)).exchange s t
  tally held hp := (h.tally held (hp.exchange s t)).exchange s t
  others other hother := by
    have hne : other.exchange s t ≠ s := by
      intro hsame
      have hback := congrArg (fun u : Thread => u.exchange s t) hsame
      exact hother (by simpa using hback)
    rw [stack_exchange, h.others _ hne, stack_exchange, Thread.exchange_exchange]

end ExchangedStacks

section AllStacks

theorem lookup_of_mem {entries : List (Thread × List Buffer)}
    (hnodup : (entries.map Prod.fst).Nodup) {entry : Thread × List Buffer}
    (hentry : entry ∈ entries) : entries.lookup entry.1 = some entry.2 := by
  induction entries with
  | nil => cases hentry
  | cons first rest ih =>
      obtain ⟨owner, buffers⟩ := first
      rw [List.map_cons, List.nodup_cons] at hnodup
      rcases List.mem_cons.mp hentry with rfl | hlater
      · rw [List.lookup_cons, beq_self_eq_true]
      · have hlisted : entry.1 ∈ rest.map Prod.fst := List.mem_map_of_mem hlater
        have hne : entry.1 ≠ owner := fun heq => hnodup.1 (heq ▸ hlisted)
        have hpassed : (entry.1 == owner) = false := by simpa using hne
        rw [List.lookup_cons, hpassed]
        exact ih hnodup.2 hlater

theorem onThreads_of_lengths (left : List Thread) {entries : List (Thread × List Buffer)}
    (h : ∀ entry ∈ entries, entry.2.length = if entry.1 ∈ left then 1 else 0) :
    onThreads entries = ((entries.map Prod.fst).filter (· ∈ left)).length := by
  induction entries with
  | nil => rfl
  | cons entry rest ih =>
      obtain ⟨hentry, hrest⟩ := List.forall_mem_cons.mp h
      rw [onThreads_cons, hentry, ih hrest, List.map_cons, List.filter_cons]
      by_cases hleft : entry.1 ∈ left
      · simp [hleft, Nat.add_comm]
      · simp [hleft]

/-- What is stored if some threads have one buffer on their stacks and the others none. -/
theorem stored_of_stacks (hthreads : p.OneStackEach) {left : List Thread} (hnodup : left.Nodup)
    (h : ∀ t, (p.stack t).length = if t ∈ left then 1 else 0) :
    p.stored = p.shared.length + left.length := by
  have hlengths : ∀ entry ∈ p.byThread, entry.2.length = if entry.1 ∈ left then 1 else 0 := by
    intro entry hentry
    rw [← h entry.1, stack, lookup_of_mem hthreads hentry]
    rfl
  have hperm : ((p.byThread.map Prod.fst).filter (· ∈ left)).Perm left := by
    refine (List.perm_ext_iff_of_nodup (List.Nodup.filter _ hthreads) hnodup).mpr fun t => ?_
    rw [List.mem_filter]
    refine ⟨fun ht => by simpa using ht.2, fun ht => ⟨?_, by simpa using ht⟩⟩
    have hone := h t
    rw [if_pos ht, stack] at hone
    cases hlookup : p.byThread.lookup t with
    | none =>
        rw [hlookup] at hone
        cases hone
    | some buffers =>
        obtain ⟨before, after, hsplit, -⟩ := List.lookup_eq_some_iff.mp hlookup
        rw [hsplit]
        simp
  rw [stored, onThreads_of_lengths left hlengths, hperm.length_eq]

end AllStacks

end Pool
end GameLink
