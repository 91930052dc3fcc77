import GameLink.Proofs.Pool

/-!
# Histories of pools

Any number of threads use any number of pools, one operation at a time.  Beside each pool its
history keeps the buffers that were taken from it and not given back.  Whoever holds one of them
may leave anything in it, and any thread may give it back.

**Algorithm.** What is not allowed has no result: giving back what is not held, a buffer of another
capacity in the place of a held one, and the end of a thread whose stacks are not empty.

**Results.**
* `stored_setStack`: what lies on the stacks of a pool, counted over all its threads.
* `freeDownTo_spec`: what is freed comes from the top, as far as it takes and no further.
* `Balanced.act`, `Depot.balanced_run`: the counters follow what is stored and what is held.
* `pools_accounted`: what that means after every step, and what a step leaves alone.
-/

namespace GameLink

/-- A pool with the buffers that were taken from it and not given back. -/
structure Lender where
  pool : Pool
  held : List Buffer

/-- What a thread does with a pool, or with a buffer it took from there. -/
inductive Deed
  | acquire
  | use (index : Nat) (b : Buffer)
  | release (index : Nat)
  | merge
  | preallocate (count : Nat)
  | trim (keep : Nat)
  | clear

/-- A step of a history. -/
inductive PoolCall
  | create (bufferCapacity : Nat)
  | on (index : Nat) (thread : Thread) (deed : Deed)
  | endThread (thread : Thread)

/-- The pool that a step is about. -/
def PoolCall.pool? : PoolCall → Option Nat
  | .on index _ _ => some index
  | _ => none

/-- All pools there are. -/
abbrev Depot := List Lender

namespace Lender

/-- A new pool. -/
def start (bufferCapacity : Nat) : Lender :=
  ⟨.empty bufferCapacity, []⟩

def act (x : Lender) (t : Thread) : Deed → Option Lender
  | .acquire => some ⟨(x.pool.acquire t).2, x.held ++ [(x.pool.acquire t).1]⟩
  | .use index b =>
      match x.held[index]? with
      | some old =>
          if b.capacity = old.capacity then some { x with held := x.held.set index b } else none
      | none => none
  | .release index =>
      match x.held[index]? with
      | some b => some ⟨x.pool.release t b, x.held.eraseIdx index⟩
      | none => none
  | .merge => some { x with pool := x.pool.merge t }
  | .preallocate count => some { x with pool := x.pool.preallocate t count }
  | .trim keep => some { x with pool := x.pool.trim t keep }
  | .clear => some { x with pool := x.pool.clear.2 }

/-- The pool after a thread ended. -/
def endThread (x : Lender) (t : Thread) : Lender :=
  { x with pool := x.pool.endThread t }

end Lender

namespace Depot

def step (d : Depot) : PoolCall → Option Depot
  | .create bufferCapacity => some (d ++ [.start bufferCapacity])
  | .on index t deed =>
      match d[index]? with
      | some x => (x.act t deed).map fun x' => d.set index x'
      | none => none
  | .endThread t =>
      if d.all fun x => (x.pool.stack t).isEmpty then
        some (d.map fun x => x.endThread t)
      else
        none

/-- Steps one after the other. -/
def run (d : Depot) : List PoolCall → Option Depot
  | [] => some d
  | call :: rest => (d.step call).bind fun d' => run d' rest

end Depot

/-- A buffer has a capacity; cursor, mark and bits are at their start. -/
structure Buffer.IsFresh (capacity : Nat) (b : Buffer) : Prop where
  capacity : b.capacity = capacity
  position : b.position = 0
  length : b.length = 0
  pending : b.pendingBits = 0 ∧ b.pendingCount = 0
  loaded : b.loadedBits = 0 ∧ b.loadedCount = 0

namespace Pool

/-- How many buffers lie on the stacks of all threads. -/
def onThreads : List (Thread × List Buffer) → Nat
  | [] => 0
  | entry :: rest => entry.2.length + onThreads rest

/-- How many buffers lie on the shared stack and on those of all threads. -/
def stored (p : Pool) : Nat :=
  p.shared.length + onThreads p.byThread

/-- No thread has two stacks. -/
def OneStackEach (p : Pool) : Prop :=
  (p.byThread.map Prod.fst).Nodup

variable {p : Pool} {t : Thread}

@[simp] theorem onThreads_cons (entry : Thread × List Buffer) (rest : List (Thread × List Buffer)) :
    onThreads (entry :: rest) = entry.2.length + onThreads rest := by
  rfl

/-- The stacks of all threads are that of one of them and those of the others. -/
theorem onThreads_split {entries : List (Thread × List Buffer)}
    (h : (entries.map Prod.fst).Nodup) (t : Thread) :
    onThreads entries =
      ((entries.lookup t).getD []).length +
        onThreads (entries.filter fun entry => entry.1 != t) := by
  induction entries with
  | nil => rfl
  | cons entry rest ih =>
      obtain ⟨owner, buffers⟩ := entry
      rw [List.map_cons, List.nodup_cons] at h
      by_cases howner : owner = t
      · subst howner
        have hothers : rest.filter (fun entry => entry.1 != owner) = rest := by
          refine List.filter_eq_self.mpr fun entry hentry => ?_
          have hmem : entry.1 ∈ rest.map Prod.fst := List.mem_map_of_mem hentry
          have hne : entry.1 ≠ owner := fun heq => h.1 (heq ▸ hmem)
          simpa using hne
        simp [hothers]
      · have hlookup : (t == owner) = false := by simpa using Ne.symm howner
        have hkept : (owner != t) = true := by simpa using howner
        have hrest := ih h.2
        simp only [List.lookup_cons, hlookup, List.filter_cons, hkept, if_true, onThreads_cons]
        omega

theorem OneStackEach.filter (h : p.OneStackEach) (t : Thread) :
    ((p.byThread.filter fun entry => entry.1 != t).map Prod.fst).Nodup :=
  h.sublist (List.filter_sublist.map _)

theorem OneStackEach.setStack (h : p.OneStackEach) (t : Thread) (buffers : List Buffer) :
    (p.setStack t buffers).OneStackEach := by
  refine List.nodup_cons.mpr ⟨fun hmem => ?_, h.filter t⟩
  obtain ⟨entry, hentry, heq⟩ := List.mem_map.mp hmem
  have hne := (List.mem_filter.mp hentry).2
  simp [heq] at hne

/-- With another stack for a thread, the old one is gone. -/
theorem stored_setStack (h : p.OneStackEach) (t : Thread) (buffers : List Buffer) :
    (p.setStack t buffers).stored + (p.stack t).length = p.stored + buffers.length := by
  have hsplit := onThreads_split h t
  simp only [stored, setStack, onThreads_cons, stack] at hsplit ⊢
  omega

theorem stored_merge (h : p.OneStackEach) (t : Thread) : (p.merge t).stored = p.stored := by
  have hset := stored_setStack h t []
  simp only [stored, merge, setStack, List.length_append, List.length_nil] at hset ⊢
  omega

theorem stored_endThread (h : p.OneStackEach) (hempty : p.stack t = []) :
    (p.endThread t).stored = p.stored := by
  have hsplit := onThreads_split h t
  have hlength : ((p.byThread.lookup t).getD []).length = 0 := by
    rw [show (p.byThread.lookup t).getD [] = [] from hempty]
    rfl
  simp only [stored, endThread]
  omega

/-- Freeing takes buffers from the top, until few enough are pooled or none is left, and never
more than it takes. -/
theorem freeDownTo_spec (keep : Nat) (p : Pool) (buffers : List Buffer) :
    ∃ freed ≤ buffers.length,
      freeDownTo keep p buffers =
        { p with
          shared := buffers.drop freed
          created := p.created - UInt64.ofNat freed
          pooled := p.pooled - UInt64.ofNat freed } ∧
      ((p.pooled - UInt64.ofNat freed).toNat ≤ keep ∨ buffers.drop freed = []) ∧
      min keep p.pooled.toNat ≤ (p.pooled - UInt64.ofNat freed).toNat := by
  induction buffers generalizing p with
  | nil =>
      refine ⟨0, Nat.le_refl 0, by simp [freeDownTo], Or.inr rfl, ?_⟩
      rw [show p.pooled - UInt64.ofNat 0 = p.pooled from UInt64.sub_zero _]
      exact Nat.min_le_right _ _
  | cons b rest ih =>
      by_cases hmore : keep < p.pooled.toNat
      · obtain ⟨freed, hle, heq, hstop, hkeep⟩ :=
          ih { p with created := p.created - 1, pooled := p.pooled - 1 }
        have hone : UInt64.ofNat (freed + 1) = 1 + UInt64.ofNat freed := by
          rw [Nat.add_comm, UInt64.ofNat_add]
          rfl
        have hpooled : p.pooled - UInt64.ofNat (freed + 1) = p.pooled - 1 - UInt64.ofNat freed := by
          rw [hone]
          grind
        have hcreated :
            p.created - UInt64.ofNat (freed + 1) = p.created - 1 - UInt64.ofNat freed := by
          rw [hone]
          grind
        -- More than `keep` are pooled, so one fewer does not wrap around.
        have hless : (p.pooled - 1).toNat = p.pooled.toNat - 1 :=
          UInt64.toNat_sub_of_le _ _ (UInt64.le_iff_toNat_le.mpr (Nat.one_le_of_lt hmore))
        refine ⟨freed + 1, Nat.succ_le_succ hle, ?_, ?_, ?_⟩
        · rw [freeDownTo, if_pos hmore, heq, hpooled, hcreated]
          rfl
        · rw [hpooled]
          exact hstop
        · rw [hpooled]
          simp only [hless] at hkeep
          omega
      · refine ⟨0, Nat.zero_le _, ?_, Or.inl ?_, ?_⟩
        · rw [freeDownTo, if_neg hmore]
          simp
        · simpa using hmore
        · rw [show p.pooled - UInt64.ofNat 0 = p.pooled from UInt64.sub_zero _]
          exact Nat.min_le_right _ _

section Counters

/-- The counters of a pool follow what is stored, and how many of its buffers are held. -/
structure Tally (p : Pool) (held : Nat) : Prop where
  threads : p.OneStackEach
  pooled : p.pooled = UInt64.ofNat p.stored
  created : p.created = UInt64.ofNat (p.stored + held)

namespace Tally

variable {held : Nat}

theorem empty (bufferCapacity : Nat) : Tally (.empty bufferCapacity) 0 where
  threads := List.nodup_nil
  pooled := rfl
  created := rfl

/-- A stored buffer is taken. -/
theorem taken {p' : Pool} (h : p.Tally held) (hthreads : p'.OneStackEach)
    (hstored : p'.stored + 1 = p.stored) (hpooled : p'.pooled = p.pooled - 1)
    (hcreated : p'.created = p.created) : p'.Tally (held + 1) where
  threads := hthreads
  pooled := by
    rw [hpooled, h.pooled, ← hstored, UInt64.ofNat_add]
    grind
  created := by
    rw [hcreated, h.created, ← hstored]
    grind

theorem acquire (h : p.Tally held) (t : Thread) : (p.acquire t).2.Tally (held + 1) := by
  simp only [Pool.acquire]
  split
  · rename_i b rest hstack
    have hset := stored_setStack h.threads t rest
    rw [hstack, List.length_cons] at hset
    have hstored : (p.setStack t rest).stored + 1 = p.stored := by omega
    exact h.taken (h.threads.setStack t rest) hstored rfl rfl
  · rename_i b rest _ hshared
    have hstored : rest.length + onThreads p.byThread + 1 = p.stored := by
      rw [stored, hshared, List.length_cons]
      omega
    exact h.taken h.threads hstored rfl rfl
  · refine ⟨h.threads, h.pooled, ?_⟩
    show p.created + 1 = UInt64.ofNat (p.stored + (held + 1))
    rw [h.created, ← Nat.add_assoc, UInt64.ofNat_add (p.stored + held)]
    rfl

theorem release (h : p.Tally (held + 1)) {b : Buffer} (hb : b.capacity = p.bufferCapacity)
    (t : Thread) : (p.release t b).Tally held := by
  have hset := stored_setStack h.threads t (b.reset :: p.stack t)
  rw [List.length_cons] at hset
  have hstored : (p.setStack t (b.reset :: p.stack t)).stored = p.stored + 1 := by omega
  rw [Pool.release, if_pos hb]
  refine ⟨h.threads.setStack t _, ?_, ?_⟩
  · show p.pooled + 1 = UInt64.ofNat (p.setStack t (b.reset :: p.stack t)).stored
    rw [h.pooled, hstored, UInt64.ofNat_add]
    rfl
  · show p.created = UInt64.ofNat ((p.setStack t (b.reset :: p.stack t)).stored + held)
    rw [h.created, hstored, Nat.add_right_comm, Nat.add_assoc]

theorem merge (h : p.Tally held) (t : Thread) : (p.merge t).Tally held where
  threads := h.threads.setStack t []
  pooled := (stored_merge h.threads t).symm ▸ h.pooled
  created := (stored_merge h.threads t).symm ▸ h.created

theorem preallocate (h : p.Tally held) (t : Thread) (count : Nat) :
    (p.preallocate t count).Tally held := by
  have hset := stored_setStack h.threads t
    (List.replicate count (Buffer.empty p.bufferCapacity) ++ p.stack t)
  rw [List.length_append, List.length_replicate] at hset
  have hfilled : Tally
      { p.setStack t (List.replicate count (Buffer.empty p.bufferCapacity) ++ p.stack t) with
        created := p.created + UInt64.ofNat count
        pooled := p.pooled + UInt64.ofNat count } held := by
    refine ⟨h.threads.setStack t _, ?_, ?_⟩
    · show p.pooled + UInt64.ofNat count = UInt64.ofNat (p.setStack t _).stored
      rw [h.pooled, ← UInt64.ofNat_add]
      congr 1
      omega
    · show p.created + UInt64.ofNat count = UInt64.ofNat ((p.setStack t _).stored + held)
      rw [h.created, ← UInt64.ofNat_add]
      congr 1
      omega
  exact hfilled.merge t

/-- Shared buffers are freed. -/
theorem freed (h : p.Tally held) {count : Nat} {rest : List Buffer}
    (hrest : rest.length + count = p.shared.length) :
    Tally
      { p with
        shared := rest
        created := p.created - UInt64.ofNat count
        pooled := p.pooled - UInt64.ofNat count } held := by
  have hstored : p.stored = rest.length + onThreads p.byThread + count := by
    rw [stored]
    omega
  refine ⟨h.threads, ?_, ?_⟩
  · show p.pooled - UInt64.ofNat count = UInt64.ofNat (rest.length + onThreads p.byThread)
    rw [h.pooled, hstored, UInt64.ofNat_add]
    grind
  · show p.created - UInt64.ofNat count = UInt64.ofNat (rest.length + onThreads p.byThread + held)
    rw [h.created, hstored, Nat.add_right_comm, UInt64.ofNat_add _ count]
    grind

theorem trim (h : p.Tally held) (t : Thread) (keep : Nat) : (p.trim t keep).Tally held := by
  obtain ⟨count, hle, heq, -⟩ := freeDownTo_spec keep (p.merge t) (p.merge t).shared
  rw [Pool.trim, heq]
  refine (h.merge t).freed ?_
  rw [List.length_drop]
  omega

theorem clear (h : p.Tally held) : p.clear.2.Tally held :=
  h.freed (Nat.zero_add _)

theorem endThread (h : p.Tally held) {t : Thread} (hempty : p.stack t = []) :
    (p.endThread t).Tally held where
  threads := h.threads.filter t
  pooled := (stored_endThread h.threads hempty).symm ▸ h.pooled
  created := (stored_endThread h.threads hempty).symm ▸ h.created

/-- As many are in use as are held. -/
theorem inUse (h : p.Tally held) : p.inUse = UInt64.ofNat held := by
  rw [Pool.inUse, h.pooled, h.created, UInt64.ofNat_add]
  grind

theorem toNat_pooled (h : p.Tally held) (hfew : p.stored < UInt64.size) :
    p.pooled.toNat = p.stored := by
  rw [h.pooled]
  exact UInt64.toNat_ofNat_of_lt hfew

theorem toNat_created (h : p.Tally held) (hfew : p.stored + held < UInt64.size) :
    p.created.toNat = p.stored + held := by
  rw [h.created]
  exact UInt64.toNat_ofNat_of_lt hfew

end Tally

end Counters

section FreeBuffers

namespace Uniform

theorem of_shared (h : p.Uniform) {shared : List Buffer} (hshared : ∀ b ∈ shared, b ∈ p.shared)
    (created pooled : UInt64) :
    Uniform { p with shared := shared, created := created, pooled := pooled } :=
  ⟨fun b hb => h.shared b (hshared b hb), h.byThread⟩

theorem trim (h : p.Uniform) (t : Thread) (keep : Nat) : (p.trim t keep).Uniform := by
  obtain ⟨count, -, heq, -⟩ := freeDownTo_spec keep (p.merge t) (p.merge t).shared
  rw [Pool.trim, heq]
  exact (h.merge t).of_shared (fun b hb => List.mem_of_mem_drop hb) _ _

theorem clear (h : p.Uniform) : p.clear.2.Uniform :=
  h.of_shared (fun _ hb => absurd hb List.not_mem_nil) _ _

theorem endThread (h : p.Uniform) (t : Thread) : (p.endThread t).Uniform :=
  ⟨h.shared, fun entry hentry => h.byThread entry (List.mem_filter.mp hentry).1⟩

end Uniform

theorem lookup_filter_of_ne {other : Thread} (hne : other ≠ t)
    (entries : List (Thread × List Buffer)) :
    (entries.filter fun entry => entry.1 != t).lookup other = entries.lookup other := by
  induction entries with
  | nil => rfl
  | cons entry rest ih =>
      obtain ⟨owner, buffers⟩ := entry
      by_cases howner : owner = t
      · subst howner
        have hpassed : (other == owner) = false := by simpa using hne
        simp [List.lookup_cons, hpassed, ih]
      · simp [howner, List.lookup_cons, ih]

theorem lookup_filter_self (entries : List (Thread × List Buffer)) :
    (entries.filter fun entry => entry.1 != t).lookup t = none := by
  refine List.lookup_eq_none_iff.mpr fun entry hentry => ?_
  have hother : (entry.1 != t) = true := (List.mem_filter.mp hentry).2
  simpa using Ne.symm (bne_iff_ne.mp hother)

/-- The end of a thread that merged changes no stack. -/
theorem stack_endThread (h : p.stack t = []) (other : Thread) :
    (p.endThread t).stack other = p.stack other := by
  by_cases hother : other = t
  · subst hother
    rw [h]
    simp [stack, Pool.endThread, lookup_filter_self]
  · simp only [stack, Pool.endThread, lookup_filter_of_ne hother]

theorem bufferCapacity_trim (p : Pool) (t : Thread) (keep : Nat) :
    (p.trim t keep).bufferCapacity = p.bufferCapacity := by
  obtain ⟨count, -, heq, -⟩ := freeDownTo_spec keep (p.merge t) (p.merge t).shared
  rw [Pool.trim, heq]
  rfl

/-- Trimming goes on until few enough are pooled or none is shared, and takes no more. -/
theorem pooled_trim (p : Pool) (t : Thread) (keep : Nat) :
    ((p.trim t keep).pooled.toNat ≤ keep ∨ (p.trim t keep).shared = []) ∧
      min keep p.pooled.toNat ≤ (p.trim t keep).pooled.toNat := by
  obtain ⟨count, -, heq, hstop, hkeep⟩ := freeDownTo_spec keep (p.merge t) (p.merge t).shared
  rw [Pool.trim, heq]
  exact ⟨hstop, hkeep⟩

theorem Spare.isFresh {capacity : Nat} {b : Buffer} (h : Spare capacity b) :
    b.IsFresh capacity := by
  have hcapacity := h.capacity
  rw [← h.reset]
  exact ⟨hcapacity, rfl, rfl, ⟨rfl, rfl⟩, ⟨rfl, rfl⟩⟩

end FreeBuffers

end Pool

namespace Lender

variable {x x' : Lender} {t : Thread}

/-- What holds of a pool at all times. -/
structure Balanced (x : Lender) : Prop where
  uniform : x.pool.Uniform
  tally : x.pool.Tally x.held.length
  held : ∀ b ∈ x.held, b.capacity = x.pool.bufferCapacity

namespace Balanced

theorem start (bufferCapacity : Nat) : (Lender.start bufferCapacity).Balanced where
  uniform := .empty bufferCapacity
  tally := .empty bufferCapacity
  held := by simp [Lender.start]

theorem acquire (h : x.Balanced) (t : Thread) :
    Balanced ⟨(x.pool.acquire t).2, x.held ++ [(x.pool.acquire t).1]⟩ where
  uniform := h.uniform.acquire t
  tally := by
    rw [List.length_append, List.length_singleton]
    exact h.tally.acquire t
  held := by
    intro b hb
    rw [Pool.bufferCapacity_acquire]
    rcases List.mem_append.mp hb with hold | hnew
    · exact h.held b hold
    · rw [List.mem_singleton.mp hnew]
      exact h.uniform.capacity_acquire t

theorem release (h : x.Balanced) (t : Thread) {index : Nat} {b : Buffer}
    (hb : x.held[index]? = some b) :
    Balanced ⟨x.pool.release t b, x.held.eraseIdx index⟩ where
  uniform := h.uniform.release t b
  tally := by
    obtain ⟨hindex, -⟩ := List.getElem?_eq_some_iff.mp hb
    have hlength : x.held.length = (x.held.eraseIdx index).length + 1 := by
      rw [List.length_eraseIdx_of_lt hindex]
      omega
    exact (hlength ▸ h.tally).release (h.held b (List.mem_of_getElem? hb)) t
  held := by
    intro other hother
    rw [Pool.bufferCapacity_release]
    exact h.held other (List.mem_of_mem_eraseIdx hother)

theorem use (h : x.Balanced) {index : Nat} {old b : Buffer} (hold : x.held[index]? = some old)
    (hb : b.capacity = old.capacity) : Balanced { x with held := x.held.set index b } where
  uniform := h.uniform
  tally := by
    rw [List.length_set]
    exact h.tally
  held := by
    intro other hother
    rcases List.mem_or_eq_of_mem_set hother with hmem | rfl
    · exact h.held other hmem
    · exact hb.trans (h.held old (List.mem_of_getElem? hold))

theorem act (h : x.Balanced) {deed : Deed} (hact : x.act t deed = some x') : x'.Balanced := by
  cases deed with
  | acquire =>
      cases hact
      exact h.acquire t
  | use index b =>
      simp only [Lender.act] at hact
      split at hact
      · rename_i old hold
        split at hact
        · rename_i hb
          cases hact
          exact h.use hold hb
        · cases hact
      · cases hact
  | release index =>
      simp only [Lender.act] at hact
      split at hact
      · rename_i b hb
        cases hact
        exact h.release t hb
      · cases hact
  | merge =>
      cases hact
      exact ⟨h.uniform.merge t, h.tally.merge t, h.held⟩
  | preallocate count =>
      cases hact
      exact ⟨h.uniform.preallocate t count, h.tally.preallocate t count, h.held⟩
  | trim keep =>
      cases hact
      refine ⟨h.uniform.trim t keep, h.tally.trim t keep, fun b hb => ?_⟩
      rw [Pool.bufferCapacity_trim]
      exact h.held b hb
  | clear =>
      cases hact
      exact ⟨h.uniform.clear, h.tally.clear, h.held⟩

theorem endThread (h : x.Balanced) (hempty : x.pool.stack t = []) : (x.endThread t).Balanced :=
  ⟨h.uniform.endThread t, h.tally.endThread hempty, h.held⟩

end Balanced

/-- Nothing that can be seen of a pool is changed. -/
structure Alike (x x' : Lender) : Prop where
  held : x'.held = x.held
  bufferCapacity : x'.pool.bufferCapacity = x.pool.bufferCapacity
  shared : x'.pool.shared = x.pool.shared
  stack : ∀ t, x'.pool.stack t = x.pool.stack t
  created : x'.pool.created = x.pool.created
  pooled : x'.pool.pooled = x.pool.pooled

theorem Alike.refl (x : Lender) : x.Alike x :=
  ⟨rfl, rfl, rfl, fun _ => rfl, rfl, rfl⟩

theorem Alike.of_ended (h : x.pool.stack t = []) : x.Alike (x.endThread t) :=
  ⟨rfl, rfl, rfl, Pool.stack_endThread h, rfl, rfl⟩

/-- What is counted of a pool, and what lies on its stacks. -/
structure Accounted (x : Lender) : Prop where
  threads : x.pool.OneStackEach
  pooled : x.pool.pooled = UInt64.ofNat x.pool.stored
  inUse : x.pool.created - x.pool.pooled = UInt64.ofNat x.held.length
  pooled_exact : x.pool.stored < UInt64.size → x.pool.pooled.toNat = x.pool.stored
  created_exact : x.pool.stored + x.held.length < UInt64.size →
    x.pool.created.toNat = x.pool.stored + x.held.length
  shared : ∀ b ∈ x.pool.shared, b.IsFresh x.pool.bufferCapacity
  stack : ∀ t, ∀ b ∈ x.pool.stack t, b.IsFresh x.pool.bufferCapacity

theorem Balanced.accounted (h : x.Balanced) : x.Accounted where
  threads := h.tally.threads
  pooled := h.tally.pooled
  inUse := h.tally.inUse
  pooled_exact := h.tally.toNat_pooled
  created_exact := h.tally.toNat_created
  shared b hb := (h.uniform.shared b hb).isFresh
  stack t b hb := (h.uniform.stack t b hb).isFresh

end Lender

namespace Depot

variable {d d' : Depot}

theorem balanced_step (h : ∀ x ∈ d, x.Balanced) {call : PoolCall} (hstep : d.step call = some d') :
    ∀ x ∈ d', x.Balanced := by
  cases call with
  | create bufferCapacity =>
      cases hstep
      intro x hx
      rcases List.mem_append.mp hx with hold | hnew
      · exact h x hold
      · rw [List.mem_singleton.mp hnew]
        exact .start bufferCapacity
  | on index t deed =>
      simp only [step] at hstep
      split at hstep
      · rename_i x hx
        obtain ⟨x', hact, rfl⟩ := Option.map_eq_some_iff.mp hstep
        intro y hy
        rcases List.mem_or_eq_of_mem_set hy with hmem | rfl
        · exact h y hmem
        · exact (h x (List.mem_of_getElem? hx)).act hact
      · cases hstep
  | endThread t =>
      simp only [step] at hstep
      split at hstep
      · rename_i hempty
        cases hstep
        intro y hy
        obtain ⟨x, hx, rfl⟩ := List.mem_map.mp hy
        exact (h x hx).endThread (List.isEmpty_iff.mp (List.all_eq_true.mp hempty x hx))
      · cases hstep

theorem balanced_run {calls : List PoolCall} (h : ∀ x ∈ d, x.Balanced)
    (hrun : d.run calls = some d') : ∀ x ∈ d', x.Balanced := by
  induction calls generalizing d with
  | nil =>
      cases hrun
      exact h
  | cons call rest ih =>
      obtain ⟨next, hstep, hrest⟩ := Option.bind_eq_some_iff.mp hrun
      exact ih (balanced_step h hstep) hrest

/-- What a step does beside the counting. -/
structure Orderly (d : Depot) (call : PoolCall) (d' : Depot) : Prop where
  others : ∀ i x, call.pool? ≠ some i → d[i]? = some x → ∃ x', d'[i]? = some x' ∧ x.Alike x'
  acquired : ∀ i t x, call = .on i t .acquire → d[i]? = some x →
    ∃ b p, d'[i]? = some ⟨p, x.held ++ [b]⟩ ∧ b.IsFresh x.pool.bufferCapacity
  trimmed : ∀ i t keep x, call = .on i t (.trim keep) → d[i]? = some x →
    ∃ x', d'[i]? = some x' ∧ (x'.pool.pooled.toNat ≤ keep ∨ x'.pool.shared = []) ∧
      min keep x.pool.pooled.toNat ≤ x'.pool.pooled.toNat

namespace Orderly

theorem create (bufferCapacity : Nat) :
    d.Orderly (.create bufferCapacity) (d ++ [.start bufferCapacity]) where
  others i x _ hx := ⟨x, (List.getElem?_append_left
    (List.getElem?_eq_some_iff.mp hx).1).trans hx, .refl x⟩
  acquired := by simp
  trimmed := by simp

theorem on (h : ∀ x ∈ d, x.Balanced) {index : Nat} {t : Thread} {deed : Deed} {x x' : Lender}
    (hx : d[index]? = some x) (hact : x.act t deed = some x') :
    d.Orderly (.on index t deed) (d.set index x') := by
  obtain ⟨hindex, -⟩ := List.getElem?_eq_some_iff.mp hx
  have hset : (d.set index x')[index]? = some x' := List.getElem?_set_self hindex
  refine ⟨fun i y hother hy => ?_, fun i t y hcall hy => ?_, fun i t keep y hcall hy => ?_⟩
  · have hne : index ≠ i := fun heq => hother (congrArg some heq)
    exact ⟨y, (List.getElem?_set_ne hne).trans hy, .refl y⟩
  · cases hcall
    cases hx.symm.trans hy
    cases hact
    exact ⟨_, _, hset, ((h x (List.mem_of_getElem? hx)).uniform.spare_acquire t).isFresh⟩
  · cases hcall
    cases hx.symm.trans hy
    cases hact
    exact ⟨_, hset, Pool.pooled_trim x.pool t keep⟩

theorem endThread {t : Thread} (hempty : ∀ x ∈ d, x.pool.stack t = []) :
    d.Orderly (.endThread t) (d.map fun x => x.endThread t) where
  others i x _ hx := by
    refine ⟨x.endThread t, ?_, .of_ended (hempty x (List.mem_of_getElem? hx))⟩
    rw [List.getElem?_map, hx]
    rfl
  acquired := by simp
  trimmed := by simp

end Orderly

theorem orderly_step (h : ∀ x ∈ d, x.Balanced) {call : PoolCall} (hstep : d.step call = some d') :
    d.Orderly call d' := by
  cases call with
  | create bufferCapacity =>
      cases hstep
      exact .create bufferCapacity
  | on index t deed =>
      simp only [step] at hstep
      split at hstep
      · rename_i x hx
        obtain ⟨x', hact, rfl⟩ := Option.map_eq_some_iff.mp hstep
        exact .on h hx hact
      · cases hstep
  | endThread t =>
      simp only [step] at hstep
      split at hstep
      · rename_i hempty
        cases hstep
        exact .endThread fun x hx => List.isEmpty_iff.mp (List.all_eq_true.mp hempty x hx)
      · cases hstep

/-- Whatever is done with pools, what is pooled is what lies on the shared stack and on those of all
threads, and the others of the buffers that were made are the held ones; as long as there are not
more than can be counted, no counter has wrapped around.  All free buffers are fresh and of their
pool's capacity, and so is one that is taken.  A step on one pool changes nothing of another.
Trimming leaves few enough pooled, or none shared, and takes no more than it has to. -/
theorem pools_accounted {calls : List PoolCall} {d : Depot} (hrun : run [] calls = some d) :
    (∀ x ∈ d, x.Accounted) ∧
      ∀ call d', d.step call = some d' → d.Orderly call d' ∧ ∀ x ∈ d', x.Accounted := by
  have h : ∀ x ∈ d, x.Balanced := balanced_run (by simp) hrun
  refine ⟨fun x hx => (h x hx).accounted, fun call d' hstep => ⟨orderly_step h hstep, ?_⟩⟩
  exact fun x hx => (balanced_step h hstep x hx).accounted

/-- Two pools and two threads; a buffer that one of them took is given back by the other. -/
def exchange : List PoolCall :=
  [.create 4, .create 2, .on 0 1 .acquire, .on 0 1 .acquire,
    .on 0 1 (.use 0 ((Buffer.empty 4).write [1, 2])), .on 0 2 (.release 0),
    .on 1 2 (.preallocate 3), .on 0 2 .merge, .endThread 2, .on 1 1 (.trim 1)]

/-- Of the first pool a buffer is held and one is free, of the second one is left. -/
theorem exchange_accounted :
    ∃ d, run [] exchange = some d ∧ (∀ x ∈ d, x.Accounted) ∧
      d.map (fun x => (x.pool.created, x.pool.pooled, x.held.length)) = [(2, 1, 1), (1, 1, 0)] :=
  have hrun : run [] exchange = some _ := rfl
  ⟨_, hrun, (pools_accounted hrun).1, by decide⟩

end Depot

end GameLink
