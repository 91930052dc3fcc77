import GameLink.Proofs.Buffer.Forgetting
import GameLink.Proofs.Buffer.Octets
import Mathlib.Algebra.Ring.Nat

/-!
# Passes over a buffer

A pass reads some values one after the other, or goes on to the next octet.  It writes nothing;
it moves the cursor, and the place in the octet that bits are being read from.

**Results.**
* `run_loading`: reading a value other than bits does not depend on the bits left over.
* `run_bits`, `passes_readBits`: what reading bits depends on and what it moves.
* `kept_of_finish`, `exists_finish`: a pass writes nothing, and nothing in it is refused.
-/

namespace GameLink
namespace Buffer

variable {b b' b'' : Buffer}

section PassOperations

namespace Operation

/-- How many bits an operation reads. -/
def bitCount : Operation → Nat
  | .read kind => kind.bitCount
  | _ => 0

/-- At most how many octets an operation reads. -/
def reach : Operation → Nat
  | .read kind => kind.reach
  | .readOctets count => count
  | _ => 0

/-- Whether an operation reads a value other than bits. -/
def readsOctets : Operation → Bool
  | .read kind => kind.bitCount == 0
  | .readOctets _ | .peek _ => true
  | _ => false

/-- Operations of a pass: they read a value, or go on to the next octet. -/
inductive Reading : Operation → Prop
  | octets {op : Operation} (h : op.readsOctets = true) : Reading op
  | bits {op : Operation} (h : 0 < op.bitCount) : Reading op
  | align : Reading .align

/-- The place in the loaded octet after an operation. -/
def bitIndex (index : Nat) : Operation → Nat
  | .align => 0
  | op => (index + op.bitCount) % 8

theorem bitIndex_lt (op : Operation) (index : Nat) : op.bitIndex index < 8 := by
  cases op with
  | align => exact Nat.zero_lt_succ 7
  | _ => exact Nat.mod_lt _ (Nat.zero_lt_succ 7)

end Operation

/-- The place in the loaded octet after a pass. -/
def bitIndexAfter (index : Nat) (ops : List Operation) : Nat :=
  ops.foldl Operation.bitIndex index

/-- Whether a pass reads a bit before it goes on to the next octet. -/
def beginsInBits : List Operation → Bool
  | [] => false
  | .align :: _ => false
  | op :: ops => decide (0 < op.bitCount) || beginsInBits ops

theorem bitIndexAfter_lt {index : Nat} (h : index < 8) (ops : List Operation) :
    bitIndexAfter index ops < 8 := by
  induction ops generalizing index with
  | nil => exact h
  | cons op ops ih => exact ih (op.bitIndex_lt index)

/-- The buffer after a pass, if nothing is refused. -/
def finish? (b : Buffer) : List Operation → Option Buffer
  | [] => some b
  | op :: ops =>
      match b.run op with
      | .ok (_, rest) => finish? rest ops
      | .error _ => none

/-- From one buffer to the next nothing was written, not even a bit that waits. -/
structure Kept (b b' : Buffer) : Prop where
  storage : b'.storage = b.storage
  length : b'.length = b.length
  pendingBits : b'.pendingBits = b.pendingBits
  pendingCount : b'.pendingCount = b.pendingCount

theorem Kept.refl (b : Buffer) : b.Kept b :=
  ⟨rfl, rfl, rfl, rfl⟩

theorem Kept.trans (h : b.Kept b') (h' : b'.Kept b'') : b.Kept b'' :=
  ⟨h'.storage.trans h.storage, h'.length.trans h.length, h'.pendingBits.trans h.pendingBits,
    h'.pendingCount.trans h.pendingCount⟩

theorem Kept.contents_eq (h : b.Kept b') : b'.contents = b.contents := by
  rw [contents, contents, h.storage, h.length]

/-- An operation that reads a value other than bits, and where it is refused. -/
structure ReadAs (op : Operation) (read : Buffer → Answer × Buffer) (refused : Nat → Bool) :
    Prop where
  octets : OctetReader read op.reach
  contents : ContentReader read
  run_eq : ∀ b : Buffer, b.run op = if refused b.position then .error .exhausted else .ok (read b)
  reach_le : ∀ place, refused place = true → UInt64.size ≤ place + op.reach

theorem exists_readAs {op : Operation} (h : op.readsOctets = true) :
    ∃ read refused, ReadAs op read refused := by
  have hnever {op : Operation} (read : Buffer → Answer × Buffer)
      (hoctets : OctetReader read op.reach) (hcontents : ContentReader read)
      (hrun : ∀ b : Buffer, b.run op = .ok (read b)) : ∃ read refused, ReadAs op read refused :=
    ⟨read, fun _ => false, hoctets, hcontents, hrun, fun _ hfalse => by cases hfalse⟩
  cases op with
  | read kind =>
      have hbits : kind.bitCount = 0 := by simpa [Operation.readsOctets] using h
      have hoctets := (octetReader_kind hbits).map Answer.item
      have hcontents := (contentReader_kind kind).map Answer.item
      by_cases hbytes : ∃ count, kind = .bytes count
      · obtain ⟨count, rfl⟩ := hbytes
        refine ⟨_, fun place => decide (UInt64.size ≤ place + count), hoctets, hcontents,
          fun b => ?_, fun _ hle => of_decide_eq_true hle⟩
        simp only [run, decide_eq_true_eq]
      · refine hnever _ hoctets hcontents fun b => ?_
        cases kind with
        | bytes count => exact absurd ⟨count, rfl⟩ hbytes
        | _ => rfl
  | readOctets count =>
      exact hnever _ ((octetReader_readOctets count).map fun octets => Answer.bytes octets.bytes)
        ((contentReader_readOctets count).map fun octets => Answer.bytes octets.bytes) fun b => rfl
  | peek kind =>
      refine hnever (fun b => (.item (.scalar (b.peekScalar kind)), b))
        ⟨fun _ _ => rfl, fun _ => Nat.le_refl _⟩ (fun b => ⟨.refl b, fun s hs => ?_⟩) fun b => rfl
      simp only [peekScalar, peek?_onto _ hs]
      rfl
  | _ => cases h

namespace ReadAs

variable {op : Operation} {read : Buffer → Answer × Buffer} {refused : Nat → Bool}

theorem run_withBits (h : ReadAs op read refused) (b bits : Buffer) :
    (b.withBits bits).run op =
      (b.run op).map fun (answer, rest) => (answer, rest.withBits bits) := by
  have hplace : (b.withBits bits).position = b.position := rfl
  rw [h.run_eq, h.run_eq, hplace, h.octets.blind]
  split <;> rfl

theorem eq_of_run (h : ReadAs op read refused) {answer : Answer}
    (hrun : b.run op = .ok (answer, b')) : read b = (answer, b') := by
  rw [h.run_eq] at hrun
  split at hrun
  · cases hrun
  · exact Except.ok.inj hrun

theorem kept (h : ReadAs op read refused) {answer : Answer} (hrun : b.run op = .ok (answer, b')) :
    b.Kept b' ∧ b'.loadedBits = b.loadedBits ∧ b'.loadedCount = b.loadedCount := by
  have hread := h.eq_of_run hrun
  have hperused := (h.contents b).1
  have huntouched := h.octets.untouched b
  rw [hread] at hperused huntouched
  exact ⟨⟨hperused.storage, hperused.length, (congrArg pendingBits huntouched).symm,
      (congrArg pendingCount huntouched).symm⟩,
    (congrArg loadedBits huntouched).symm, (congrArg loadedCount huntouched).symm⟩

end ReadAs

/-- Reading a value other than bits does not depend on the bits left over, and keeps them. -/
theorem run_loading {op : Operation} (h : op.readsOctets = true) (b : Buffer) (octet : UInt8)
    (index : Nat) :
    (b.loading octet index).run op =
      (b.run op).map fun (answer, rest) => (answer, rest.loading octet index) := by
  obtain ⟨read, refused, hread⟩ := exists_readAs h
  have hloading : b.loading octet index = b.withBits (b.loading octet index) := rfl
  rw [hloading, hread.run_withBits]
  cases hrun : b.run op with
  | error failure => rfl
  | ok outcome =>
      obtain ⟨answer, after⟩ := outcome
      obtain ⟨hkept, -, -⟩ := hread.kept hrun
      have hrest : after.withBits (b.loading octet index) = after.loading octet index := by
        simp only [withBits, loading, hkept.pendingBits, hkept.pendingCount]
      exact congrArg (fun rest => Except.ok (answer, rest)) hrest

end PassOperations

section Bits

theorem readBit_eq (b : Buffer) :
    b.readBit =
      ( (if b.loadedCount = 0 then b.readU8 else (b.loadedBits, b)).1.toNat.testBit b.loadedCount,
        (if b.loadedCount = 0 then b.readU8 else (b.loadedBits, b)).2.loading
          (if b.loadedCount = 0 then b.readU8 else (b.loadedBits, b)).1
          ((b.loadedCount + 1) % 8) ) :=
  rfl

theorem readBit_of_zero (h : b.loadedCount = 0) : b.readBit.1 = b.readU8.1.toNat.testBit 0 := by
  simp only [readBit, h, if_true]

theorem readBit_of_ne_zero (h : b.loadedCount ≠ 0) :
    b.readBit.1 = b.loadedBits.toNat.testBit b.loadedCount := by
  simp only [readBit, h, if_false]

/-- At the end of an octet the bits left over are not looked at. -/
theorem readBit_loading_zero (b : Buffer) (octet other : UInt8) :
    (b.loading octet 0).readBit = (b.loading other 0).readBit := by
  have hread (v : UInt8) : (b.loading v 0).readU8 = b.readU8.map id (·.withBits (b.loading v 0)) :=
    octetReader_readU8.blind b (b.loading v 0)
  simp only [readBit_eq, show (b.loading octet 0).loadedCount = 0 from rfl,
    show (b.loading other 0).loadedCount = 0 from rfl, if_true, hread]
  rfl

/-- From one buffer to the next some octets at most were read, and so many bits. -/
structure Passes (b : Buffer) (reach bits : Nat) (b' : Buffer) : Prop where
  kept : b.Kept b'
  position_le : b'.position ≤ b.position + reach
  loadedCount : b.loadedCount < 8 → b'.loadedCount = (b.loadedCount + bits) % 8

theorem passes_readBit (b : Buffer) : b.Passes 1 1 b.readBit.2 := by
  rw [readBit_eq]
  by_cases hzero : b.loadedCount = 0
  · simp only [if_pos hzero]
    have hperused := (contentReader_readU8 b).1
    have huntouched := octetReader_readU8.untouched b
    exact ⟨⟨hperused.storage, hperused.length, (congrArg pendingBits huntouched).symm,
      (congrArg pendingCount huntouched).symm⟩, octetReader_readU8.position_le b, fun _ => rfl⟩
  · simp only [if_neg hzero]
    exact ⟨⟨rfl, rfl, rfl, rfl⟩, Nat.le_add_right _ _, fun _ => rfl⟩

theorem passes_readBits (n : Nat) (b : Buffer) : b.Passes n n (readBits n b).2 := by
  induction n generalizing b with
  | zero => exact ⟨.refl b, Nat.le_refl _, fun h => (Nat.mod_eq_of_lt h).symm⟩
  | succ n ih =>
      have hfirst := passes_readBit b
      have hrest := ih b.readBit.2
      rw [readBits_succ]
      refine ⟨hfirst.kept.trans hrest.kept, ?_, fun h => ?_⟩
      · have hone := hfirst.position_le
        have hmore := hrest.position_le
        simp only
        omega
      · have hone := hfirst.loadedCount h
        have hmore := hrest.loadedCount (hone ▸ Nat.mod_lt _ (by omega))
        simp only
        omega

/-- The first bit of an answer. -/
def Answer.firstBit : Answer → Option Bool
  | .item (.bit v) => some v
  | .item (.bits (v :: _)) => some v
  | _ => none

/-- Reading bits is never refused, and begins with the bit that is due. -/
theorem run_bits {op : Operation} (h : 0 < op.bitCount) (b : Buffer) :
    ∃ answer, b.run op = .ok (answer, (readBits op.bitCount b).2) ∧
      answer.firstBit = some b.readBit.1 := by
  cases op with
  | read kind =>
      cases kind with
      | bit => exact ⟨.item (.bit b.readBit.1), rfl, rfl⟩
      | bits count =>
          obtain ⟨n, rfl⟩ := Nat.exists_eq_add_of_lt h
          rw [Nat.zero_add] at h ⊢
          exact ⟨.item (.bits (readBits (n + 1) b).1), rfl, rfl⟩
      | _ => cases h
  | _ => cases h

/-- From the same bit on, the same bits are read. -/
theorem run_bits_congr {op : Operation} (h : 0 < op.bitCount) (hbit : b.readBit = b'.readBit) :
    b.run op = b'.run op := by
  cases op with
  | read kind =>
      cases kind with
      | bit => simp only [run, Kind.read, hbit]
      | bits count =>
          obtain ⟨n, rfl⟩ := Nat.exists_eq_add_of_lt h
          simp only [run, Kind.read, readBits_succ, hbit]
      | _ => cases h
  | _ => cases h

theorem align_loading (hpending : b.pendingCount = 0) (octet : UInt8) (index : Nat) :
    (b.loading octet index).align = b.align := by
  rw [align_of_stored hpending, align_of_stored (b := b.loading octet index) hpending]
  rfl

end Bits

section OnePass

namespace Operation

variable {op : Operation}

theorem bitIndex_of_octets (h : op.readsOctets = true) {index : Nat} (hindex : index < 8) :
    op.bitIndex index = index := by
  cases op with
  | read kind =>
      have hnone : kind.bitCount = 0 := by simpa [readsOctets] using h
      simp only [bitIndex, bitCount, hnone, Nat.add_zero, Nat.mod_eq_of_lt hindex]
  | readOctets | peek => exact Nat.mod_eq_of_lt hindex
  | _ => cases h

theorem bitIndex_of_bits (h : 0 < op.bitCount) (index : Nat) :
    op.bitIndex index = (index + op.bitCount) % 8 := by
  cases op with
  | align => cases h
  | _ => rfl

theorem reach_of_bits (h : 0 < op.bitCount) : op.reach = op.bitCount := by
  cases op with
  | read kind =>
      cases kind with
      | bit | bits => rfl
      | _ => cases h
  | _ => cases h

theorem beginsInBits_of_octets (h : op.readsOctets = true) (ops : List Operation) :
    beginsInBits (op :: ops) = beginsInBits ops := by
  cases op with
  | read kind =>
      have hnone : kind.bitCount = 0 := by simpa [readsOctets] using h
      simp [beginsInBits, bitCount, hnone]
  | readOctets | peek => rfl
  | _ => cases h

theorem beginsInBits_of_bits (h : 0 < op.bitCount) (ops : List Operation) :
    beginsInBits (op :: ops) = true := by
  cases op with
  | align => cases h
  | _ => simp only [beginsInBits, decide_eq_true h, Bool.true_or]

end Operation

variable {ops : List Operation} {octet : UInt8} {index : Nat}

/-- What an operation of a pass does besides its answer. -/
theorem passes_of_run {op : Operation} (hop : op.Reading) (hpending : b.pendingCount = 0)
    (hcount : b.loadedCount < 8) {answer : Answer} (hrun : b.run op = .ok (answer, b')) :
    b.Kept b' ∧ b'.loadedCount = op.bitIndex b.loadedCount ∧
      b'.position ≤ b.position + op.reach := by
  cases hop with
  | octets h =>
      obtain ⟨read, refused, hread⟩ := exists_readAs h
      obtain ⟨hkept, -, hloaded⟩ := hread.kept hrun
      have hposition := hread.octets.position_le b
      rw [hread.eq_of_run hrun] at hposition
      exact ⟨hkept, hloaded.trans (Operation.bitIndex_of_octets h hcount).symm, hposition⟩
  | bits h =>
      obtain ⟨_, hbits, -⟩ := run_bits h b
      rw [hbits] at hrun
      cases hrun
      obtain ⟨hkept, hposition, hloaded⟩ := passes_readBits op.bitCount b
      rw [Operation.bitIndex_of_bits h, Operation.reach_of_bits h]
      exact ⟨hkept, hloaded hcount, hposition⟩
  | align =>
      cases hrun
      rw [align_of_stored hpending]
      exact ⟨⟨rfl, rfl, rfl, rfl⟩, rfl, Nat.le_refl _⟩

/-- Nothing is refused in front of the last address. -/
theorem exists_run {op : Operation} (hop : op.Reading)
    (hroom : b.position + op.reach < UInt64.size) :
    ∃ answer rest, b.run op = .ok (answer, rest) := by
  cases hop with
  | octets h =>
      obtain ⟨read, refused, hread⟩ := exists_readAs h
      have hserved : ¬ refused b.position = true := fun hrefused =>
        absurd (hread.reach_le _ hrefused) (Nat.not_le.mpr hroom)
      rw [hread.run_eq, if_neg hserved]
      exact ⟨_, _, rfl⟩
  | bits h =>
      obtain ⟨answer, hbits, -⟩ := run_bits h b
      exact ⟨answer, _, hbits⟩
  | align => exact ⟨_, _, rfl⟩

theorem finish?_cons_eq_some {op : Operation} (h : b.finish? (op :: ops) = some b'') :
    ∃ answer b', b.run op = .ok (answer, b') ∧ b'.finish? ops = some b'' := by
  rw [finish?] at h
  split at h
  · rename_i answer rest hrun
    exact ⟨answer, rest, hrun, h⟩
  · cases h

theorem observe_cons_of_run {op : Operation} {answer : Answer} (h : b.run op = .ok (answer, b')) :
    b.observe (op :: ops) = .ok (answer, b'.contents) :: b'.observe ops := by
  rw [observe, h]

/-- A pass writes nothing, and its bits alone move the place in the loaded octet. -/
theorem kept_of_finish (hops : ∀ op ∈ ops, op.Reading) (hpending : b.pendingCount = 0)
    (hcount : b.loadedCount < 8) (h : b.finish? ops = some b') :
    b.Kept b' ∧ b'.loadedCount = bitIndexAfter b.loadedCount ops := by
  induction ops generalizing b with
  | nil =>
      cases h
      exact ⟨.refl _, rfl⟩
  | cons op ops ih =>
      obtain ⟨hop, hrest⟩ := List.forall_mem_cons.mp hops
      obtain ⟨answer, rest, hrun, hfinish⟩ := finish?_cons_eq_some h
      obtain ⟨hkept, hindex, -⟩ := passes_of_run hop hpending hcount hrun
      obtain ⟨hagain, hafter⟩ := ih hrest (hkept.pendingCount.trans hpending)
        (hindex ▸ op.bitIndex_lt _) hfinish
      refine ⟨hkept.trans hagain, ?_⟩
      rw [hafter, hindex]
      rfl

theorem exists_finish (hops : ∀ op ∈ ops, op.Reading) (hpending : b.pendingCount = 0)
    (hcount : b.loadedCount < 8)
    (hroom : b.position + (ops.map Operation.reach).sum < UInt64.size) :
    ∃ b', b.finish? ops = some b' := by
  induction ops generalizing b with
  | nil => exact ⟨b, rfl⟩
  | cons op ops ih =>
      obtain ⟨hop, hrest⟩ := List.forall_mem_cons.mp hops
      rw [List.map_cons, List.sum_cons] at hroom
      obtain ⟨answer, rest, hrun⟩ := exists_run (b := b) hop (by omega)
      obtain ⟨hkept, hindex, hposition⟩ := passes_of_run hop hpending hcount hrun
      obtain ⟨b', hfinish⟩ := ih hrest (hkept.pendingCount.trans hpending)
        (hindex ▸ op.bitIndex_lt _) (by omega)
      refine ⟨b', ?_⟩
      rw [finish?, hrun]
      exact hfinish

end OnePass

end Buffer
end GameLink
