import GameLink.Proofs.Buffer.Bounds

/-!
# Runs of a buffer

Operations one after the other, each with its accesses guarded, until one of them makes a faulty
access.

**Results.**
* `run_guarded`: an operation is faulty exactly if it reads so many octets that their end has no
  address; any other does what it does without guards.
* `steps_within_bounds`: so it is at every step of a run from a new buffer, and cursor, mark and
  bits are in their places before and after it.
-/

namespace GameLink
namespace Buffer

open Guard

variable {b : Buffer}

namespace Operation

/-- The octets given to an operation, or asked of it as one object, are octets of one object. -/
def Addressable : Operation → Prop
  | .write (.bytes bs) => bs.length < addressLimit
  | .readOctets count => count < addressLimit
  | _ => True

/-- The end of the octets that are asked for has no address. -/
def ReadsPast (b : Buffer) : Operation → Prop
  | .read (.bytes count) => UInt64.size ≤ b.position + count
  | _ => False

/-- Whether an operation only looks at the octets. -/
def looks : Operation → Bool
  | .write _ | .align | .sign | .verify | .seek _ | .reset | .load _ => false
  | _ => true

end Operation

section Items

theorem SafeReader.item {α : Type} {guarded : Buffer → Except Fault (α × Buffer)}
    {read : Buffer → α × Buffer} (h : SafeReader guarded read) (item : α → Item) :
    SafeReader (Guarded.itemOf item guarded) (fun b => (read b).map item id) :=
  h.map item

theorem safe_readItem {kind : Kind} (h : ∀ count, kind ≠ .bytes count) :
    SafeReader (Guarded.readItem kind) (fun b => kind.read b) := by
  cases kind with
  | scalar k => exact (safe_readScalar k).item .scalar
  | bool => exact safe_readBool.item .bool
  | bytes count => exact absurd rfl (h count)
  | varint => exact safe_readVarint.item .varint
  | varlong => exact safe_readVarlong.item .varlong
  | varuint => exact safe_readVaruint.item .varuint
  | varulong => exact safe_readVarulong.item .varulong
  | text => exact safe_readText.item .text
  | ascii => exact safe_readAscii.item .ascii
  | vector => exact safe_readVector.item .vector
  | rotator => exact safe_readRotator.item .rotator
  | wholeVector => exact safe_readWholeVector.item .wholeVector
  | bit => exact safe_readBit.item .bit
  | bits n => exact (safe_readBits n).item .bits

theorem safe_writeItem {item : Item} (h : (Operation.write item).Addressable) :
    SafeWriter (Guarded.writeItem item) (fun b => item.write b) := by
  cases item with
  | scalar v => exact safe_writeScalar v
  | bool v => exact safe_writeBool v
  | bytes v => exact safe_write h
  | varint v => exact safe_writeVarint v
  | varlong v => exact safe_writeVarNat (UInt64.toNat_lt _)
  | varuint v => exact safe_writeVarNat ((UInt32.toNat_lt v).trans (by decide))
  | varulong v => exact safe_writeVarNat (UInt64.toNat_lt v)
  | text v => exact safe_writePrefixed _
  | ascii v => exact safe_writePrefixed _
  | vector v => exact safe_writeComponents v.x v.y v.z
  | rotator v => exact safe_writeComponents v.pitch v.yaw v.roll
  | wholeVector v => exact safe_writeWholeVector v
  | bit v => exact safe_writeBit v
  | bits v => exact safe_writeBits v

end Items

section Operations

/-- An operation is answered, with and without guards alike. -/
structure Served (b : Buffer) (operation : Operation) (answer : Answer) (b' : Buffer) : Prop where
  guarded : Guarded.run b operation = .ok (answer, b')
  unguarded : b.run operation = .ok (answer, b')
  worked : b.Worked b'
  looked : operation.looks = true → b.Looked b'

namespace Served

variable {b' : Buffer} {operation : Operation} {answer : Answer}

theorem of_looked (hguarded : Guarded.run b operation = .ok (answer, b'))
    (hunguarded : b.run operation = .ok (answer, b')) (h : b.Looked b') :
    b.Served operation answer b' :=
  ⟨hguarded, hunguarded, h.worked, fun _ => h⟩

theorem of_worked (hguarded : Guarded.run b operation = .ok (answer, b'))
    (hunguarded : b.run operation = .ok (answer, b')) (h : b.Worked b')
    (hlooks : operation.looks = false) : b.Served operation answer b' :=
  ⟨hguarded, hunguarded, h, fun htrue => absurd (htrue.symm.trans hlooks) (by decide)⟩

theorem of_writer {guarded : Buffer → Except Fault Buffer} {write : Buffer → Buffer}
    (hb : b.Sound) (h : SafeWriter guarded write)
    (hguarded : Guarded.run b operation = (do return (.nothing, ← guarded b)))
    (hunguarded : b.run operation = .ok (.nothing, write b)) (hlooks : operation.looks = false) :
    b.Served operation .nothing (write b) := by
  obtain ⟨hwritten, hworked⟩ := h b hb
  refine of_worked ?_ hunguarded hworked hlooks
  rw [hguarded, hwritten]
  rfl

end Served

/-- Reading octets is faulty exactly if their end has no address. -/
theorem readBytes_guarded (hb : b.Sound) (count : Nat) :
    (UInt64.size ≤ b.position + count ∧
      Guarded.run b (.read (.bytes count)) = .error .overflow) ∨
    (b.position + count < UInt64.size ∧
      ∃ answer b', b.Served (.read (.bytes count)) answer b') := by
  rcases Nat.lt_or_ge (b.position + count) UInt64.size with hlt | hle
  · right
    obtain ⟨hread, hlooked⟩ := read?_guarded hb hlt
    have hboth : Guarded.readBytes count b = .ok (b.readBytes count) ∧
        b.Looked (b.readBytes count).2 := by
      simp only [Guarded.readBytes, hread, ok_bind, readBytes]
      generalize b.read? count = outcome at hlooked ⊢
      obtain ⟨_ | bs, rest⟩ := outcome
      · exact ⟨rfl, hlooked⟩
      · exact ⟨rfl, hlooked⟩
    refine ⟨hlt, .item (.bytes (b.readBytes count).1), (b.readBytes count).2,
      .of_looked ?_ ?_ hboth.2⟩
    · simp only [Guarded.run, Guarded.readItem, Guarded.itemOf, hboth.1, ok_bind]
      rfl
    · simp only [run, if_neg (Nat.not_le.mpr hlt)]
      rfl
  · left
    refine ⟨hle, ?_⟩
    simp only [Guarded.run, Guarded.readItem, Guarded.itemOf, Guarded.readBytes, Guarded.read?,
      Guarded.peek?, Guarded.holds, sum_of_le hle, error_bind]

theorem served_of_not_readsPast {operation : Operation} (hb : b.Sound)
    (hoperation : operation.Addressable) (hpast : ∀ count, operation ≠ .read (.bytes count)) :
    ∃ answer b', b.Served operation answer b' := by
  cases operation with
  | write item => exact ⟨_, _, .of_writer hb (safe_writeItem hoperation) rfl rfl rfl⟩
  | read kind =>
      have hkind : ∀ count, kind ≠ .bytes count := fun count h => hpast count (by rw [h])
      obtain ⟨hguarded, hlooked⟩ := safe_readItem hkind b hb
      refine ⟨.item (kind.read b).1, (kind.read b).2, .of_looked ?_ ?_ hlooked⟩
      · simp only [Guarded.run, hguarded, ok_bind]
        rfl
      · cases kind with
        | bytes count => exact absurd rfl (hkind count)
        | _ => rfl
  | readOctets count =>
      obtain ⟨hguarded, hlooked⟩ := safe_readOctets hoperation b hb
      refine ⟨.bytes (b.readOctets count).1.bytes, (b.readOctets count).2,
        .of_looked ?_ rfl hlooked⟩
      simp only [Guarded.run, hguarded, ok_bind]
      rfl
  | peek kind =>
      refine ⟨_, _, .of_looked ?_ rfl (.refl hb)⟩
      simp only [Guarded.run, Guarded.peekScalar, peek?_guarded hb (hb.add_lt_size (width_lt kind)),
        ok_bind]
      rfl
  | align => exact ⟨_, _, .of_writer hb safe_align rfl rfl rfl⟩
  | sign => exact ⟨_, _, .of_writer hb safe_sign rfl rfl rfl⟩
  | signature =>
      refine ⟨_, _, .of_looked ?_ rfl (.refl hb)⟩
      simp only [Guarded.run, signature_guarded hb, ok_bind]
      rfl
  | verify =>
      cases hverify : b.verify with
      | error failure =>
          refine ⟨.verified (some failure), b, .of_worked ?_ ?_ (.refl hb) rfl⟩
          · simp only [Guarded.run, verify_guarded hb, hverify, ok_bind]
            rfl
          · simp only [run, hverify]
      | ok rest =>
          refine ⟨.verified none, rest, .of_worked ?_ ?_ (sound_of_verify hb hverify) rfl⟩
          · simp only [Guarded.run, verify_guarded hb, hverify, ok_bind]
            rfl
          · simp only [run, hverify]
  | digest =>
      refine ⟨_, _, .of_looked ?_ rfl (.refl hb)⟩
      simp only [Guarded.run, Guarded.digest, contents_guarded hb, ok_bind]
      rfl
  | hex =>
      refine ⟨_, _, .of_looked ?_ rfl (.refl hb)⟩
      simp only [Guarded.run, toHex_guarded hb, ok_bind]
      rfl
  | seek position => exact ⟨_, _, .of_worked rfl rfl ⟨rfl, hb.seek position⟩ rfl⟩
  | reset => exact ⟨_, _, .of_worked rfl rfl ⟨rfl, hb.reset⟩ rfl⟩
  | load bytes => exact ⟨_, _, .of_writer hb (safe_load bytes) rfl rfl rfl⟩
  | unread =>
      refine ⟨_, _, .of_looked ?_ rfl (.refl hb)⟩
      simp only [Guarded.run, unread_guarded hb, ok_bind]
      rfl
  | contents =>
      refine ⟨_, _, .of_looked ?_ rfl (.refl hb)⟩
      simp only [Guarded.run, contents_guarded hb, ok_bind]
      rfl
  | remaining | isEmpty | copy | describe => exact ⟨_, _, .of_looked rfl rfl (.refl hb)⟩

/-- An operation is faulty exactly if it reads octets whose end has no address. -/
theorem run_guarded {operation : Operation} (hb : b.Sound) (hoperation : operation.Addressable) :
    (operation.ReadsPast b ∧ Guarded.run b operation = .error .overflow) ∨
    (¬ operation.ReadsPast b ∧ ∃ answer b', b.Served operation answer b') := by
  by_cases hcount : ∃ count, operation = .read (.bytes count)
  · obtain ⟨count, rfl⟩ := hcount
    rcases readBytes_guarded hb count with hpast | ⟨hlt, hserved⟩
    · exact Or.inl hpast
    · exact Or.inr ⟨Nat.not_le.mpr hlt, hserved⟩
  · have hpast : ¬ operation.ReadsPast b := by
      intro h
      unfold Operation.ReadsPast at h
      split at h
      · exact hcount ⟨_, rfl⟩
      · exact h
    exact Or.inr ⟨hpast, served_of_not_readsPast hb hoperation fun count h => hcount ⟨count, h⟩⟩

end Operations

section Runs

/-- An operation in a run. -/
structure Step where
  before : Buffer
  operation : Operation
  outcome : Except Fault (Answer × Buffer)

/-- The steps of a run, up to a faulty one. -/
def steps (b : Buffer) : List Operation → List Step
  | [] => []
  | operation :: rest =>
      ⟨b, operation, Guarded.run b operation⟩ ::
        match Guarded.run b operation with
        | .ok (_, b') => steps b' rest
        | .error _ => []

/-- What a step of a buffer of some capacity comes to. -/
structure Step.WithinBounds (size : Nat) (step : Step) : Prop where
  sound : step.before.Sound
  capacity : step.before.capacity = size
  outcome :
    (step.operation.ReadsPast step.before ∧ step.outcome = .error .overflow) ∨
    (¬ step.operation.ReadsPast step.before ∧
      ∃ answer after, step.outcome = .ok (answer, after) ∧
        step.before.run step.operation = .ok (answer, after) ∧
        after.Sound ∧ after.capacity = size ∧
        (step.operation.looks = true →
          after.contents = step.before.contents ∧ after.length = step.before.length))

theorem steps_of_sound (hb : b.Sound) {ops : List Operation} (hops : ∀ op ∈ ops, op.Addressable) :
    (∀ step ∈ b.steps ops, step.WithinBounds b.capacity) ∧
      ((∀ step ∈ b.steps ops, ¬ step.operation.ReadsPast step.before) →
        (b.steps ops).map Step.operation = ops) := by
  induction ops generalizing b with
  | nil => simp [steps]
  | cons op rest ih =>
      obtain ⟨hop, hrest⟩ := List.forall_mem_cons.mp hops
      rcases run_guarded hb hop with ⟨hpast, hfault⟩ | ⟨hpast, answer, b', hserved⟩
      · simp only [steps, hfault, List.forall_mem_singleton]
        exact ⟨⟨hb, rfl, Or.inl ⟨hpast, rfl⟩⟩, fun hnone => absurd hpast hnone⟩
      · obtain ⟨hsteps, hall⟩ := ih hserved.worked.sound hrest
        rw [hserved.worked.capacity] at hsteps
        have hfirst : Step.WithinBounds b.capacity ⟨b, op, .ok (answer, b')⟩ := by
          refine ⟨hb, rfl, Or.inr ⟨hpast, answer, b', rfl, hserved.unguarded,
            hserved.worked.sound, hserved.worked.capacity, fun hlooks => ?_⟩⟩
          exact ⟨(hserved.looked hlooks).contents_eq, (hserved.looked hlooks).length⟩
        simp only [steps, hserved.guarded, List.forall_mem_cons, List.map_cons]
        exact ⟨⟨hfirst, hsteps⟩, fun hnone => congrArg (op :: ·) (hall hnone.2)⟩

/-- Whatever is done to a new buffer, at every step cursor, mark and bits are in their places and
the capacity is that of the start.  A step makes a faulty access exactly if it reads so many octets
that their end has no address, and that is where the run ends; any other step is answered as
without guards, and if it only looks at the octets, they stay. -/
theorem steps_within_bounds
    (b : Buffer) (hnew : (∃ capacity, b = empty capacity) ∨ ∃ bs, b = ofBytes bs)
    (hsize : b.capacity < addressLimit)
    (ops : List Operation) (hops : ∀ op ∈ ops, op.Addressable) :
    (∀ step ∈ b.steps ops, step.WithinBounds b.capacity) ∧
      ((∀ step ∈ b.steps ops, ¬ step.operation.ReadsPast step.before) →
        (b.steps ops).map Step.operation = ops) := by
  have hb : b.Sound := by
    rcases hnew with ⟨capacity, rfl⟩ | ⟨bs, rfl⟩
    · exact .empty (capacity_empty capacity ▸ hsize)
    · exact .ofBytes hsize
  exact steps_of_sound hb hops

/-- One octet is read, then as many as can be asked for. -/
def hugeRead : List Operation :=
  [.read (.scalar .u8), .read (.bytes (UInt64.size - 1))]

/-- The end of so many octets behind the first has no address. -/
theorem huge_read_overflows :
    (ofBytes [1, 2]).capacity < addressLimit ∧ (∀ op ∈ hugeRead, op.Addressable) ∧
      ∃ step ∈ (ofBytes [1, 2]).steps hugeRead,
        step.operation = .read (.bytes (UInt64.size - 1)) ∧ step.before.position = 1 ∧
          step.outcome = .error .overflow := by
  have hsize : (ofBytes [1, 2]).capacity < addressLimit := by decide
  have hops : ∀ op ∈ hugeRead, op.Addressable := by
    simp [hugeRead, Operation.Addressable]
  have hpast : Operation.ReadsPast ((ofBytes [1, 2]).advance 1)
      (.read (.bytes (UInt64.size - 1))) :=
    (show 1 + (UInt64.size - 1) = UInt64.size by decide).ge
  have hfirst : Guarded.run (ofBytes [1, 2]) (.read (.scalar .u8)) =
      .ok (.item (.scalar (.u8 1)), (ofBytes [1, 2]).advance 1) := rfl
  have hmem : (⟨(ofBytes [1, 2]).advance 1, .read (.bytes (UInt64.size - 1)),
      Guarded.run ((ofBytes [1, 2]).advance 1) (.read (.bytes (UInt64.size - 1)))⟩ : Step) ∈
        (ofBytes [1, 2]).steps hugeRead := by
    simp only [steps, hugeRead, hfirst]
    exact List.mem_cons_of_mem _ List.mem_cons_self
  obtain ⟨hsteps, -⟩ := steps_within_bounds (ofBytes [1, 2]) (.inr ⟨_, rfl⟩) hsize hugeRead hops
  rcases (hsteps _ hmem).outcome with ⟨-, hfault⟩ | ⟨hnot, -⟩
  · exact ⟨hsize, hops, _, hmem, rfl, rfl, hfault⟩
  · exact absurd hpast hnot

end Runs

end Buffer
end GameLink
