import GameLink.Proofs.Buffer.Bounds
import GameLink.Proofs.Buffer.Passes

/-!
# Seeking back and reading again

Seeking puts the cursor back, and not the place in the octet that bits are being read from.  So
the bits that a second pass begins with are those that the first one left over.

**Results.**
* `observe_loading`, `observe_loading_zero`: passes that do not see the bits left over.
* `exists_not_rereads`: any other pass gives something else the second time, on some buffer.
* `reread_exact`: when seeking back and reading again gives the same.
-/

namespace GameLink
namespace Buffer

variable {b b' : Buffer} {ops : List Operation} {octet : UInt8} {index : Nat}

section TwoPasses

/-- The bits left over are not seen by a pass that goes on to the next octet before it reads a
bit. -/
theorem observe_loading (hops : ∀ op ∈ ops, op.Reading) (hpending : b.pendingCount = 0)
    (hcount : b.loadedCount < 8) (h : beginsInBits ops = false) (octet : UInt8) (index : Nat) :
    (b.loading octet index).observe ops = b.observe ops := by
  induction ops generalizing b with
  | nil => rfl
  | cons op ops ih =>
      obtain ⟨hop, hrest⟩ := List.forall_mem_cons.mp hops
      cases hop with
      | octets hoctets =>
          rw [Operation.beginsInBits_of_octets hoctets] at h
          rw [observe, observe, run_loading hoctets]
          cases hrun : b.run op with
          | error failure => rfl
          | ok outcome =>
              obtain ⟨answer, after⟩ := outcome
              obtain ⟨hkept, hindex, -⟩ := passes_of_run (.octets hoctets) hpending hcount hrun
              have hsame := ih hrest (hkept.pendingCount.trans hpending)
                (hindex ▸ op.bitIndex_lt _) h
              exact congrArg (Except.ok (answer, after.contents) :: ·) hsame
      | bits hbits =>
          rw [Operation.beginsInBits_of_bits hbits] at h
          cases h
      | align =>
          simp only [observe, run, align_loading hpending]

/-- Between two octets nothing is left over that a pass could see. -/
theorem observe_loading_zero (hops : ∀ op ∈ ops, op.Reading) (hpending : b.pendingCount = 0)
    (hcount : b.loadedCount < 8) (octet other : UInt8) :
    (b.loading octet 0).observe ops = (b.loading other 0).observe ops := by
  induction ops generalizing b with
  | nil => rfl
  | cons op ops ih =>
      obtain ⟨hop, hrest⟩ := List.forall_mem_cons.mp hops
      cases hop with
      | octets hoctets =>
          rw [observe, observe, run_loading hoctets, run_loading hoctets]
          cases hrun : b.run op with
          | error failure => rfl
          | ok outcome =>
              obtain ⟨answer, after⟩ := outcome
              obtain ⟨hkept, hindex, -⟩ := passes_of_run (.octets hoctets) hpending hcount hrun
              have hsame := ih hrest (hkept.pendingCount.trans hpending)
                (hindex ▸ op.bitIndex_lt _)
              exact congrArg (Except.ok (answer, after.contents) :: ·) hsame
      | bits hbits =>
          rw [observe, observe, run_bits_congr hbits (readBit_loading_zero b octet other)]
      | align =>
          simp only [observe, run, align_loading hpending]

/-- If the bits left over change the bit that is due wherever the pass can come to read its
first, they change what the pass sees. -/
theorem observe_loading_ne (hops : ∀ op ∈ ops, op.Reading) (hpending : b.pendingCount = 0)
    (hcount : b.loadedCount < 8) (h : beginsInBits ops = true) (hfinish : b.finish? ops = some b')
    (hdue : ∀ r, b.Kept r → r.loadedBits = b.loadedBits → r.loadedCount = b.loadedCount →
      r.position < b.position + (ops.map Operation.reach).sum →
      (r.loading octet index).readBit.1 ≠ r.readBit.1) :
    (b.loading octet index).observe ops ≠ b.observe ops := by
  induction ops generalizing b with
  | nil => cases h
  | cons op ops ih =>
      obtain ⟨hop, hrest⟩ := List.forall_mem_cons.mp hops
      obtain ⟨answer, rest, hrun, hafter⟩ := finish?_cons_eq_some hfinish
      rw [List.map_cons, List.sum_cons] at hdue
      cases hop with
      | octets hoctets =>
          rw [Operation.beginsInBits_of_octets hoctets] at h
          obtain ⟨read, refused, hread⟩ := exists_readAs hoctets
          obtain ⟨hkept, hbits, hloaded⟩ := hread.kept hrun
          obtain ⟨-, -, hposition⟩ := passes_of_run (.octets hoctets) hpending hcount hrun
          have hother :
              (b.loading octet index).run op = .ok (answer, rest.loading octet index) := by
            rw [run_loading hoctets, hrun]
            rfl
          rw [observe_cons_of_run hrun, observe_cons_of_run hother]
          intro heq
          refine ih hrest (hkept.pendingCount.trans hpending) (hloaded ▸ hcount) h hafter ?_
            (List.cons.inj heq).2
          intro r hr hrbits hrcount hrposition
          exact hdue r (hkept.trans hr) (hrbits.trans hbits) (hrcount.trans hloaded) (by omega)
      | bits hbits =>
          obtain ⟨first, hfirst, hbit⟩ := run_bits hbits b
          obtain ⟨second, hsecond, hagain⟩ := run_bits hbits (b.loading octet index)
          rw [observe_cons_of_run hfirst, observe_cons_of_run hsecond]
          intro heq
          have hanswers : second = first :=
            (Prod.mk.inj (Except.ok.inj (List.cons.inj heq).1)).1
          rw [hanswers, hbit] at hagain
          have hreach := Operation.reach_of_bits hbits
          exact hdue b (.refl b) rfl rfl (by omega) (Option.some.inj hagain).symm
      | align => cases h

/-- Behind the bit that is due, no bit of the loaded octet is set. -/
def Waning (b : Buffer) : Prop :=
  b.loadedCount ≠ 0 → ∀ i, b.loadedCount < i → b.loadedBits.toNat.testBit i = false

/-- From the bit that is due on, no bit of the loaded octet is set. -/
def Spent (b : Buffer) : Prop :=
  b.loadedCount ≠ 0 → ∀ i, b.loadedCount ≤ i → b.loadedBits.toNat.testBit i = false

theorem Spent.waning (h : b.Spent) : b.Waning :=
  fun hcount i hi => h hcount i hi.le

theorem readU8_ones {n : Nat} (hstorage : b.storage = List.replicate n 1) (hlength : b.length = n) :
    b.readU8.1 = if b.position < n then 1 else 0 := by
  have hheld : b.holds 1 = decide (b.position < n) := by
    rw [holds, hlength]
    exact decide_eq_decide.mpr Nat.succ_le_iff
  simp only [readU8, readNat, read?, hheld, decide_eq_true_eq]
  by_cases hplace : b.position < n
  · have hnext : b.upcoming 1 = [1] := by
      rw [upcoming, hstorage, List.drop_replicate, List.take_replicate,
        Nat.min_eq_left (Nat.sub_pos_of_lt hplace)]
      rfl
    rw [if_pos hplace, if_pos hplace, hnext]
    rfl
  · rw [if_neg hplace, if_neg hplace]
    rfl

/-- After a bit, none of the bits that are left is set. -/
theorem spent_readBit {n : Nat} (hstorage : b.storage = List.replicate n 1) (hlength : b.length = n)
    (hcount : b.loadedCount < 8) (h : b.Waning) : b.readBit.2.Spent := by
  rw [readBit_eq]
  intro hnext i hi
  simp only [loading] at hnext hi ⊢
  by_cases hzero : b.loadedCount = 0
  · have hlarge : 1 < Nat.pow 2 i := Nat.one_lt_two_pow (by omega)
    rw [if_pos hzero, readU8_ones hstorage hlength]
    refine Nat.testBit_lt_two_pow (lt_of_le_of_lt ?_ hlarge)
    split <;> decide
  · rw [if_neg hzero]
    exact h hzero i (by omega)

/-- The bits left over give no bit that is set, and neither does an octet that is not there. -/
theorem Spent.readBit_eq_false {n : Nat} {r : Buffer} (h : b.Spent)
    (hstorage : r.storage = List.replicate n 1) (hlength : r.length = n)
    (hplace : b.loadedCount = 0 → ¬ r.position < n) :
    (r.loading b.loadedBits b.loadedCount).readBit.1 = false := by
  by_cases hzero : b.loadedCount = 0
  · have hnext : (r.loading b.loadedBits b.loadedCount).readU8.1 = 0 :=
      (readU8_ones (b := r.loading b.loadedBits b.loadedCount) hstorage hlength).trans
        (if_neg (hplace hzero))
    rw [readBit_of_zero (b := r.loading b.loadedBits b.loadedCount) hzero, hnext]
    rfl
  · rw [readBit_of_ne_zero (b := r.loading b.loadedBits b.loadedCount) hzero]
    exact h hzero _ (Nat.le_refl _)

theorem spent_readBits {n : Nat} (hstorage : b.storage = List.replicate n 1)
    (hlength : b.length = n) (hcount : b.loadedCount < 8) (h : b.Spent) (bits : Nat) :
    (readBits bits b).2.Spent := by
  induction bits generalizing b with
  | zero => exact h
  | succ bits ih =>
      obtain ⟨hkept, -, hindex⟩ := passes_readBit b
      rw [readBits_succ]
      exact ih (hkept.storage.trans hstorage) (hkept.length.trans hlength)
        (hindex hcount ▸ Nat.mod_lt _ (Nat.zero_lt_succ 7))
        (spent_readBit hstorage hlength hcount h.waning)

/-- A pass that reads a bit leaves none that is set. -/
theorem spent_of_finish {n : Nat} (hstorage : b.storage = List.replicate n 1)
    (hlength : b.length = n) (hops : ∀ op ∈ ops, op.Reading) (hpending : b.pendingCount = 0)
    (hcount : b.loadedCount < 8) (hwaning : b.Waning) (h : beginsInBits ops = true ∨ b.Spent)
    (hfinish : b.finish? ops = some b') : b'.Spent := by
  induction ops generalizing b with
  | nil =>
      cases hfinish
      exact h.resolve_left Bool.false_ne_true
  | cons op ops ih =>
      obtain ⟨hop, hrest⟩ := List.forall_mem_cons.mp hops
      obtain ⟨answer, rest, hrun, hafter⟩ := finish?_cons_eq_some hfinish
      obtain ⟨hkept, hindex, -⟩ := passes_of_run hop hpending hcount hrun
      have hagain := ih (hkept.storage.trans hstorage) (hkept.length.trans hlength) hrest
        (hkept.pendingCount.trans hpending) (hindex ▸ op.bitIndex_lt _)
      cases hop with
      | octets hoctets =>
          obtain ⟨read, refused, hread⟩ := exists_readAs hoctets
          obtain ⟨-, hbits, hloaded⟩ := hread.kept hrun
          rw [Operation.beginsInBits_of_octets hoctets] at h
          refine hagain ?_ (h.imp_right fun hspent => ?_) hafter
          · rw [Waning, hloaded, hbits]
            exact hwaning
          · rw [Spent, hloaded, hbits]
            exact hspent
      | bits hbits =>
          obtain ⟨_, hsame, -⟩ := run_bits hbits b
          rw [hsame] at hrun
          cases hrun
          have hspent : (readBits op.bitCount b).2.Spent := by
            obtain ⟨bits, hbits⟩ := Nat.exists_eq_add_of_lt hbits
            obtain ⟨hone, -, hnext⟩ := passes_readBit b
            rw [hbits, Nat.zero_add, readBits_succ]
            exact spent_readBits (hone.storage.trans hstorage) (hone.length.trans hlength)
              (hnext hcount ▸ Nat.mod_lt _ (Nat.zero_lt_succ 7))
              (spent_readBit hstorage hlength hcount hwaning) bits
          exact hagain hspent.waning (Or.inr hspent) hafter
      | align =>
          have hspent : rest.Spent := fun hnext => absurd hindex hnext
          exact hagain hspent.waning (Or.inr hspent) hafter

/-- Behind a pass, seeking puts the cursor back, and the bits left over stay. -/
theorem seek_of_kept {place : Nat} (h : (b.seek place).Kept b') :
    b'.seek place = (b.seek place).loading b'.loadedBits b'.loadedCount := by
  obtain ⟨hstorage, hlength, hbits, hcount⟩ := h
  simp only [seek, capacity, loading] at hstorage hlength hbits hcount ⊢
  rw [hstorage, hlength, hbits, hcount]

/-- Octets with the first bit set, and an octet half read in which the bit that is due is the
only one set. -/
def halfRead (n index : Nat) : Buffer :=
  (ofBytes (List.replicate n 1)).loading (UInt8.ofNat (1 <<< index)) index

theorem toNat_shiftLeft {index : Nat} (h : index < 8) :
    (UInt8.ofNat (1 <<< index)).toNat = 2 ^ index := by
  have hsmall : 2 ^ index < 2 ^ 8 := Nat.pow_lt_pow_right (by omega) h
  rw [Nat.one_shiftLeft, UInt8.toNat_ofNat', Nat.mod_eq_of_lt hsmall]

/-- Seeking to a place and reading gives the same the second time. -/
def Rereads (b : Buffer) (place : Nat) (ops : List Operation) : Prop :=
  ∀ b', (b.seek place).finish? ops = some b' →
    (b'.seek place).observe ops = (b.seek place).observe ops

/-- Whether a pass sees none of the bits left over: it goes on to the next octet before it reads
a bit, or it begins and ends between two octets. -/
def LeavesNoBits (index : Nat) (ops : List Operation) : Prop :=
  beginsInBits ops = false ∨ index = 0 ∧ bitIndexAfter 0 ops = 0

theorem rereads_of_leavesNoBits (hops : ∀ op ∈ ops, op.Reading) (hpending : b.pendingCount = 0)
    (hcount : b.loadedCount < 8) (h : LeavesNoBits b.loadedCount ops) (place : Nat) :
    b.Rereads place ops := by
  intro b' hfinish
  obtain ⟨hkept, hafter⟩ := kept_of_finish (b := b.seek place) hops hpending hcount hfinish
  rw [seek_of_kept hkept]
  rcases h with hlate | ⟨hzero, hend⟩
  · exact observe_loading (b := b.seek place) hops hpending hcount hlate _ _
  · have hagain : b'.loadedCount = 0 := by
      rw [hafter, show (b.seek place).loadedCount = 0 from hzero]
      exact hend
    have hsame : b.seek place = (b.seek place).loading b.loadedBits 0 := by
      rw [← hzero]
      rfl
    rw [hagain]
    exact (observe_loading_zero (b := b.seek place) hops hpending hcount _ _).trans
      (congrArg (observe · ops) hsame.symm)

theorem seek_halfRead (n index : Nat) : (halfRead n index).seek 0 = halfRead n index := by
  simp only [seek, Nat.zero_min]
  rfl

theorem length_halfRead (n index : Nat) : (halfRead n index).length = n :=
  List.length_replicate

theorem waning_halfRead (n : Nat) (hindex : index < 8) : (halfRead n index).Waning := by
  intro _ i hi
  have hbehind : index < i := hi
  have hbits : (halfRead n index).loadedBits.toNat = 2 ^ index := toNat_shiftLeft hindex
  rw [hbits, Nat.testBit_two_pow_of_ne (by omega)]

/-- The bit that is due is set. -/
theorem readBit_of_kept_halfRead {n : Nat} {r : Buffer} (hindex : index < 8)
    (hr : (halfRead n index).Kept r) (hbits : r.loadedBits = (halfRead n index).loadedBits)
    (hcount : r.loadedCount = index) (hplace : index = 0 → r.position < n) :
    r.readBit.1 = true := by
  by_cases hzero : index = 0
  · have hlength : r.length = n := hr.length.trans (length_halfRead n index)
    rw [readBit_of_zero (hcount.trans hzero), readU8_ones hr.storage hlength,
      if_pos (hplace hzero)]
    rfl
  · have hloaded : r.loadedBits.toNat = 2 ^ index := by
      rw [hbits]
      exact toNat_shiftLeft hindex
    rw [readBit_of_ne_zero (hcount.symm ▸ hzero), hloaded, hcount, Nat.testBit_two_pow_self]

theorem sound_halfRead {n : Nat} (hn : n < addressLimit) (hindex : index < 8) :
    (halfRead n index).Sound where
  capacity_lt := (List.length_replicate (n := n) (a := (1 : UInt8))).trans_lt hn
  position_le := Nat.zero_le _
  length_le := Nat.le_refl _
  pendingCount_lt := Nat.zero_lt_succ 7
  pendingBits_lt := Nat.zero_lt_succ 0
  loadedCount_lt := hindex

/-- Any other pass gives something else the second time on some buffer. -/
theorem exists_not_rereads (hops : ∀ op ∈ ops, op.Reading) (hindex : index < 8)
    (h : ¬ LeavesNoBits index ops) (hreach : (ops.map Operation.reach).sum < addressLimit) :
    ∃ b : Buffer, b.Sound ∧ b.pendingCount = 0 ∧ b.loadedCount = index ∧ ¬ b.Rereads 0 ops := by
  have hbegins : beginsInBits ops = true :=
    eq_true_of_ne_false fun hlate => h (Or.inl hlate)
  -- Within an octet no other is needed: what is loaded later is zero.
  let n := if index = 0 then (ops.map Operation.reach).sum else 0
  have hn : n < addressLimit := by
    simp only [n]
    split
    · exact hreach
    · exact Nat.zero_lt_of_lt hreach
  let b := halfRead n index
  have hlength : b.length = n := length_halfRead n index
  have hroom : b.position + (ops.map Operation.reach).sum < UInt64.size := by
    have hlimit := addressLimit_add_self
    have hposition : b.position = 0 := rfl
    omega
  obtain ⟨b', hfinish⟩ := exists_finish hops rfl hindex hroom
  obtain ⟨hkept, hafter⟩ := kept_of_finish hops rfl hindex hfinish
  have hspent := spent_of_finish rfl hlength hops rfl hindex (waning_halfRead n hindex)
    (Or.inl hbegins) hfinish
  refine ⟨b, sound_halfRead hn hindex, rfl, rfl, fun hsame => ?_⟩
  have hstart : b.seek 0 = b := seek_halfRead n index
  have hagain := hsame b' (hstart.symm ▸ hfinish)
  rw [seek_of_kept (hstart.symm ▸ hkept), hstart] at hagain
  refine observe_loading_ne hops rfl hindex hbegins hfinish ?_ hagain
  -- The bit that is due is set in the first pass and not in the second.
  intro r hr hrbits hrcount hrposition
  have hfirst : r.readBit.1 = true := by
    refine readBit_of_kept_halfRead hindex hr hrbits hrcount fun hzero => ?_
    have hposition : b.position = 0 := rfl
    simp only [n, if_pos hzero]
    omega
  have hsecond : (r.loading b'.loadedBits b'.loadedCount).readBit.1 = false := by
    refine hspent.readBit_eq_false hr.storage (hr.length.trans hlength) fun hzero => ?_
    have hwithin : index ≠ 0 := by
      rintro rfl
      exact h (Or.inr ⟨rfl, hafter.symm.trans hzero⟩)
    simp only [n, if_neg hwithin]
    exact Nat.not_lt_zero _
  rw [hfirst, hsecond]
  exact Bool.false_ne_true

/-- Passes leave contents and length as they are.  Seeking back and reading again gives the same
if the pass sees no bits left over; of any other pass there is a buffer, its bits at the same
place, on which it gives something else the second time. -/
theorem reread_exact (ops : List Operation) (hops : ∀ op ∈ ops, op.Reading) :
    (∀ b : Buffer, b.pendingCount = 0 → b.loadedCount < 8 → ∀ place,
      (∀ b', (b.seek place).finish? ops = some b' →
        b'.contents = b.contents ∧ b'.length = b.length ∧
          ∀ b'', (b'.seek place).finish? ops = some b'' →
            b''.contents = b.contents ∧ b''.length = b.length) ∧
      (LeavesNoBits b.loadedCount ops → b.Rereads place ops)) ∧
    ∀ index < 8, (ops.map Operation.reach).sum < addressLimit → ¬ LeavesNoBits index ops →
      ∃ b : Buffer, b.Sound ∧ b.pendingCount = 0 ∧ b.loadedCount = index ∧
        ¬ b.Rereads 0 ops := by
  refine ⟨fun b hpending hcount place => ⟨fun b' hfinish => ?_, fun hleaves => ?_⟩,
    fun index hindex hreach hleft => exists_not_rereads hops hindex hleft hreach⟩
  · obtain ⟨hkept, hafter⟩ := kept_of_finish (b := b.seek place) hops hpending hcount hfinish
    refine ⟨hkept.contents_eq, hkept.length, fun b'' hagain => ?_⟩
    have hcount' : b'.loadedCount < 8 := hafter ▸ bitIndexAfter_lt hcount ops
    obtain ⟨htwice, -⟩ := kept_of_finish (b := b'.seek place) hops
      (hkept.pendingCount.trans hpending) hcount' hagain
    exact ⟨htwice.contents_eq.trans hkept.contents_eq, htwice.length.trans hkept.length⟩
  · exact rereads_of_leavesNoBits hops hpending hcount hleaves place

/-- One bit of an octet that has only its first bit set: the second time it is the next bit. -/
theorem reread_bit_ne :
    (ofBytes [1]).Rereads 0 [.read .bit, .align] ∧ ¬ (ofBytes [1]).Rereads 0 [.read .bit] := by
  constructor
  · refine ((reread_exact [.read .bit, .align] ?_).1 (ofBytes [1]) rfl (Nat.zero_lt_succ 7) 0).2
      (Or.inr ⟨rfl, rfl⟩)
    intro op hop
    rcases List.mem_pair.mp hop with rfl | rfl
    · exact .bits Nat.one_pos
    · exact .align
  · intro h
    have hseen := (List.cons.inj (h _ rfl)).1
    have hbit := Item.bit.inj (Answer.item.inj (Prod.mk.inj (Except.ok.inj hseen)).1)
    exact Bool.false_ne_true hbit

end TwoPasses

end Buffer
end GameLink
