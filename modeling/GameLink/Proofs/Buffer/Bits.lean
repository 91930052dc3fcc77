import GameLink.Proofs.Buffer.Cursor
import Mathlib.Data.List.GetD

/-!
# Runs of bits are read back

A run of bits followed by `align` is a write of whole octets, eight bits to each, the first
in the lowest place and the last octet filled up with zeros.  Reading as many bits and
aligning takes those octets.

**Results.**
* `align_writeBits`: a run written and aligned is one write of its octets.
* `reads_bits`: a run is read back from its octets, and the cursor stands behind them.
-/

namespace GameLink

namespace Bits

/-- Up to eight bits as an octet, the first in the lowest place. -/
def octet (vs : List Bool) : UInt8 :=
  UInt8.ofNat (BitVec.ofBoolListLE vs).toNat

/-- Bits as octets, eight to each. -/
def encode (vs : List Bool) : Bytes :=
  if vs = [] then [] else octet (vs.take 8) :: encode (vs.drop 8)
termination_by vs.length
decreasing_by
  rename_i hne
  have hpos := List.length_pos_iff.mpr hne
  rw [List.length_drop]
  omega

theorem testBit_octet (vs : List Bool) {i : Nat} (hi : i < 8) :
    (octet vs).toNat.testBit i = vs.getD i false := by
  have hbit : (BitVec.ofBoolListLE vs).toNat.testBit i = vs.getD i false :=
    BitVec.getLsbD_ofBoolListLE
  rw [octet, UInt8.toNat_ofNat', Nat.testBit_mod_two_pow, hbit, decide_eq_true hi,
    Bool.true_and]

/-- An octet is known from its bits. -/
theorem octet_ext {m n : UInt8} (h : ∀ i < 8, m.toNat.testBit i = n.toNat.testBit i) :
    m = n := by
  apply UInt8.toNat_inj.mp
  apply Nat.eq_of_testBit_eq
  intro i
  by_cases hi : i < 8
  · exact h i hi
  · have hpow : 2 ^ 8 ≤ 2 ^ i := Nat.pow_le_pow_right (by decide) (Nat.le_of_not_lt hi)
    rw [Nat.testBit_lt_two_pow (Nat.lt_of_lt_of_le m.toNat_lt hpow),
      Nat.testBit_lt_two_pow (Nat.lt_of_lt_of_le n.toNat_lt hpow)]

theorem getD_append_singleton (vs : List Bool) (v : Bool) (i : Nat) :
    (vs ++ [v]).getD i false = (vs.getD i false || (decide (i = vs.length) && v)) := by
  rcases Nat.lt_trichotomy i vs.length with hlt | heq | hgt
  · rw [List.getD_append _ _ _ _ hlt, decide_eq_false (Nat.ne_of_lt hlt), Bool.false_and,
      Bool.or_false]
  · rw [List.getD_append_right _ _ _ _ (Nat.le_of_eq heq.symm), heq, Nat.sub_self,
      List.getD_eq_default _ _ (Nat.le_refl _)]
    simp
  · rw [List.getD_append_right _ _ _ _ (Nat.le_of_lt hgt),
      List.getD_eq_default _ _ (Nat.le_of_lt hgt), List.getD_eq_default,
      decide_eq_false (Nat.ne_of_gt hgt)]
    · rfl
    · rw [List.length_singleton]
      omega

/-- A bit is added in the place of its index. -/
theorem octet_append (vs : List Bool) (v : Bool) (h : vs.length < 8) :
    octet (vs ++ [v]) =
      if v then octet vs ||| (1 <<< UInt8.ofNat vs.length) else octet vs := by
  have hplace : ∀ n < 8, ∀ i < 8,
      (1 <<< UInt8.ofNat n : UInt8).toNat.testBit i = decide (i = n) := by decide
  apply octet_ext
  intro i hi
  rw [testBit_octet _ hi, getD_append_singleton]
  cases v with
  | false => rw [Bool.and_false, Bool.or_false, if_neg Bool.false_ne_true, testBit_octet _ hi]
  | true =>
      rw [Bool.and_true, if_pos rfl, UInt8.toNat_or, Nat.testBit_or, testBit_octet _ hi,
        hplace _ h _ hi]

theorem encode_nil : encode [] = [] := by
  rw [encode, if_pos rfl]

/-- The first octet is full, or it is the last. -/
theorem encode_append {vs : List Bool} (hne : vs ≠ []) (more : List Bool)
    (h : vs.length = 8 ∨ vs.length < 8 ∧ more = []) :
    encode (vs ++ more) = octet vs :: encode more := by
  rw [encode, if_neg (List.append_ne_nil_of_left_ne_nil hne more)]
  rcases h with hfull | ⟨hlast, rfl⟩
  · rw [List.take_left' hfull, List.drop_left' hfull]
  · rw [List.append_nil, List.take_of_length_le (Nat.le_of_lt hlast),
      List.drop_of_length_le (Nat.le_of_lt hlast)]

end Bits

namespace Buffer

theorem writeU8_eq (b : Buffer) (v : UInt8) : b.writeU8 v = b.write [v] := by
  rw [writeU8, writeScalar, Scalar.toBytes]
  simp [Bytes.ofNat, Scalar.kind, Scalar.toNat, ScalarKind.width]

/-- No bit is waiting, neither to be stored nor to be read. -/
structure Aligned (b : Buffer) : Prop where
  pendingBits : b.pendingBits = 0
  pendingCount : b.pendingCount = 0
  loadedBits : b.loadedBits = 0
  loadedCount : b.loadedCount = 0

/-- A buffer with bits waiting to be stored. -/
def gather (b : Buffer) (vs : List Bool) : Buffer :=
  { b with pendingBits := Bits.octet vs, pendingCount := vs.length }

namespace Aligned

variable {b : Buffer}

theorem gather_nil (h : b.Aligned) : b.gather [] = b := by
  obtain ⟨storage, position, length, pendingBits, pendingCount, loadedBits, loadedCount⟩ := b
  cases h.pendingBits
  cases h.pendingCount
  rfl

theorem ungather (h : b.Aligned) (vs : List Bool) :
    { b.gather vs with pendingBits := 0, pendingCount := 0 } = b := by
  obtain ⟨storage, position, length, pendingBits, pendingCount, loadedBits, loadedCount⟩ := b
  cases h.pendingBits
  cases h.pendingCount
  rfl

theorem unload (h : b.Aligned) : { b with loadedBits := 0, loadedCount := 0 } = b := by
  obtain ⟨storage, position, length, pendingBits, pendingCount, loadedBits, loadedCount⟩ := b
  cases h.loadedBits
  cases h.loadedCount
  rfl

theorem align (h : b.Aligned) : b.align = b := by
  have hzero : ¬ 0 < b.pendingCount := by
    rw [h.pendingCount]
    exact Nat.lt_irrefl 0
  simp only [Buffer.align, if_neg hzero, h.unload]

theorem write (h : b.Aligned) (bs : Bytes) : (b.write bs).Aligned := by
  rw [Buffer.write]
  split
  · exact ⟨h.pendingBits, h.pendingCount, h.loadedBits, h.loadedCount⟩
  · exact h

theorem advance (h : b.Aligned) (n : Nat) : (b.advance n).Aligned :=
  ⟨h.pendingBits, h.pendingCount, h.loadedBits, h.loadedCount⟩

/-- The eighth bit stores the octet. -/
theorem writeBit_gather (h : b.Aligned) {vs : List Bool} (hlength : vs.length < 8) (v : Bool) :
    (b.gather vs).writeBit v =
      if vs.length + 1 = 8 then b.write [Bits.octet (vs ++ [v])] else b.gather (vs ++ [v]) := by
  have hbits := Bits.octet_append vs v hlength
  rw [writeBit]
  by_cases hfull : vs.length + 1 = 8
  · rw [if_pos hfull, hbits, ← writeU8_eq]
    exact (if_pos hfull).trans (congrArg (writeU8 · _) (h.ungather vs))
  · have hgathered : b.gather (vs ++ [v]) =
        { b.gather vs with
          pendingBits := if v then Bits.octet vs ||| (1 <<< UInt8.ofNat vs.length)
            else Bits.octet vs
          pendingCount := vs.length + 1 } := by
      rw [gather, hbits, List.length_append]
      rfl
    rw [if_neg hfull, hgathered]
    exact if_neg hfull

/-- What waits to be stored is stored, the missing bits zero. -/
theorem align_gather (h : b.Aligned) {vs : List Bool} (hne : vs ≠ []) :
    (b.gather vs).align = b.write [Bits.octet vs] := by
  have hpos : 0 < (b.gather vs).pendingCount := List.length_pos_iff.mpr hne
  rw [Buffer.align, if_pos hpos, h.ungather vs]
  change { b.writeU8 (Bits.octet vs) with loadedBits := 0, loadedCount := 0 } = _
  rw [writeU8_eq]
  exact (h.write _).unload

end Aligned

/-- The bits in front wait to be stored, the others are still to be written. -/
theorem align_writeBits_gather
    {b : Buffer} (haligned : b.Aligned) (hposition : b.position ≤ b.length)
    (ps vs : List Bool) (hpending : ps.length < 8)
    (hfits : b.fits (Bits.encode (ps ++ vs)).length = true) :
    ((b.gather ps).writeBits vs).align = b.write (Bits.encode (ps ++ vs)) := by
  induction vs generalizing b ps with
  | nil =>
      rw [writeBits, List.foldl_nil]
      by_cases hne : ps = []
      · subst hne
        rw [List.append_nil, Bits.encode_nil] at hfits ⊢
        rw [haligned.gather_nil, haligned.align, write_nil hposition hfits]
      · rw [haligned.align_gather hne, Bits.encode_append hne [] (Or.inr ⟨hpending, rfl⟩),
          Bits.encode_nil]
  | cons v vs ih =>
      -- The bit joins those that wait; the eighth stores them, and none waits any more.
      have hlonger : (ps ++ [v]).length = ps.length + 1 := List.length_append
      rw [List.append_cons] at hfits ⊢
      rw [writeBits, List.foldl_cons, haligned.writeBit_gather hpending]
      by_cases hfull : ps.length + 1 = 8
      · have hencode := Bits.encode_append (List.append_ne_nil_of_right_ne_nil ps (by simp)) vs
          (Or.inl (hlonger.trans hfull))
        have hfits' : b.fits ([Bits.octet (ps ++ [v])] ++ Bits.encode vs).length = true := by
          rwa [hencode] at hfits
        have hstored := haligned.write [Bits.octet (ps ++ [v])]
        have hrest := ih hstored (position_le_length_write (fits_left hfits')) [] (by decide)
          (fits_write hfits')
        rw [hstored.gather_nil, List.nil_append, write_write hfits'] at hrest
        rw [if_pos hfull, hencode]
        exact hrest
      · rw [if_neg hfull]
        exact ih haligned hposition (ps ++ [v]) (by omega) hfits

/-- A run of bits written and aligned is one write of its octets. -/
theorem align_writeBits
    {b : Buffer} (haligned : b.Aligned) (hposition : b.position ≤ b.length) (vs : List Bool)
    (hfits : b.fits (Bits.encode vs).length = true) :
    (b.writeBits vs).align = b.write (Bits.encode vs) := by
  have hrun := align_writeBits_gather haligned hposition [] vs (by decide) hfits
  rwa [haligned.gather_nil] at hrun

section Loading

variable {b : Buffer} {octet : UInt8} {rest : Bytes}

/-- A buffer that an octet is being read from, so many bits of it already. -/
def loading (b : Buffer) (octet : UInt8) (count : Nat) : Buffer :=
  { b with loadedBits := octet, loadedCount := count }

theorem Before.loading {bs : Bytes} (h : b.Before bs) (octet : UInt8) (count : Nat) :
    (b.loading octet count).Before bs :=
  ⟨h.position_le, h.unread⟩

theorem align_of_stored (hpending : b.pendingCount = 0) : b.align = b.loading 0 0 := by
  have hnone : ¬ 0 < b.pendingCount := Nat.not_lt.mpr (Nat.le_of_eq hpending)
  rw [align, if_neg hnone, loading]

theorem readBit_of_fresh (hloaded : b.loadedCount = 0) (hb : b.Before (octet :: rest)) :
    b.readBit = (octet.toNat.testBit 0, (b.advance 1).loading octet 1) := by
  simp only [readBit, hloaded, if_true, hb.readU8_eq, loading]

theorem readBit_loading {count : Nat} (hcount : count ≠ 0) :
    (b.loading octet count).readBit =
      (octet.toNat.testBit count, b.loading octet ((count + 1) % 8)) := by
  simp only [readBit, loading, hcount, if_false]

theorem readBits_succ (n : Nat) (b : Buffer) :
    readBits (n + 1) b =
      (b.readBit.1 :: (readBits n b.readBit.2).1, (readBits n b.readBit.2).2) :=
  rfl

theorem readBits_add (m n : Nat) (b : Buffer) :
    readBits (m + n) b =
      ( (readBits m b).1 ++ (readBits n (readBits m b).2).1,
        (readBits n (readBits m b).2).2 ) := by
  induction m generalizing b with
  | zero => rw [Nat.zero_add, readBits, List.nil_append]
  | succ m ih =>
      rw [Nat.succ_add, readBits_succ, readBits_succ, ih, List.cons_append]

theorem readBits_loading
    (vs : List Bool) {count : Nat} (hcount : count ≠ 0) (hpartial : count < 8)
    (hroom : count + vs.length ≤ 8)
    (hbits : ∀ i < vs.length, octet.toNat.testBit (count + i) = vs.getD i false) :
    readBits vs.length (b.loading octet count) =
      (vs, b.loading octet ((count + vs.length) % 8)) := by
  induction vs generalizing count with
  | nil => rw [List.length_nil, readBits, Nat.add_zero, Nat.mod_eq_of_lt hpartial]
  | cons v vs ih =>
      have hfirst : octet.toNat.testBit count = v := hbits 0 (Nat.zero_lt_succ _)
      rw [List.length_cons] at hroom
      rw [List.length_cons, readBits_succ, readBit_loading hcount, hfirst]
      by_cases hlast : vs = []
      · subst hlast
        rfl
      · have hpos := List.length_pos_iff.mpr hlast
        have hnext : (count + 1) % 8 = count + 1 := Nat.mod_eq_of_lt (by omega)
        have hrest := ih (Nat.succ_ne_zero count) (by omega) (by omega) fun i hi => by
          have hlater := hbits (i + 1) (Nat.succ_lt_succ hi)
          rwa [List.getD_cons_succ, Nat.add_comm i, ← Nat.add_assoc] at hlater
        have hend : count + 1 + vs.length = count + (vs.length + 1) := by omega
        rw [Nat.succ_eq_add_one, hend] at hrest
        rw [hnext, hrest]

/-- One octet of a run. -/
theorem readBits_octet
    (vs : List Bool) (hne : vs ≠ []) (hlength : vs.length ≤ 8)
    (hloaded : b.loadedCount = 0) (hb : b.Before (Bits.octet vs :: rest)) :
    readBits vs.length b =
      (vs, (b.advance 1).loading (Bits.octet vs) (vs.length % 8)) := by
  cases vs with
  | nil => exact absurd rfl hne
  | cons v vs =>
      rw [List.length_cons] at hlength
      have hfirst : (Bits.octet (v :: vs)).toNat.testBit 0 = v :=
        Bits.testBit_octet (v :: vs) (by decide)
      have hrest : readBits vs.length ((b.advance 1).loading (Bits.octet (v :: vs)) 1) = _ :=
        readBits_loading vs Nat.one_ne_zero (by decide) (by omega) fun i hi => by
          have hlater := Bits.testBit_octet (v :: vs) (show i + 1 < 8 by omega)
          rwa [List.getD_cons_succ, Nat.add_comm] at hlater
      rw [List.length_cons, readBits_succ, readBit_of_fresh hloaded hb, hfirst]
      simp only [hrest, Nat.add_comm 1]

/-- A run is read octet by octet; only the last octet may be read in part. -/
theorem align_readBits
    (vs : List Bool) (hpending : b.pendingCount = 0) (hloaded : b.loadedCount = 0)
    (hb : b.Before (Bits.encode vs ++ rest)) :
    (readBits vs.length b).1 = vs ∧
      (readBits vs.length b).2.align = (b.advance (Bits.encode vs).length).loading 0 0 := by
  induction vs using Bits.encode.induct generalizing b with
  | case1 =>
      rw [Bits.encode_nil]
      exact ⟨rfl, align_of_stored hpending⟩
  | case2 vs hne ih =>
      have hencode : Bits.encode vs = Bits.octet (vs.take 8) :: Bits.encode (vs.drop 8) := by
        rw [Bits.encode, if_neg hne]
      rw [hencode] at hb ⊢
      have hpos := List.length_pos_iff.mpr hne
      have htake : (vs.take 8).length = min 8 vs.length := List.length_take
      have hoctet := readBits_octet (vs.take 8) (List.ne_nil_of_length_pos (by omega))
        (by omega) hloaded hb
      have hsplit : vs.length = (vs.take 8).length + (vs.drop 8).length := by
        rw [← List.length_append, List.take_append_drop]
      rw [hsplit, readBits_add, hoctet]
      by_cases hlast : vs.drop 8 = []
      · -- The octet may be read in part; aligning forgets the rest of it.
        have htaken := List.take_append_drop 8 vs
        rw [hlast] at htaken
        rw [hlast, Bits.encode_nil]
        exact ⟨htaken, align_of_stored hpending⟩
      · have hmore := List.length_pos_iff.mpr hlast
        have hfull : (vs.take 8).length % 8 = 0 := by
          rw [List.length_drop] at hmore
          omega
        have hbehind := (show b.Before ([Bits.octet (vs.take 8)] ++ _) from hb).advance
        obtain ⟨hread, halign⟩ := ih
          (b := (b.advance 1).loading (Bits.octet (vs.take 8)) ((vs.take 8).length % 8))
          hpending hfull (hbehind.loading _ _)
        refine ⟨?_, ?_⟩
        · rw [hread, List.take_append_drop]
        · rw [halign, List.length_cons, Nat.add_comm _ 1, ← advance_advance]
          rfl

end Loading

/-- A run is read back from its octets, the buffer aligned again. -/
theorem reads_bits
    {b : Buffer} (haligned : b.Aligned) (vs : List Bool) {rest : Bytes}
    (hb : b.Before (Bits.encode vs ++ rest)) :
    (readBits vs.length b).1 = vs ∧
      (readBits vs.length b).2.align = b.advance (Bits.encode vs).length := by
  obtain ⟨hread, halign⟩ := align_readBits vs haligned.pendingCount haligned.loadedCount hb
  exact ⟨hread, halign.trans (haligned.advance _).unload⟩

end Buffer
end GameLink
