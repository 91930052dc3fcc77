import GameLink.Buffer.Word
import GameLink.Proofs.Buffer.Writes
import Mathlib.Algebra.BigOperators.Ring.Finset
import Mathlib.Algebra.Ring.Nat
import Mathlib.Data.Nat.Bitwise
import Mathlib.Data.Nat.Size

/-!
# Numerals to the octet

How many octets a number is written in and what they are; what is read from any octets, and where
the cursor stands behind it.

**Reading.** A numeral goes up to the first octet with a clear top bit.  If that is within the limit
of the reader and in front of the mark, the reader takes it.  If not, the reader goes on to the mark
or to its limit, whichever comes first, and gives zero.

**Results.**
* `Varint.ofWord_eq`, `readWord_eq_map`: words hold what numbers without a bound come to.
* `Varint.length_encode`: an octet for every seven bits.
* `readVarNatFrom_eq`: what reading comes to on every buffer.
* `read_write`: what was written is read back from where it was written.
* `numerals_exact`: all of it together, for the four kinds of numbers.
-/

namespace GameLink

namespace Varint

section NumeralOctets

/-- The top bit of an octet is clear exactly if seven bits hold it. -/
theorem and_top_eq_zero_iff (octet : UInt8) : octet &&& 0x80 = 0 ↔ octet.toNat < 128 := by
  have hbound := octet.toNat_lt
  have hmask : (octet &&& 0x80).toNat = octet.toNat / 2 ^ 7 % 2 * 2 ^ 7 := by
    rw [UInt8.toNat_and, ← Nat.toNat_testBit]
    exact Nat.and_two_pow _ 7
  rw [← UInt8.toNat_inj, hmask, UInt8.toNat_zero]
  omega

theorem toNat_group (octet : UInt8) : (octet &&& 0x7F).toNat = octet.toNat % 128 :=
  (UInt8.toNat_and ..).trans (Nat.and_two_pow_sub_one_eq_mod _ 7)

/-- The lowest octet of a word with the top bit set. -/
theorem or_top (v : UInt64) : v.toUInt8 ||| 0x80 = UInt8.ofNat (v.toNat % 128 + 128) := by
  have hjoin {n : Nat} (hn : n < 128) : n ||| 128 = n + 128 := by
    rw [Nat.or_comm, Nat.add_comm]
    exact (Nat.two_pow_add_eq_or_of_lt (i := 7) hn 1).symm
  have hgroup := hjoin (Nat.mod_lt v.toNat (show 0 < 128 by decide))
  have hor : (v.toUInt8 ||| 0x80).toNat = v.toNat % 256 ||| 128 := by
    rw [UInt8.toNat_or, UInt64.toNat_toUInt8]
    rfl
  apply UInt8.toNat_inj.mp
  rw [Utf8.toNat_octet (by omega), hor]
  by_cases htop : v.toNat % 256 < 128
  · rw [hjoin htop]
    omega
  · -- the bit is set already
    have hset : v.toNat % 256 = v.toNat % 128 ||| 128 := by omega
    rw [hset, Nat.or_assoc, Nat.or_self, hgroup]

/-- A numeral made in words is that of the number. -/
theorem ofWord_eq (v : UInt64) : ofWord v = encode v.toNat := by
  fun_induction ofWord v with
  | case1 v hsmall =>
      have hlow : v.toNat < 128 := UInt64.lt_iff_toNat_lt.mp hsmall
      rw [encode, if_pos hlow]
      rfl
  | case2 v hlarge ih =>
      have hlow : ¬ v.toNat < 128 := fun hsmall => hlarge (UInt64.lt_iff_toNat_lt.mpr hsmall)
      rw [encode, if_neg hlow, ih, toNat_shiftRight, or_top]

/-- One place up is seven bits. -/
theorem two_pow_place (place : Nat) : 2 ^ (7 * (place + 1)) = 128 * 2 ^ (7 * place) := by
  rw [Nat.mul_succ, Nat.pow_add, Nat.mul_comm]

/-- A numeral has no more octets than groups are needed for the number. -/
theorem length_encode_le_iff (n k : Nat) :
    (encode n).length ≤ k + 1 ↔ n < 2 ^ (7 * (k + 1)) := by
  induction k generalizing n with
  | zero =>
      rw [encode]
      split
      · simpa
      · have hmore := List.length_pos_iff.mpr (encode_ne_nil (n / 128))
        rw [List.length_cons]
        omega
  | succ k ih =>
      have hpow := two_pow_place (k + 1)
      rw [encode]
      split
      · rename_i hsmall
        have hpos := Nat.two_pow_pos (7 * (k + 1))
        rw [List.length_singleton]
        omega
      · rw [List.length_cons, Nat.add_le_add_iff_right, ih, hpow, Nat.mul_comm 128,
          Nat.div_lt_iff_lt_mul (by decide)]

/-- An octet for every seven bits, and one for zero. -/
theorem length_encode (n : Nat) : (encode n).length = max 1 ((n.size + 6) / 7) := by
  have hle (k : Nat) : (encode n).length ≤ k + 1 ↔ n.size ≤ 7 * (k + 1) :=
    (length_encode_le_iff n k).trans Nat.size_le.symm
  have hpos := List.length_pos_iff.mpr (encode_ne_nil n)
  generalize (encode n).length = length at hle hpos
  have hbits := (hle (length - 1)).mp (by omega)
  by_cases hone : length = 1
  · omega
  · -- one octet less has no room for all the bits
    have hmore := mt (hle (length - 2)).mpr (by omega)
    omega

/-- The top bit is set on every octet but the last. -/
theorem exists_encode_eq (n : Nat) :
    ∃ front last, encode n = front ++ [last] ∧ (∀ octet ∈ front, 128 ≤ octet) ∧ last < 128 := by
  fun_induction encode n with
  | case1 n hsmall =>
      refine ⟨[], UInt8.ofNat n, rfl, by simp, ?_⟩
      rw [UInt8.lt_iff_toNat_lt, Utf8.toNat_octet (by omega)]
      exact hsmall
  | case2 n hlarge ih =>
      obtain ⟨front, last, heq, hfront, hlast⟩ := ih
      refine ⟨UInt8.ofNat (n % 128 + 128) :: front, last, ?_, ?_, hlast⟩
      · rw [heq, List.cons_append]
      · refine List.forall_mem_cons.mpr ⟨?_, hfront⟩
        rw [UInt8.le_iff_toNat_le, Utf8.toNat_octet (by omega)]
        exact Nat.le_add_left _ _

end NumeralOctets

end Varint

namespace Buffer

variable {b : Buffer}

section Reading

/-- How many octets there are from the cursor up to the first with a clear top bit, that octet
included; more than the storage has if there is none. -/
def extent (b : Buffer) : Nat :=
  (b.storage.drop b.position).findIdx (fun octet => octet < 128) + 1

/-- The number whose groups of seven bits stand in so many octets from the cursor, the lowest
first. -/
def groupSum (b : Buffer) (n : Nat) : Nat :=
  ∑ i ∈ Finset.range n, (b.storage.getD (b.position + i) 0).toNat % 128 * 2 ^ (7 * i)

theorem extent_pos (b : Buffer) : 0 < b.extent :=
  Nat.succ_pos _

/-- The octet at the cursor decides whether a numeral goes on. -/
theorem extent_eq (b : Buffer) :
    b.extent =
      if (b.storage.getD b.position 0).toNat < 128 then 1 else (b.advance 1).extent + 1 := by
  rw [List.getD_eq_getElem?_getD, ← List.head?_drop, extent, extent, advance, ← List.drop_drop]
  cases b.storage.drop b.position with
  | nil => rfl
  | cons octet rest =>
      have hlow : octet < 128 ↔ octet.toNat < 128 := UInt8.lt_iff_toNat_lt
      rw [List.findIdx_cons, List.head?_cons, Option.getD_some]
      by_cases hlast : octet.toNat < 128
      · rw [if_pos hlast, decide_eq_true (hlow.mpr hlast)]
        rfl
      · rw [if_neg hlast, decide_eq_false (mt hlow.mp hlast)]
        rfl

/-- The group at the cursor and those behind it, one place up. -/
theorem groupSum_succ (b : Buffer) (n : Nat) :
    b.groupSum (n + 1) =
      (b.storage.getD b.position 0).toNat % 128 + 128 * (b.advance 1).groupSum n := by
  simp only [groupSum, advance, Finset.sum_range_succ', Finset.mul_sum, Varint.two_pow_place,
    Nat.add_assoc, Nat.add_comm 1, Nat.mul_zero, Nat.pow_zero, Nat.mul_one, Nat.add_zero]
  rw [Nat.add_comm]
  refine congrArg _ (Finset.sum_congr rfl fun i _ => ?_)
  exact Nat.mul_left_comm _ _ _

/-- A group in its place and those behind it, one place up. -/
theorem group_add_groupSum (b : Buffer) (place n : Nat) :
    ((b.storage.getD b.position 0).toNat % 128) <<< (7 * place) +
      (b.advance 1).groupSum n <<< (7 * (place + 1)) = b.groupSum (n + 1) <<< (7 * place) := by
  rw [groupSum_succ, Nat.shiftLeft_eq, Nat.shiftLeft_eq, Nat.shiftLeft_eq,
    Varint.two_pow_place, ← Nat.mul_assoc, Nat.mul_comm _ 128, ← Nat.add_mul]

/-- What reading comes to on every buffer. -/
theorem readVarNatFrom_eq (value place limit : Nat) (b : Buffer) :
    readVarNatFrom value place limit b =
      if b.extent ≤ limit ∧ b.position + b.extent ≤ b.length then
        (value + b.groupSum b.extent <<< (7 * place), b.advance b.extent)
      else if b.remaining < limit then
        (0, { b with position := b.length })
      else
        (0, b.advance limit) := by
  induction limit generalizing value place b with
  | zero => rfl
  | succ limit ih =>
      have hextent := b.extent_eq
      rw [readVarNatFrom]
      by_cases hleft : b.position < b.length
      · rw [if_pos hleft]
        by_cases hlast : (b.storage.getD b.position 0).toNat < 128
        · have hsum : b.groupSum 1 = (b.storage.getD b.position 0).toNat % 128 :=
            groupSum_succ b 0
          rw [if_pos hlast] at hextent
          rw [if_pos hlast, hextent, hsum, if_pos ⟨by omega, hleft⟩]
        · -- the octets behind the first one decide
          have hwhole : (b.advance 1).extent ≤ limit ∧
              (b.advance 1).position + (b.advance 1).extent ≤ (b.advance 1).length ↔
                (b.advance 1).extent + 1 ≤ limit + 1 ∧
                  b.position + ((b.advance 1).extent + 1) ≤ b.length := by
            simp only [advance]
            omega
          have hshort : (b.advance 1).remaining < limit ↔ b.remaining < limit + 1 := by
            simp only [remaining, advance]
            omega
          rw [if_neg hlast] at hextent
          rw [if_neg hlast, ih, hextent]
          simp only [hwhole, hshort, Nat.add_assoc value, group_add_groupSum, advance_advance,
            Nat.add_comm 1]
          rfl
      · have hsome := b.extent_pos
        have hnone : ¬ (b.extent ≤ limit + 1 ∧ b.position + b.extent ≤ b.length) := by
          omega
        have hshort : b.remaining < limit + 1 := by
          rw [remaining]
          omega
        rw [if_neg hleft, if_neg hnone, if_pos hshort]

end Reading

section WordReading

/-- A group is joined to those in front of it; bits past the end of the word are lost. -/
theorem or_group {value place : Nat} (hvalue : value < 2 ^ (7 * place)) (hplace : place < 10)
    (octet : UInt8) :
    UInt64.ofNat value ||| (octet &&& 0x7F).toUInt64 <<< UInt64.ofNat (7 * place) =
      UInt64.ofNat (value + (octet.toNat % 128) <<< (7 * place)) := by
  have hamount : (UInt64.ofNat (7 * place)).toNat % 64 = 7 * place := by
    rw [UInt64.toNat_ofNat']
    omega
  apply UInt64.toNat_inj.mp
  rw [UInt64.toNat_or, UInt64.toNat_shiftLeft, hamount, UInt8.toNat_toUInt64, Varint.toNat_group,
    UInt64.toNat_ofNat', UInt64.toNat_ofNat', ← Nat.or_mod_two_pow, Nat.or_comm,
    ← Nat.shiftLeft_add_eq_or_of_lt hvalue, Nat.add_comm]

/-- A number and a group in the place above it end below the next place. -/
theorem add_group_lt {value place : Nat} (hvalue : value < 2 ^ (7 * place)) (octet : UInt8) :
    value + (octet.toNat % 128) <<< (7 * place) < 2 ^ (7 * (place + 1)) := by
  have hgroup : octet.toNat % 128 + 1 ≤ 128 := Nat.mod_lt _ (by decide)
  have hscaled := Nat.mul_le_mul_right (2 ^ (7 * place)) hgroup
  rw [Nat.add_mul] at hscaled
  rw [Nat.shiftLeft_eq, Varint.two_pow_place]
  omega

/-- A word holds the number that is read, as far as its bits go. -/
theorem readWordFrom_eq_map (value place limit : Nat) (hvalue : value < 2 ^ (7 * place))
    (hlimit : place + limit ≤ 10) (b : Buffer) :
    readWordFrom (UInt64.ofNat value) place limit b =
      (readVarNatFrom value place limit b).map UInt64.ofNat id := by
  induction limit generalizing value place b with
  | zero => rfl
  | succ limit ih =>
      have hjoin := or_group hvalue (show place < 10 by omega) (b.storage.getD b.position 0)
      have hnext := add_group_lt hvalue (b.storage.getD b.position 0)
      simp only [readWordFrom, readVarNatFrom, hjoin, Varint.and_top_eq_zero_iff,
        ih _ _ hnext (show place + 1 + limit ≤ 10 by omega)]
      split
      · split
        · rfl
        · rfl
      · rfl

theorem readWord_eq_map {limit : Nat} (h : limit ≤ 10) (b : Buffer) :
    b.readWord limit = (b.readVarNat limit).map UInt64.ofNat id :=
  readWordFrom_eq_map 0 0 limit Nat.one_pos (by omega) b

/-- What reading into a word comes to on every buffer. -/
theorem readWord_eq {limit : Nat} (h : limit ≤ 10) (b : Buffer) :
    b.readWord limit =
      if b.extent ≤ limit ∧ b.position + b.extent ≤ b.length then
        (UInt64.ofNat (b.groupSum b.extent), b.advance b.extent)
      else if b.remaining < limit then
        (0, { b with position := b.length })
      else
        (0, b.advance limit) := by
  rw [readWord_eq_map h, readVarNat, readVarNatFrom_eq, Nat.zero_add, Nat.mul_zero,
    Nat.shiftLeft_zero]
  split
  · rfl
  · split
    · rfl
    · rfl

end WordReading

section ReadingBack

/-- Octets that were written are behind the cursor when it goes back to where they begin. -/
theorem Before.of_write_at {bs : Bytes} (h : b.fits bs.length = true) :
    ∃ rest, ((b.write bs).seek b.position).Before (bs ++ rest) := by
  have hroom := (fits_iff b bs.length).mp h
  have hposition : ((b.write bs).seek b.position).position = b.position := by
    simp only [seek, capacity_write]
    exact Nat.min_eq_left (Nat.le_of_add_right_le hroom)
  have hlength : b.position + bs.length ≤ (b.write bs).length := by
    rw [length_write h]
    exact Nat.le_max_right _ _
  obtain ⟨behind, hbehind⟩ := Nat.exists_eq_add_of_le hlength
  have hsplit : (b.write bs).length - b.position = bs.length + behind := by omega
  refine ⟨((b.write bs).storage.drop (b.position + bs.length)).take behind, ?_, ?_⟩
  · rw [hposition]
    exact Nat.le_of_add_right_le hlength
  · rw [Buffer.unread, contents, hposition]
    simp only [seek]
    rw [List.drop_take, hsplit, List.take_add, (stores_write h).stored, List.drop_drop]

/-- What was written is read back from where it was written, and the cursor stands behind it
again. -/
theorem read_write {α : Type} {read : Buffer → α × Buffer} {bs : Bytes} {value : α}
    (hread : Reads read bs value) (h : b.fits bs.length = true) :
    read ((b.write bs).seek b.position) = (value, b.write bs) := by
  obtain ⟨rest, hbefore⟩ := Before.of_write_at h
  have hroom := (fits_iff b bs.length).mp h
  have hseek : min b.position (b.write bs).capacity = b.position := by
    rw [capacity_write]
    exact Nat.min_eq_left (Nat.le_of_add_right_le hroom)
  rw [hread _ rest hbefore]
  simp only [seek, advance, hseek, ← position_write h]

/-- A reader takes the numeral of a word for that word, if the limit has room for it. -/
theorem reads_word {limit : Nat} (hlimit : limit < 10) {v : UInt64}
    (hv : v.toNat < Nat.pow 128 (limit + 1)) :
    Reads (readWord (limit + 1)) (Varint.ofWord v) v := by
  have hread := (reads_varNat hv).map UInt64.ofNat
  rw [UInt64.ofNat_toNat, ← Varint.ofWord_eq] at hread
  rwa [funext (readWord_eq_map hlimit)]

theorem writeVarNat_eq (b : Buffer) (v : UInt64) : b.writeVarNat v.toNat = b.writeWord v := by
  rw [writeVarNat, writeWord, Varint.ofWord_eq]

/-- Numbers that are written as words, are read as words within a limit, and come back. -/
structure WordCoded {α : Type} (write : Buffer → α → Buffer) (read : Buffer → α × Buffer)
    (limit : Nat) (toWord : α → UInt64) (ofWord : UInt64 → α) : Prop where
  write_eq : ∀ b v, write b v = b.writeWord (toWord v)
  read_eq : ∀ b, read b = (b.readWord limit).map ofWord id
  read_write : ∀ b v, b.fits (Varint.ofWord (toWord v)).length = true →
    read ((write b v).seek b.position) = (v, write b v)

namespace WordCoded

variable {α β : Type} {write : Buffer → α → Buffer} {read : Buffer → α × Buffer}
  {toWord : α → UInt64} {ofWord : UInt64 → α}

/-- Numbers come back if their words have no more octets than the limit. -/
theorem of_lt (limit : Nat) (hlimit : limit < 10)
    (hwrite : ∀ b v, write b v = b.writeVarNat (toWord v).toNat)
    (hread : ∀ b, read b = (b.readVarNat (limit + 1)).map (fun n => ofWord (UInt64.ofNat n)) id)
    (hback : ∀ v, ofWord (toWord v) = v)
    (hlt : ∀ v, (toWord v).toNat < Nat.pow 128 (limit + 1)) :
    WordCoded write read (limit + 1) toWord ofWord := by
  have hwords (b : Buffer) : read b = (b.readWord (limit + 1)).map ofWord id := by
    rw [hread, readWord_eq_map hlimit]
    rfl
  have hnumeral (b : Buffer) (v : α) : write b v = b.writeWord (toWord v) :=
    (hwrite b v).trans (writeVarNat_eq b _)
  refine ⟨hnumeral, hwords, fun b v hfits => ?_⟩
  rw [hnumeral, hwords, writeWord, Buffer.read_write (reads_word hlimit (hlt v)) hfits,
    Prod.map_apply, hback, id]

/-- Numbers that are folded before they are written and unfolded after they are read. -/
theorem fold {limit : Nat} (h : WordCoded write read limit toWord ofWord) {f : β → α} {g : α → β}
    (hback : ∀ v, g (f v) = v) :
    WordCoded (fun b v => write b (f v)) (fun b => (read b).map g id) limit
      (fun v => toWord (f v)) (fun w => g (ofWord w)) where
  write_eq b v := h.write_eq b (f v)
  read_eq b := by
    rw [h.read_eq]
    rfl
  read_write b v hfits := by
    rw [h.read_write b (f v) hfits, Prod.map_apply, hback, id]

end WordCoded

theorem wordCoded_varuint :
    WordCoded writeVaruint readVaruint 5 UInt32.toUInt64 UInt64.toUInt32 := by
  refine .of_lt 4 (by decide) (fun b v => ?_) (fun b => ?_) (fun v => ?_) (fun v => ?_)
  · rw [writeVaruint, UInt32.toNat_toUInt64]
  · simp only [UInt64.toUInt32_ofNat']
    rfl
  · exact UInt32.toUInt32_toUInt64 v
  · rw [UInt32.toNat_toUInt64]
    exact v.toNat_lt.trans (by decide)

theorem wordCoded_varulong : WordCoded writeVarulong readVarulong 10 id id :=
  .of_lt 9 (by decide) (fun _ _ => rfl) (fun _ => rfl) (fun _ => rfl)
    fun v => v.toNat_lt.trans (by decide)

end ReadingBack

section AllNumerals

/-- **Numerals to the octet**, for every number, every buffer and every limit up to ten octets.  A
word is written in one octet for every seven of its bits, one for zero and ten at most; the top bit
is set on all of them but the last.  What is read is the sum of the groups up to the first octet
with a clear top bit, modulo the size of a word, if that octet is within the limit and in front of
the mark; if not, zero, and the cursor goes to the mark if that is nearer than the limit, and else
as far as the limit.  The four kinds of numbers are written and read as words, the two with a sign
folded, and each number comes back where it was written.  With every access guarded nothing
fails. -/
theorem numerals_exact :
    (∀ v : UInt64,
      (Varint.ofWord v).length = max 1 ((v.toNat.size + 6) / 7) ∧
      (Varint.ofWord v).length ≤ 10 ∧
      (∃ front last, Varint.ofWord v = front ++ [last] ∧
        (∀ octet ∈ front, 128 ≤ octet) ∧ last < 128) ∧
      ∀ b : Buffer, b.fits (Varint.ofWord v).length = true →
        b.Stores b.position (Varint.ofWord v) (b.writeWord v)) ∧
    (∀ limit ≤ 10, ∀ b : Buffer,
      b.readWord limit =
        if b.extent ≤ limit ∧ b.position + b.extent ≤ b.length then
          (UInt64.ofNat (b.groupSum b.extent), b.advance b.extent)
        else if b.remaining < limit then
          (0, { b with position := b.length })
        else
          (0, b.advance limit)) ∧
    WordCoded writeVaruint readVaruint 5 UInt32.toUInt64 UInt64.toUInt32 ∧
    WordCoded writeVarulong readVarulong 10 id id ∧
    WordCoded writeVarint readVarint 5
      (fun v => (Varint.fold32 v).toUInt64) (fun w => Varint.unfold32 w.toUInt32) ∧
    WordCoded writeVarlong readVarlong 10 Varint.fold64 Varint.unfold64 ∧
    ∀ b : Buffer, b.Sound →
      (∀ v : UInt64, Guarded.writeVarNat v.toNat b = .ok (b.writeWord v)) ∧
      ∀ limit ≤ 10,
        (Guarded.readVarNatFrom 0 0 limit b).map (·.map UInt64.ofNat id) =
          .ok (b.readWord limit) := by
  refine ⟨fun v => ?_, fun limit hlimit => readWord_eq hlimit, wordCoded_varuint,
    wordCoded_varulong, wordCoded_varuint.fold Varint.unfold32_fold32,
    wordCoded_varulong.fold Varint.unfold64_fold64,
    fun b hb => ⟨fun v => ?_, fun limit hlimit => ?_⟩⟩
  · rw [Varint.ofWord_eq]
    have hten : v.toNat < 2 ^ (7 * (9 + 1)) := v.toNat_lt.trans (by decide)
    exact ⟨Varint.length_encode _, (Varint.length_encode_le_iff _ 9).mpr hten,
      Varint.exists_encode_eq _, fun b hfits => writeVarNat_eq b v ▸ stores_write hfits⟩
  · obtain ⟨hguarded, -⟩ := safe_writeVarNat v.toNat_lt b hb
    exact hguarded.trans (congrArg _ (writeVarNat_eq b v))
  · obtain ⟨hguarded, -⟩ := safe_readVarNatFrom 0 0 limit (by omega) b hb
    rw [hguarded, readWord_eq_map hlimit]
    rfl

/-- Nine octets that go on and a last one with all its bits: only the lowest of these has a place
in the word, and a reader of five octets stops before it.  What is cut short is passed over, and the
lowest number, which has ten octets, is read back. -/
theorem widest_numerals :
    let long := ofBytes (List.replicate 9 0x80 ++ [0x7F])
    let short := ofBytes [0x80, 0x80]
    let lowest := (empty 10).writeVarlong Int64.minValue
    long.readWord 10 = (0x8000000000000000, long.advance 10) ∧
      long.readWord 5 = (0, long.advance 5) ∧
      short.readWord 10 = (0, short.advance 2) ∧
      lowest.length = 10 ∧ (lowest.seek 0).readVarlong = (Int64.minValue, lowest) := by
  intro long short lowest
  obtain ⟨hwritten, hread, -, -, -, hlong, -⟩ := numerals_exact
  obtain ⟨-, hlength, -, -⟩ := hwritten (Varint.fold64 Int64.minValue)
  have hfits : (empty 10).fits (Varint.ofWord (Varint.fold64 Int64.minValue)).length = true := by
    rw [fits_iff, capacity_empty]
    exact (Nat.zero_add _).trans_le hlength
  refine ⟨?_, ?_, ?_, ?_, hlong.read_write (empty 10) Int64.minValue hfits⟩
  · rw [hread 10 (Nat.le_refl 10)]
    decide +kernel
  · rw [hread 5 (by decide)]
    decide +kernel
  · rw [hread 10 (Nat.le_refl 10)]
    decide +kernel
  · decide +kernel

end AllNumerals

end Buffer
end GameLink
