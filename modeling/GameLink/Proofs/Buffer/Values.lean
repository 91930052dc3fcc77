import GameLink.Buffer.Text
import GameLink.Buffer.Vector
import GameLink.Proofs.Buffer.Cursor
import GameLink.Proofs.Text.Utf8

/-!
# Values are read back from their octets

Each value that is written on its own has octets that its reader takes for it wherever
they stand: numbers of a fixed and of a variable width, octets with their count in front,
texts, components in quantization steps.

**Results.**
* `Varint.unfold_fold`: folding a signed number loses nothing, at any width.
* `reads_varNatFrom`: a base-128 numeral within the octet limit is read back.
* `reads_prefixed`: octets that four octets can count are read back.
-/

namespace GameLink

/-- The bits of a number are within its width. -/
theorem Buffer.Scalar.toNat_lt (s : Buffer.Scalar) : s.toNat < Nat.pow 256 s.kind.width := by
  cases s with
  | u8 v => exact v.toNat_lt
  | i8 v => exact v.toUInt8.toNat_lt
  | u16 v => exact v.toNat_lt
  | i16 v => exact v.toUInt16.toNat_lt
  | u32 v => exact v.toNat_lt
  | i32 v => exact v.toUInt32.toNat_lt
  | u64 v => exact v.toNat_lt
  | i64 v => exact v.toUInt64.toNat_lt
  | f32 v => exact v.bits.toNat_lt
  | f64 v => exact v.toNat_lt

namespace Varint

/-- Folding loses nothing: the sign is spread over the number one place up, and both are
found again, the sign in the lowest bit. -/
theorem unfold_fold {w : Nat} (x : BitVec (w + 1)) :
    ((x <<< 1 ^^^ x.sshiftRight w) >>> 1) ^^^
      -((x <<< 1 ^^^ x.sshiftRight w) &&& 1#(w + 1)) = x := by
  have hbit (i : Nat) (hi : i < w + 1) :
      (x <<< 1 ^^^ x.sshiftRight w).getLsbD i =
        ((decide (0 < i) && x.getLsbD (i - 1)) ^^ x.msb) := by
    have hsign : (x.sshiftRight w).getLsbD i = x.msb := by
      rw [BitVec.getLsbD_sshiftRight, BitVec.msb_eq_getLsbD_last, Nat.add_sub_cancel,
        decide_eq_false (Nat.not_le.mpr hi)]
      by_cases hzero : i = 0
      · subst hzero
        simp
      · rw [if_neg (by omega), Bool.not_false, Bool.true_and]
    rw [BitVec.getLsbD_xor, hsign, BitVec.getLsbD_shiftLeft]
    cases i with
    | zero => simp
    | succ i => simp [hi]
  have hmask : -((x <<< 1 ^^^ x.sshiftRight w) &&& 1#(w + 1)) =
      if x.msb then BitVec.allOnes (w + 1) else 0 := by
    rw [BitVec.and_one_eq_setWidth_ofBool_getLsbD, hbit 0 (Nat.zero_lt_succ w)]
    cases x.msb with
    | false => simp
    | true => simp [BitVec.neg_one_eq_allOnes]
  rw [hmask]
  apply BitVec.eq_of_getLsbD_eq
  intro i hi
  rw [BitVec.getLsbD_xor, BitVec.getLsbD_ushiftRight]
  by_cases hlast : i = w
  · -- the highest bit is the sign itself
    have htop : x.getLsbD i = x.msb := by
      rw [BitVec.msb_eq_getLsbD_last, hlast, Nat.add_sub_cancel]
    rw [htop, BitVec.getLsbD_of_ge _ _ (by omega)]
    cases x.msb with
    | false => simp
    | true => simp [hi]
  · have hnext : 1 + i - 1 = i := by omega
    rw [hbit (1 + i) (by omega), hnext, decide_eq_true (by omega)]
    cases x.msb with
    | false => simp
    | true => simp [hi]

theorem unfold32_fold32 (v : Int32) : unfold32 (fold32 v) = v := by
  apply Int32.toBitVec_inj.mp
  simpa [fold32, unfold32, Int32.toBitVec_shiftRight, Int32.toBitVec_shiftLeft]
    using unfold_fold v.toBitVec

theorem unfold64_fold64 (v : Int64) : unfold64 (fold64 v) = v := by
  apply Int64.toBitVec_inj.mp
  simpa [fold64, unfold64, Int64.toBitVec_shiftRight, Int64.toBitVec_shiftLeft]
    using unfold_fold v.toBitVec

end Varint

namespace Buffer

theorem reads_nat {width n : Nat} (h : n < Nat.pow 256 width) :
    Reads (readNat width) (Bytes.ofNat width n) n := by
  intro b rest hb
  have hread := hb.read?_eq
  rw [Bytes.length_ofNat] at hread ⊢
  simp only [readNat, hread, Bytes.toNat_ofNat]
  rw [Nat.mod_eq_of_lt h]

theorem reads_scalar (s : Scalar) : Reads (readScalar s.kind) s.toBytes s := by
  have hread := (reads_nat s.toNat_lt).map (Scalar.ofNat s.kind)
  rwa [s.ofNat_toNat] at hread

theorem reads_bool (v : Bool) :
    Reads readBool (Scalar.u8 (if v then 1 else 0)).toBytes v := by
  have hread := (reads_nat (Scalar.u8 (if v then 1 else 0)).toNat_lt).map
    fun n => UInt8.ofNat n != 0
  cases v with
  | false => exact hread
  | true => exact hread

theorem reads_bytes (bs : Bytes) : Reads (readBytes bs.length) bs bs := by
  intro b rest hb
  simp only [readBytes, hb.read?_eq]

/-- The octet at the cursor decides whether a numeral goes on. -/
theorem readVarNatFrom_succ
    {b : Buffer} {octet : UInt8} {rest : Bytes} (h : b.Before (octet :: rest))
    (value place limit : Nat) :
    readVarNatFrom value place (limit + 1) b =
      if octet.toNat < 128 then
        (value + (octet.toNat % 128) <<< (7 * place), b.advance 1)
      else
        readVarNatFrom (value + (octet.toNat % 128) <<< (7 * place)) (place + 1) limit
          (b.advance 1) := by
  obtain ⟨hroom, hoctet⟩ := h.getD_storage
  simp only [readVarNatFrom, if_pos hroom, hoctet]

theorem reads_lastGroup (limit value place : Nat) {n : Nat} (hn : n < 128) :
    Reads (readVarNatFrom value place (limit + 1)) (Varint.encode n)
      (value + n <<< (7 * place)) := by
  have hoctet : (UInt8.ofNat n).toNat = n := Utf8.toNat_octet (by omega)
  intro b rest hb
  rw [Varint.encode, if_pos hn] at hb ⊢
  rw [readVarNatFrom_succ hb, hoctet, if_pos hn, Nat.mod_eq_of_lt hn]
  rfl

/-- The lowest group of a number and the number of the others, one place up. -/
theorem add_groups (place n : Nat) :
    (n % 128) <<< (7 * place) + (n / 128) <<< (7 * (place + 1)) = n <<< (7 * place) := by
  have hpow : 2 ^ (7 * (place + 1)) = 128 * 2 ^ (7 * place) := by
    rw [Nat.mul_add, Nat.pow_add, Nat.mul_comm]
  rw [Nat.shiftLeft_eq, Nat.shiftLeft_eq, Nat.shiftLeft_eq, hpow, ← Nat.mul_assoc,
    ← Nat.add_mul, Nat.mul_comm (n / 128), Nat.mod_add_div]

/-- A numeral is read on top of the groups in front of it. -/
theorem reads_varNatFrom
    (limit value place n : Nat) (h : n < Nat.pow 128 (limit + 1)) :
    Reads (readVarNatFrom value place (limit + 1)) (Varint.encode n)
      (value + n <<< (7 * place)) := by
  induction limit generalizing value place n with
  | zero => exact reads_lastGroup 0 value place h
  | succ limit ih =>
      by_cases hn : n < 128
      · exact reads_lastGroup (limit + 1) value place hn
      · have hoctet : (UInt8.ofNat (n % 128 + 128)).toNat = n % 128 + 128 :=
          Utf8.toNat_octet (by omega)
        have hgroup : (n % 128 + 128) % 128 = n % 128 := by omega
        have hhigher : n / 128 < Nat.pow 128 (limit + 1) := by
          rw [Nat.div_lt_iff_lt_mul (by decide)]
          exact h
        have hrest := ih (value + (n % 128) <<< (7 * place)) (place + 1) (n / 128) hhigher
        rw [Nat.add_assoc, add_groups] at hrest
        intro b rest hb
        rw [Varint.encode, if_neg hn] at hb ⊢
        have hbehind : (b.advance 1).Before (Varint.encode (n / 128) ++ rest) :=
          (show b.Before ([_] ++ (_ ++ rest)) from hb).advance
        rw [readVarNatFrom_succ hb, hoctet, if_neg (by omega), hgroup, hrest _ rest hbehind,
          advance_advance, List.length_cons, Nat.add_comm 1]

theorem reads_varNat {limit n : Nat} (h : n < Nat.pow 128 (limit + 1)) :
    Reads (readVarNat (limit + 1)) (Varint.encode n) n := by
  have hread := reads_varNatFrom limit 0 0 n h
  rwa [Nat.zero_add, Nat.mul_zero, Nat.shiftLeft_zero] at hread

theorem reads_varuint (v : UInt32) : Reads readVaruint (Varint.encode v.toNat) v := by
  have hlimit : v.toNat < Nat.pow 128 5 := Nat.lt_trans v.toNat_lt (by decide)
  have hread := (reads_varNat hlimit).map UInt32.ofNat
  rwa [UInt32.ofNat_toNat] at hread

theorem reads_varulong (v : UInt64) : Reads readVarulong (Varint.encode v.toNat) v := by
  have hlimit : v.toNat < Nat.pow 128 10 := Nat.lt_trans v.toNat_lt (by decide)
  have hread := (reads_varNat hlimit).map UInt64.ofNat
  rwa [UInt64.ofNat_toNat] at hread

theorem reads_varint (v : Int32) :
    Reads readVarint (Varint.encode (Varint.fold32 v).toNat) v := by
  have hread := (reads_varuint (Varint.fold32 v)).map Varint.unfold32
  rwa [Varint.unfold32_fold32] at hread

theorem reads_varlong (v : Int64) :
    Reads readVarlong (Varint.encode (Varint.fold64 v).toNat) v := by
  have hread := (reads_varulong (Varint.fold64 v)).map Varint.unfold64
  rwa [Varint.unfold64_fold64] at hread

/-- The count says where the octets end. -/
theorem reads_prefixed {bs : Bytes} (h : bs.length < UInt32.size) :
    Reads readPrefixed (Bytes.ofNat 4 bs.length ++ bs) bs := by
  intro b rest hb
  rw [List.append_assoc] at hb
  have hcount := reads_nat (show bs.length < Nat.pow 256 4 from h) b _ hb
  have hbody := hb.advance
  rw [Bytes.length_ofNat] at hcount hbody
  have hroom : bs.length ≤ (b.advance 4).remaining := by
    have hfits := hbody.position_add_le
    rw [remaining]
    omega
  rw [readPrefixed, hcount]
  simp only [if_neg (Nat.not_lt.mpr hroom), reads_bytes bs _ rest hbody, advance_advance,
    List.length_append, Bytes.length_ofNat]

theorem reads_text {s : String} (h : (Utf8.encode s).length < UInt32.size) :
    Reads readText (Bytes.ofNat 4 (Utf8.encode s).length ++ Utf8.encode s) s := by
  have hread := (reads_prefixed h).map Utf8.decode
  rwa [Utf8.decode_encode] at hread

theorem reads_ascii {s : String} (h : (Ascii.encode s).length < UInt32.size) :
    Reads readAscii (Bytes.ofNat 4 (Ascii.encode s).length ++ Ascii.encode s)
      (Ascii.clamp s) := by
  have hread := (reads_prefixed h).map Ascii.decode
  rwa [Ascii.decode_encode] at hread

/-- Three parts that stand one after the other are read one after the other. -/
theorem Reads.three
    {α : Type} {read : Buffer → α × Buffer} {xs ys zs : Bytes} {x y z : α}
    (hx : Reads read xs x) (hy : Reads read ys y) (hz : Reads read zs z) :
    Reads
      (fun b =>
        ( ((read b).1, (read (read b).2).1, (read (read (read b).2).2).1),
          (read (read (read b).2).2).2 ))
      (xs ++ (ys ++ zs)) (x, y, z) := by
  intro b rest hb
  rw [List.append_assoc, List.append_assoc] at hb
  have hsecond := hb.advance
  have hthird := hsecond.advance
  rw [advance_advance] at hthird
  simp only [hx b _ hb, hy _ _ hsecond, hz _ _ hthird, advance_advance, List.length_append,
    Nat.add_assoc]

theorem reads_component (x : Single) :
    Reads readComponent (Scalar.i16 x.quantize).toBytes (Single.dequantize x.quantize) := by
  have hread := (reads_nat (Scalar.i16 x.quantize).toNat_lt).map fun n =>
    Single.dequantize (UInt16.ofNat n).toInt16
  have hback : (UInt16.ofNat (Scalar.i16 x.quantize).toNat).toInt16 = x.quantize := by
    simp [Scalar.toNat]
  rwa [hback] at hread

theorem reads_components (x y z : Single) :
    Reads readComponents (quantizedBytes x y z)
      (Single.dequantize x.quantize, Single.dequantize y.quantize,
        Single.dequantize z.quantize) := by
  have hbytes : quantizedBytes x y z =
      (Scalar.i16 x.quantize).toBytes ++
        ((Scalar.i16 y.quantize).toBytes ++ (Scalar.i16 z.quantize).toBytes) := by
    simp only [quantizedBytes, List.flatMap_cons, List.flatMap_nil, List.append_nil]
  rw [hbytes]
  exact (reads_component x).three (reads_component y) (reads_component z)

theorem length_quantizedBytes (x y z : Single) : (quantizedBytes x y z).length = 6 := by
  simp [quantizedBytes, Scalar.kind, ScalarKind.width]

theorem reads_vector (v : Vector3) :
    Reads readVector (vectorBytes v) (v.map fun c => Single.dequantize c.quantize) := by
  intro b rest hb
  have hroom := hb.holds
  rw [vectorBytes, length_quantizedBytes] at hroom
  simp only [readVector, hroom, if_true, reads_components v.x v.y v.z b rest hb, Vector3.map,
    vectorBytes]

theorem reads_rotator (r : Rotator) :
    Reads readRotator (rotatorBytes r) (r.map fun c => Single.dequantize c.quantize) := by
  intro b rest hb
  have hroom := hb.holds
  rw [rotatorBytes, length_quantizedBytes] at hroom
  simp only [readRotator, hroom, if_true, reads_components r.pitch r.yaw r.roll b rest hb,
    Rotator.map, rotatorBytes]

/-- The octets of a whole vector: the integer parts one after the other. -/
def wholeBytes (v : Vector3) : Bytes :=
  Varint.encode (Varint.fold32 v.x.truncate).toNat ++
    (Varint.encode (Varint.fold32 v.y.truncate).toNat ++
      Varint.encode (Varint.fold32 v.z.truncate).toNat)

theorem reads_wholeVector (v : Vector3) :
    Reads readWholeVector (wholeBytes v) (v.map fun c => Single.ofInt32 c.truncate) := by
  have hread := (reads_varint v.x.truncate).three (reads_varint v.y.truncate)
    (reads_varint v.z.truncate)
  exact hread.map fun whole =>
    Vector3.mk (.ofInt32 whole.1) (.ofInt32 whole.2.1) (.ofInt32 whole.2.2)

/-- The integer parts are written each for itself; if all fit, that is one write. -/
theorem writeWholeVector_eq
    {b : Buffer} {v : Vector3} (hfits : b.fits (wholeBytes v).length = true) :
    b.writeWholeVector v = b.write (wholeBytes v) := by
  rw [wholeBytes] at hfits ⊢
  rw [← write_write hfits, ← write_write (fits_write hfits)]
  rfl

end Buffer
end GameLink
