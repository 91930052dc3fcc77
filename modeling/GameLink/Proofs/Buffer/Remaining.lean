import GameLink.Proofs.Buffer.Values

/-!
# What is left to read

A reader takes its octets from what is left, or, if that is too short, takes nothing and
gives zero.

**Results.**
* `Left.read?_of_short`: what is too short stays where it is.
* `Left.of_write_at_end`: what is written at the end is what is left from there.
* `Octets.short_or_append`, `Scalar.short_or_append`: what is not too short for a field
  begins with one.
-/

namespace GameLink
namespace Buffer

/-- The octets behind the cursor are all that is left to read. -/
structure Left (b : Buffer) (bs : Bytes) : Prop extends Before b bs where
  /-- The mark is within the storage. -/
  length_le : b.length ≤ b.capacity

namespace Left

variable {b : Buffer} {bs rest : Bytes}

theorem advance (h : b.Left (bs ++ rest)) : (b.advance bs.length).Left rest where
  toBefore := h.toBefore.advance
  length_le := h.length_le

theorem remaining_eq (h : b.Left bs) : b.remaining = bs.length := by
  have hlength := congrArg List.length h.unread
  have hbound := h.length_le
  rw [capacity] at hbound
  rw [Buffer.unread, contents, List.length_drop, List.length_take] at hlength
  rw [remaining]
  omega

theorem holds_iff (h : b.Left bs) (n : Nat) : b.holds n = true ↔ n ≤ bs.length := by
  have hremaining := h.remaining_eq
  have hposition := h.position_le
  rw [remaining] at hremaining
  rw [holds, decide_eq_true_iff]
  omega

/-- What is too short stays where it is. -/
theorem read?_of_short {n : Nat} (h : b.Left bs) (hshort : bs.length < n) :
    b.read? n = (none, b) := by
  have hmissing : ¬ b.holds n = true := by
    rw [h.holds_iff]
    omega
  rw [read?, if_neg hmissing]

theorem readNat_of_short {width : Nat} (h : b.Left bs) (hshort : bs.length < width) :
    b.readNat width = (0, b) := by
  simp only [readNat, h.read?_of_short hshort]

/-- What is written at the end is what is left from there. -/
theorem of_write_at_end (hroom : b.length + bs.length ≤ b.capacity) :
    (((b.seek b.length).write bs).seek b.length).Left bs ∧
      (((b.seek b.length).write bs).seek b.length).position = b.length ∧
      (((b.seek b.length).write bs).seek b.length).length = b.length + bs.length := by
  have hseek : (b.seek b.length).position = b.length :=
    Nat.min_eq_left (Nat.le_of_add_right_le hroom)
  have hfits : (b.seek b.length).fits bs.length = true := by
    rw [fits_iff, hseek]
    exact hroom
  have hposition : (((b.seek b.length).write bs).seek b.length).position = b.length := by
    simp only [seek, capacity_write]
    exact hseek
  have hlength :
      (((b.seek b.length).write bs).seek b.length).length = b.length + bs.length := by
    have hwritten := length_write hfits
    rw [hseek] at hwritten
    exact hwritten.trans (Nat.max_eq_right (Nat.le_add_right _ _))
  have hstart : (b.storage.take b.length ++ bs).length = b.length + bs.length := by
    have htaken := length_take_append hfits
    rw [hseek] at htaken
    exact htaken
  have hstorage : (((b.seek b.length).write bs).seek b.length).storage =
      b.storage.take b.length ++ bs ++ b.storage.drop (b.length + bs.length) := by
    have hwritten := storage_write hfits
    rw [hseek] at hwritten
    exact hwritten
  refine ⟨⟨⟨?_, ?_⟩, ?_⟩, hposition, hlength⟩
  · rw [hposition, hlength]
    exact Nat.le_add_right _ _
  · rw [Buffer.unread, contents, hposition, hlength, hstorage, List.take_left' hstart]
    rw [List.length_append] at hstart
    exact List.drop_left' (Nat.add_right_cancel hstart)
  · rw [hlength, capacity_seek, capacity_write]
    exact hroom

end Left

theorem left_ofBytes (bs : Bytes) : (ofBytes bs).Left bs where
  position_le := Nat.zero_le _
  unread := by simp [unread, contents, ofBytes, empty]
  length_le := Nat.le_refl _

theorem reads_u16 (v : UInt16) : Reads readU16 (Scalar.u16 v).toBytes v := by
  have hread := (reads_nat (Scalar.u16 v).toNat_lt).map UInt16.ofNat
  rwa [show UInt16.ofNat (Scalar.u16 v).toNat = v from UInt16.ofNat_toNat] at hread

theorem reads_u32 (v : UInt32) : Reads readU32 (Scalar.u32 v).toBytes v := by
  have hread := (reads_nat (Scalar.u32 v).toNat_lt).map UInt32.ofNat
  rwa [show UInt32.ofNat (Scalar.u32 v).toNat = v from UInt32.ofNat_toNat] at hread

theorem reads_octets {n : Nat} (o : Octets n) : Reads (readOctets n) o.bytes o := by
  intro b rest hb
  have hread := hb.read?_eq
  rw [o.length_eq] at hread ⊢
  simp only [readOctets, hread, Octets.ofBytes?_bytes, Option.getD_some]

end Buffer

section FieldOctets

/-- A byte string is too short for some octets, or it begins with them. -/
theorem Octets.short_or_append (n : Nat) (bs : Bytes) :
    bs.length < n ∨ ∃ (o : Octets n) (tail : Bytes), bs = o.bytes ++ tail := by
  rcases Nat.lt_or_ge bs.length n with hshort | hlong
  · exact Or.inl hshort
  · exact Or.inr
      ⟨⟨bs.take n, List.length_take_of_le hlong⟩, bs.drop n, (List.take_append_drop n bs).symm⟩

/-- The bits of a number are the number that was given, if they have room. -/
theorem Buffer.Scalar.toNat_ofNat
    {kind : Buffer.ScalarKind} {n : Nat} (h : n < Nat.pow 256 kind.width) :
    (Buffer.Scalar.ofNat kind n).toNat = n := by
  cases kind with
  | u8 | i8 => exact Nat.mod_eq_of_lt h
  | u16 | i16 => exact Nat.mod_eq_of_lt h
  | u32 | i32 | f32 => exact Nat.mod_eq_of_lt h
  | u64 | i64 | f64 => exact Nat.mod_eq_of_lt h

/-- Octets in the width of a number type are the octets of a number. -/
theorem Buffer.Scalar.exists_toBytes_eq
    {kind : Buffer.ScalarKind} {bs : Bytes} (h : bs.length = kind.width) :
    ∃ s : Buffer.Scalar, s.kind = kind ∧ s.toBytes = bs := by
  have hlt := Bytes.toNat_lt bs
  have hback := Bytes.ofNat_toNat bs
  rw [h] at hlt hback
  refine ⟨.ofNat kind (Bytes.toNat bs), Buffer.Scalar.kind_ofNat .., ?_⟩
  rw [Buffer.Scalar.toBytes, Buffer.Scalar.kind_ofNat, Buffer.Scalar.toNat_ofNat hlt, hback]

/-- A byte string is too short for a number, or it begins with one. -/
theorem Buffer.Scalar.short_or_append (kind : Buffer.ScalarKind) (bs : Bytes) :
    bs.length < kind.width ∨
      ∃ (s : Buffer.Scalar) (tail : Bytes), s.kind = kind ∧ bs = s.toBytes ++ tail := by
  rcases Nat.lt_or_ge bs.length kind.width with hshort | hlong
  · exact Or.inl hshort
  · right
    obtain ⟨s, hkind, hbytes⟩ := exists_toBytes_eq (List.length_take_of_le hlong)
    exact ⟨s, bs.drop kind.width, hkind, by rw [hbytes, List.take_append_drop]⟩

end FieldOctets

end GameLink
