import GameLink.Buffer.Item
import Mathlib.Data.Nat.Basic
import Mathlib.Order.Basic

/-!
# Readers of whole octets

Bits are read from an octet that was loaded before; every other value is read from the octets at
the cursor, so many of them at most, and has nothing to do with the bits that are waiting or left
over.

**Results.**
* `OctetReader.bind`, `OctetReader.ite`: readers made of readers.
* `octetReader_kind`: every value but bits is read so.
-/

namespace GameLink
namespace Buffer

/-- The octets, the cursor and the mark of a buffer with the bits of another. -/
def withBits (b bits : Buffer) : Buffer :=
  { bits with storage := b.storage, position := b.position, length := b.length }

/-- A reader that takes at most so many octets and has nothing to do with bits. -/
structure OctetReader {α : Type} (read : Buffer → α × Buffer) (count : Nat) : Prop where
  blind : ∀ b bits, read (b.withBits bits) = (read b).map id (·.withBits bits)
  position_le : ∀ b, (read b).2.position ≤ b.position + count

namespace OctetReader

variable {α β : Type} {read other : Buffer → α × Buffer} {m n : Nat}

theorem pure (v : α) : OctetReader (fun b => (v, b)) 0 :=
  ⟨fun _ _ => rfl, fun _ => Nat.le_refl _⟩

theorem mono (h : OctetReader read m) (hle : m ≤ n) : OctetReader read n :=
  ⟨h.blind, fun b => (h.position_le b).trans (Nat.add_le_add_left hle _)⟩

theorem map (h : OctetReader read n) (f : α → β) :
    OctetReader (fun b => let (v, rest) := read b; (f v, rest)) n where
  blind b bits := by
    simp only [h.blind b bits]
    rfl
  position_le := h.position_le

/-- Two readers one after the other; the second depends on something that the first can read. -/
theorem bind {next : α → Buffer → β × Buffer} (h : OctetReader read m)
    (hnext : ∀ v, (∃ b, (read b).1 = v) → OctetReader (next v) n) :
    OctetReader (fun b => let (v, rest) := read b; next v rest) (m + n) where
  blind b bits := by
    simp only [h.blind b bits]
    exact (hnext _ ⟨b, rfl⟩).blind (read b).2 bits
  position_le b := by
    have hfirst := h.position_le b
    have hsecond := (hnext _ ⟨b, rfl⟩).position_le (read b).2
    exact hsecond.trans (by omega)

/-- A choice that is made without looking at the bits. -/
theorem ite {c : Buffer → Prop} [DecidablePred c] (hc : ∀ b bits, c (b.withBits bits) ↔ c b)
    (h : OctetReader read n) (hother : OctetReader other n) :
    OctetReader (fun b => if c b then read b else other b) n where
  blind b bits := by
    by_cases hb : c b
    · simp only [if_pos hb, if_pos ((hc b bits).mpr hb), h.blind b bits]
    · simp only [if_neg hb, if_neg (mt (hc b bits).mp hb), hother.blind b bits]
  position_le b := by
    by_cases hb : c b
    · simp only [if_pos hb]
      exact h.position_le b
    · simp only [if_neg hb]
      exact hother.position_le b

end OctetReader

theorem octetReader_read? (n : Nat) : OctetReader (fun b => b.read? n) n where
  blind b bits := by
    have hholds : (b.withBits bits).holds n = b.holds n := rfl
    simp only [read?, hholds]
    split <;> rfl
  position_le b := by
    simp only [read?]
    split
    · exact Nat.le_refl _
    · exact Nat.le_add_right _ _

theorem OctetReader.of_read? {α : Type} {read : Buffer → α × Buffer} {n : Nat}
    (f : Option Bytes → α) (h : ∀ b, read b = (f (b.read? n).1, (b.read? n).2)) :
    OctetReader read n := by
  rw [funext h]
  exact (octetReader_read? n).map f

theorem octetReader_readNat (width : Nat) : OctetReader (readNat width) width := by
  refine .of_read? (·.elim 0 Bytes.toNat) fun b => ?_
  rw [readNat]
  generalize b.read? width = outcome
  obtain ⟨_ | bs, rest⟩ := outcome
  · rfl
  · rfl

theorem octetReader_readBytes (n : Nat) : OctetReader (readBytes n) n := by
  refine .of_read? (·.getD []) fun b => ?_
  rw [readBytes]
  generalize b.read? n = outcome
  obtain ⟨_ | bs, rest⟩ := outcome
  · rfl
  · rfl

theorem octetReader_readOctets (n : Nat) : OctetReader (readOctets n) n := by
  refine .of_read?
    (·.elim (Octets.zero n) fun bs => (Octets.ofBytes? n bs).getD (Octets.zero n)) fun b => ?_
  rw [readOctets]
  generalize b.read? n = outcome
  obtain ⟨_ | bs, rest⟩ := outcome
  · rfl
  · rfl

theorem octetReader_readU8 : OctetReader readU8 1 :=
  (octetReader_readNat 1).map UInt8.ofNat

theorem readNat_lt (width : Nat) (b : Buffer) : (b.readNat width).1 < Nat.pow 256 width := by
  simp only [readNat, read?]
  by_cases hheld : b.holds width = true
  · rw [if_pos hheld]
    refine (Bytes.toNat_lt _).trans_le (Nat.pow_le_pow_right (by decide) ?_)
    rw [upcoming, List.length_take]
    exact Nat.min_le_left _ _
  · rw [if_neg hheld]
    exact Nat.pow_pos (by decide)

theorem octetReader_readVarNatFrom (value place limit : Nat) :
    OctetReader (readVarNatFrom value place limit) limit := by
  induction limit generalizing value place with
  | zero => exact .pure 0
  | succ limit ih =>
      constructor
      · intro b bits
        have hmore :
            (b.withBits bits).position < (b.withBits bits).length ↔ b.position < b.length :=
          Iff.rfl
        have hoctet : (b.withBits bits).storage.getD (b.withBits bits).position 0 =
            b.storage.getD b.position 0 := rfl
        simp only [readVarNatFrom, hmore, hoctet]
        split
        · split
          · rfl
          · exact (ih _ _).blind (b.advance 1) bits
        · rfl
      · intro b
        simp only [readVarNatFrom]
        split
        · split
          · simp only [advance]
            omega
          · refine ((ih _ _).position_le (b.advance 1)).trans ?_
            simp only [advance]
            omega
        · simp only
          omega

theorem octetReader_readVaruint : OctetReader readVaruint 5 :=
  (octetReader_readVarNatFrom 0 0 Varint.limit32).map UInt32.ofNat

theorem octetReader_readVarulong : OctetReader readVarulong 10 :=
  (octetReader_readVarNatFrom 0 0 Varint.limit64).map UInt64.ofNat

theorem octetReader_readVarint : OctetReader readVarint 5 :=
  octetReader_readVaruint.map Varint.unfold32

theorem octetReader_readPrefixed : OctetReader readPrefixed (4 + UInt32.size) := by
  have hoctets (count : Nat) (hcount : ∃ b, (readNat 4 b).1 = count) :
      OctetReader (fun rest => if rest.remaining < count then ([], rest) else rest.readBytes count)
        UInt32.size := by
    obtain ⟨b, rfl⟩ := hcount
    exact .ite (fun _ _ => Iff.rfl) ((OctetReader.pure []).mono (Nat.zero_le _))
      ((octetReader_readBytes _).mono (readNat_lt 4 b).le)
  exact (octetReader_readNat 4).bind hoctets

theorem octetReader_readComponents : OctetReader readComponents 6 := by
  have hcomponent : OctetReader readComponent 2 :=
    ((octetReader_readNat 2).map fun n => (UInt16.ofNat n).toInt16).map Single.dequantize
  exact hcomponent.bind fun x _ => hcomponent.bind fun y _ => hcomponent.map fun z => (x, y, z)

section Kinds

/-- At most how many octets are read for a value. -/
def Kind.reach : Kind → Nat
  | .scalar k => k.width
  | .bool | .bit => 1
  | .bytes count | .bits count => count
  | .varint | .varuint => 5
  | .varlong | .varulong => 10
  | .text | .ascii => 4 + UInt32.size
  | .vector | .rotator => 6
  | .wholeVector => 15

def Kind.bitCount : Kind → Nat
  | .bit => 1
  | .bits count => count
  | _ => 0

/-- Values other than bits are read without regard to the bits. -/
theorem octetReader_kind {kind : Kind} (h : kind.bitCount = 0) :
    OctetReader (fun b => kind.read b) kind.reach := by
  cases kind with
  | scalar k => exact ((octetReader_readNat k.width).map (Scalar.ofNat k)).map Item.scalar
  | bool => exact (octetReader_readU8.map fun v => v != 0).map Item.bool
  | bytes count => exact (octetReader_readBytes count).map Item.bytes
  | varint => exact octetReader_readVarint.map Item.varint
  | varlong => exact (octetReader_readVarulong.map Varint.unfold64).map Item.varlong
  | varuint => exact octetReader_readVaruint.map Item.varuint
  | varulong => exact octetReader_readVarulong.map Item.varulong
  | text => exact (octetReader_readPrefixed.map Utf8.decode).map Item.text
  | ascii => exact (octetReader_readPrefixed.map Ascii.decode).map Item.ascii
  | vector =>
      have hvector := octetReader_readComponents.map fun c => (⟨c.1, c.2.1, c.2.2⟩ : Vector3)
      exact (hvector.ite (c := fun b => b.holds 6 = true) (fun _ _ => Iff.rfl)
        ((OctetReader.pure Vector3.zero).mono (Nat.zero_le _))).map Item.vector
  | rotator =>
      have hrotator := octetReader_readComponents.map fun c => (⟨c.1, c.2.1, c.2.2⟩ : Rotator)
      exact (hrotator.ite (c := fun b => b.holds 6 = true) (fun _ _ => Iff.rfl)
        ((OctetReader.pure Rotator.zero).mono (Nat.zero_le _))).map Item.rotator
  | wholeVector =>
      have hwhole := octetReader_readVarint.bind fun x _ => octetReader_readVarint.bind fun y _ =>
        octetReader_readVarint.map fun z =>
          (⟨.ofInt32 x, .ofInt32 y, .ofInt32 z⟩ : Vector3)
      exact hwhole.map Item.wholeVector
  | bit => cases h
  | bits count =>
      obtain rfl : count = 0 := h
      exact (OctetReader.pure []).map Item.bits

/-- What reading whole octets leaves alone. -/
theorem OctetReader.untouched {α : Type} {read : Buffer → α × Buffer} {n : Nat}
    (h : OctetReader read n) (b : Buffer) : (read b).2.withBits b = (read b).2 :=
  (congrArg Prod.snd (h.blind b b)).symm

end Kinds

end Buffer
end GameLink
