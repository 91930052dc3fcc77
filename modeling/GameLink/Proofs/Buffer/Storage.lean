import GameLink.Proofs.Buffer.Writes

/-!
# Other octets in the storage

What reading and writing come to if other octets stand in the storage of a buffer.

**Reading.** No octet behind the mark is seen.

**Writing.** Which octets are stored, and how far, does not depend on the octets that are there.

**Results.**
* `contentReader_kind`: what is read depends on the contents alone.
* `cursorWriter_item`: an item is stored at the cursor, over whatever stands there.
-/

namespace GameLink
namespace Buffer

variable {b b' b'' : Buffer} {s : Bytes}

/-- The buffer with other octets in its storage. -/
def onto (b : Buffer) (s : Bytes) : Buffer :=
  { b with storage := s }

@[simp] theorem capacity_onto (b : Buffer) (s : Bytes) : (b.onto s).capacity = s.length := by
  rfl

section Readers

/-- From one buffer to the next nothing was written, and the cursor did not pass the mark. -/
structure Perused (b b' : Buffer) : Prop where
  storage : b'.storage = b.storage
  length : b'.length = b.length
  position_le : b'.position ≤ max b.position b.length

namespace Perused

theorem refl (b : Buffer) : b.Perused b :=
  ⟨rfl, rfl, Nat.le_max_left _ _⟩

theorem trans (h : b.Perused b') (h' : b'.Perused b'') : b.Perused b'' where
  storage := h'.storage.trans h.storage
  length := h'.length.trans h.length
  position_le := by
    have hfirst := h.position_le
    have hsecond := h'.position_le
    rw [h.length] at hsecond
    omega

theorem contents_onto (h : b.Perused b') (hs : (b.onto s).contents = b.contents) :
    (b'.onto s).contents = b'.contents := by
  simp only [contents, onto] at hs ⊢
  rw [h.length, h.storage]
  exact hs

end Perused

/-- A reader that sees nothing of the storage but the contents, and writes nothing. -/
def ContentReader {α : Type} (read : Buffer → α × Buffer) : Prop :=
  ∀ b, b.Perused (read b).2 ∧
    ∀ s, (b.onto s).contents = b.contents → read (b.onto s) = (read b).map id (·.onto s)

namespace ContentReader

variable {α β : Type} {read : Buffer → α × Buffer}

theorem pure (v : α) : ContentReader fun b => (v, b) :=
  fun b => ⟨.refl b, fun _ _ => rfl⟩

theorem map (h : ContentReader read) (f : α → β) :
    ContentReader (fun b => let (v, rest) := read b; (f v, rest)) := by
  intro b
  obtain ⟨hperused, hread⟩ := h b
  refine ⟨hperused, fun s hs => ?_⟩
  simp only [hread s hs]
  rfl

theorem bind {next : α → Buffer → β × Buffer} (h : ContentReader read)
    (hnext : ∀ v, ContentReader (next v)) :
    ContentReader (fun b => let (v, rest) := read b; next v rest) := by
  intro b
  obtain ⟨hperused, hread⟩ := h b
  obtain ⟨hagain, hrest⟩ := hnext (read b).1 (read b).2
  refine ⟨hperused.trans hagain, fun s hs => ?_⟩
  simp only [hread s hs]
  exact hrest s (hperused.contents_onto hs)

/-- A choice that is made without the storage. -/
theorem ite {other : Buffer → α × Buffer} {c : Buffer → Prop} [DecidablePred c]
    (hc : ∀ b s, c (b.onto s) ↔ c b) (h : ContentReader read) (hother : ContentReader other) :
    ContentReader (fun b => if c b then read b else other b) := by
  intro b
  by_cases hb : c b
  · simp only [if_pos hb]
    refine ⟨(h b).1, fun s hs => ?_⟩
    rw [if_pos ((hc b s).mpr hb)]
    exact (h b).2 s hs
  · simp only [if_neg hb]
    refine ⟨(hother b).1, fun s hs => ?_⟩
    rw [if_neg (mt (hc b s).mp hb)]
    exact (hother b).2 s hs

end ContentReader

/-- Octets in front of the mark are part of the contents. -/
theorem upcoming_onto {n : Nat} (h : b.position + n ≤ b.length)
    (hs : (b.onto s).contents = b.contents) : (b.onto s).upcoming n = b.upcoming n := by
  have hseen (t : Bytes) :
      (t.drop b.position).take n = ((t.take b.length).drop b.position).take n := by
    rw [List.drop_take, List.take_take, Nat.min_eq_left (by omega)]
  simp only [upcoming, onto, contents] at hs ⊢
  rw [hseen s, hs, ← hseen]

theorem peek?_onto (n : Nat) (hs : (b.onto s).contents = b.contents) :
    (b.onto s).peek? n = b.peek? n := by
  have hholds : (b.onto s).holds n = b.holds n := rfl
  simp only [peek?, hholds]
  split
  · rename_i h
    rw [upcoming_onto (of_decide_eq_true h) hs]
  · rfl

theorem contentReader_read? (n : Nat) : ContentReader fun b => b.read? n := by
  intro b
  simp only [read?]
  by_cases h : b.holds n = true
  · have hroom : b.position + n ≤ b.length := of_decide_eq_true h
    refine ⟨?_, fun s hs => ?_⟩
    · rw [if_pos h]
      exact ⟨rfl, rfl, hroom.trans (Nat.le_max_right _ _)⟩
    · rw [if_pos h, if_pos (show (b.onto s).holds n = true from h), upcoming_onto hroom hs]
      rfl
  · refine ⟨?_, fun s _ => ?_⟩
    · rw [if_neg h]
      exact .refl b
    · rw [if_neg h, if_neg (show ¬ (b.onto s).holds n = true from h)]
      rfl

/-- What is made of octets that may be missing. -/
theorem ContentReader.of_read? {α : Type} {read : Buffer → α × Buffer} {n : Nat}
    (f : Option Bytes → α) (h : ∀ b, read b = (f (b.read? n).1, (b.read? n).2)) :
    ContentReader read := by
  rw [funext h]
  exact (contentReader_read? n).map f

theorem contentReader_readNat (width : Nat) : ContentReader (readNat width) := by
  refine .of_read? (n := width) (·.elim 0 Bytes.toNat) fun b => ?_
  rw [readNat]
  generalize b.read? width = outcome
  obtain ⟨_ | bs, rest⟩ := outcome
  · rfl
  · rfl

theorem contentReader_readBytes (n : Nat) : ContentReader (readBytes n) := by
  refine .of_read? (n := n) (·.getD []) fun b => ?_
  rw [readBytes]
  generalize b.read? n = outcome
  obtain ⟨_ | bs, rest⟩ := outcome
  · rfl
  · rfl

theorem contentReader_readOctets (n : Nat) : ContentReader (readOctets n) := by
  refine .of_read? (n := n)
    (·.elim (Octets.zero n) fun bs => (Octets.ofBytes? n bs).getD (Octets.zero n)) fun b => ?_
  rw [readOctets]
  generalize b.read? n = outcome
  obtain ⟨_ | bs, rest⟩ := outcome
  · rfl
  · rfl

theorem contentReader_readU8 : ContentReader readU8 :=
  (contentReader_readNat 1).map UInt8.ofNat

theorem getD_onto (h : b.position < b.length) (hs : (b.onto s).contents = b.contents) :
    s.getD b.position 0 = b.storage.getD b.position 0 := by
  have hget := congrArg (·[b.position]?) hs
  simp only [contents, onto, List.getElem?_take_of_lt h] at hget
  rw [List.getD_eq_getElem?_getD, hget, List.getD_eq_getElem?_getD]

theorem contentReader_readVarNatFrom (value place limit : Nat) :
    ContentReader (readVarNatFrom value place limit) := by
  induction limit generalizing value place with
  | zero => exact .pure 0
  | succ limit ih =>
      intro b
      simp only [readVarNatFrom]
      by_cases h : b.position < b.length
      · have hadvance : b.Perused (b.advance 1) :=
          ⟨rfl, rfl, (Nat.succ_le_of_lt h).trans (Nat.le_max_right _ _)⟩
        simp only [if_pos h]
        split
        · rename_i hlast
          refine ⟨hadvance, fun s hs => ?_⟩
          rw [if_pos (show (b.onto s).position < (b.onto s).length from h)]
          simp only [onto, getD_onto h hs, if_pos hlast]
          rfl
        · rename_i hmore
          obtain ⟨hperused, hread⟩ :=
            ih (value + ((b.storage.getD b.position 0).toNat % 128) <<< (7 * place)) (place + 1)
              (b.advance 1)
          refine ⟨hadvance.trans hperused, fun s hs => ?_⟩
          rw [if_pos (show (b.onto s).position < (b.onto s).length from h)]
          simp only [onto, getD_onto h hs, if_neg hmore]
          exact hread s (hadvance.contents_onto hs)
      · simp only [if_neg h]
        refine ⟨⟨rfl, rfl, Nat.le_max_right _ _⟩, fun s _ => ?_⟩
        rw [if_neg (show ¬ (b.onto s).position < (b.onto s).length from h)]
        rfl

theorem contentReader_readVaruint : ContentReader readVaruint :=
  (contentReader_readVarNatFrom 0 0 Varint.limit32).map UInt32.ofNat

theorem contentReader_readVarulong : ContentReader readVarulong :=
  (contentReader_readVarNatFrom 0 0 Varint.limit64).map UInt64.ofNat

theorem contentReader_readVarint : ContentReader readVarint :=
  contentReader_readVaruint.map Varint.unfold32

theorem contentReader_readPrefixed : ContentReader readPrefixed := by
  have hoctets (count : Nat) : ContentReader fun rest =>
      if rest.remaining < count then ([], rest) else rest.readBytes count :=
    .ite (fun _ _ => Iff.rfl) (.pure []) (contentReader_readBytes count)
  exact (contentReader_readNat 4).bind hoctets

theorem contentReader_readBit : ContentReader readBit := by
  have hoctet : ContentReader fun b : Buffer =>
      if b.loadedCount = 0 then b.readU8 else (b.loadedBits, b) := by
    refine .ite (fun _ _ => Iff.rfl) contentReader_readU8 fun b => ⟨.refl b, fun _ _ => rfl⟩
  intro b
  obtain ⟨hperused, hread⟩ := hoctet b
  refine ⟨⟨hperused.storage, hperused.length, hperused.position_le⟩, fun s hs => ?_⟩
  simp only [readBit, hread s hs]
  rfl

theorem contentReader_readBits (n : Nat) : ContentReader (readBits n) := by
  induction n with
  | zero => exact .pure []
  | succ n ih => exact contentReader_readBit.bind fun v => ih.map (v :: ·)

theorem contentReader_readComponents : ContentReader readComponents := by
  have hcomponent : ContentReader readComponent :=
    ((contentReader_readNat 2).map fun n => (UInt16.ofNat n).toInt16).map Single.dequantize
  exact hcomponent.bind fun x => hcomponent.bind fun y => hcomponent.map fun z => (x, y, z)

/-- Whatever is read depends on the contents alone. -/
theorem contentReader_kind (kind : Kind) : ContentReader fun b => kind.read b := by
  cases kind with
  | scalar k => exact ((contentReader_readNat k.width).map (Scalar.ofNat k)).map Item.scalar
  | bool => exact (contentReader_readU8.map fun v => v != 0).map Item.bool
  | bytes count => exact (contentReader_readBytes count).map Item.bytes
  | varint => exact contentReader_readVarint.map Item.varint
  | varlong => exact (contentReader_readVarulong.map Varint.unfold64).map Item.varlong
  | varuint => exact contentReader_readVaruint.map Item.varuint
  | varulong => exact contentReader_readVarulong.map Item.varulong
  | text => exact (contentReader_readPrefixed.map Utf8.decode).map Item.text
  | ascii => exact (contentReader_readPrefixed.map Ascii.decode).map Item.ascii
  | vector =>
      have hvector := contentReader_readComponents.map fun c => (⟨c.1, c.2.1, c.2.2⟩ : Vector3)
      exact (hvector.ite (c := fun b => b.holds 6 = true) (fun _ _ => Iff.rfl)
        (.pure Vector3.zero)).map Item.vector
  | rotator =>
      have hrotator := contentReader_readComponents.map fun c => (⟨c.1, c.2.1, c.2.2⟩ : Rotator)
      exact (hrotator.ite (c := fun b => b.holds 6 = true) (fun _ _ => Iff.rfl)
        (.pure Rotator.zero)).map Item.rotator
  | wholeVector =>
      have hwhole := contentReader_readVarint.bind fun x => contentReader_readVarint.bind fun y =>
        contentReader_readVarint.map fun z =>
          (⟨.ofInt32 x, .ofInt32 y, .ofInt32 z⟩ : Vector3)
      exact hwhole.map Item.wholeVector
  | bit => exact contentReader_readBit.map Item.bit
  | bits n => exact (contentReader_readBits n).map Item.bits

end Readers

section Writers

@[simp] theorem splice_nil (s : Bytes) (place : Nat) : splice s place [] = s := by
  rw [splice, List.length_nil, Nat.add_zero, List.append_nil, List.take_append_drop]

theorem length_splice_eq {s t : Bytes} (h : s.length = t.length) (place : Nat) (bs : Bytes) :
    (splice s place bs).length = (splice t place bs).length := by
  simp only [splice, List.length_append, List.length_take, List.length_drop, h]

theorem length_splice {place : Nat} {bs : Bytes} (h : place + bs.length ≤ s.length) :
    (splice s place bs).length = s.length := by
  simp only [splice, List.length_append, List.length_take, List.length_drop]
  omega

theorem getElem?_splice {place : Nat} (h : place ≤ s.length) (bs : Bytes) (i : Nat) :
    (splice s place bs)[i]? =
      if i < place then s[i]?
      else if i < place + bs.length then bs[i - place]? else s[i]? := by
  have hstart : (s.take place).length = place := by rw [List.length_take, Nat.min_eq_left h]
  rw [splice, List.append_assoc]
  by_cases hbefore : i < place
  · rw [if_pos hbefore, List.getElem?_append_left (hstart.symm ▸ hbefore),
      List.getElem?_take_of_lt hbefore]
  · rw [if_neg hbefore, List.getElem?_append_right (hstart.symm ▸ Nat.le_of_not_lt hbefore), hstart]
    by_cases hin : i < place + bs.length
    · rw [if_pos hin, List.getElem?_append_left (by omega)]
    · rw [if_neg hin, List.getElem?_append_right (by omega), List.getElem?_drop]
      congr 1
      omega

/-- A writer stores octets at the cursor, the same whatever octets stand in the storage. -/
structure Places (write : Buffer → Buffer) (b : Buffer) (bs : Bytes) : Prop where
  position : (write b).position = b.position + bs.length
  length : ((write b).length = b.length ∧ bs = []) ∨
    ((write b).length = max b.length (write b).position ∧ (write b).position ≤ b.capacity)
  onto : ∀ s, s.length = b.capacity →
    write (b.onto s) = (write b).onto (splice s b.position bs)

namespace Places

variable {write next : Buffer → Buffer} {bs cs : Bytes}

theorem nothing (b : Buffer) : Places (fun b => b) b [] where
  position := rfl
  length := Or.inl ⟨rfl, rfl⟩
  onto s _ := by rw [splice_nil]

theorem write_bytes (b : Buffer) (bs : Bytes) : ∃ cs, Places (·.write bs) b cs := by
  by_cases hfits : b.fits bs.length = true
  · refine ⟨bs, position_write hfits, Or.inr ⟨?_, ?_⟩, fun s hs => ?_⟩
    · rw [length_write hfits, position_write hfits]
    · rw [position_write hfits]
      exact (fits_iff b _).mp hfits
    · have hother : (b.onto s).fits bs.length = true := by
        rw [fits_iff, capacity_onto, hs]
        exact (fits_iff b _).mp hfits
      simp only [write_of_fits hfits, write_of_fits hother]
      rfl
  · have hfull : b.fits bs.length = false := Bool.eq_false_iff.mpr hfits
    have hsame : b.write bs = b := write_of_not_fits hfull
    refine ⟨[], ?_, Or.inl ⟨?_, rfl⟩, fun s hs => ?_⟩
    · rw [hsame, List.length_nil, Nat.add_zero]
    · rw [hsame]
    · have hother : (b.onto s).fits bs.length = false := by
        rw [← hfull, fits, fits, capacity_onto, hs]
        rfl
      rw [write_of_not_fits hother, hsame, splice_nil]

theorem storage (h : Places write b bs) : (write b).storage = splice b.storage b.position bs :=
  congrArg Buffer.storage (h.onto b.storage rfl)

theorem capacity_eq (h : Places write b bs) : (write b).capacity = b.capacity := by
  rw [capacity, h.storage]
  rcases h.length with ⟨-, rfl⟩ | ⟨-, hroom⟩
  · rw [splice_nil]
    rfl
  · rw [h.position] at hroom
    exact length_splice hroom

/-- Bits that are waiting or left to read make no difference to what is stored. -/
theorem of_bits {inner : Buffer → Buffer} (h : Places inner b' bs)
    (hstorage : b'.storage = b.storage) (hposition : b'.position = b.position)
    (hlength : b'.length = b.length) (hwrite : ∀ s, write (b.onto s) = inner (b'.onto s)) :
    Places write b bs := by
  have hcapacity : b'.capacity = b.capacity := congrArg List.length hstorage
  have hplain : write b = inner b' := (hwrite b.storage).trans (by rw [← hstorage]; rfl)
  obtain ⟨hmoved, hraised, honto⟩ := h
  rw [hposition] at hmoved honto
  rw [hlength, hcapacity] at hraised
  rw [hcapacity] at honto
  exact ⟨hplain ▸ hmoved, hplain ▸ hraised, fun s hs => by rw [hwrite, honto s hs, hplain]⟩

/-- What is stored by one writer and, behind it, by the next. -/
theorem trans (h : Places write b bs) (hnext : Places next (write b) cs) :
    Places (fun b => next (write b)) b (bs ++ cs) where
  position := by
    rw [hnext.position, h.position, List.length_append, Nat.add_assoc]
  length := by
    have hposition := h.position
    have hlater := hnext.position
    have hcapacity := h.capacity_eq
    rcases h.length with ⟨hlength, rfl⟩ | ⟨hlength, hroom⟩
    · rw [List.length_nil, Nat.add_zero] at hposition
      rcases hnext.length with ⟨hsame, rfl⟩ | ⟨hraised, hfits⟩
      · exact Or.inl ⟨hsame.trans hlength, rfl⟩
      · exact Or.inr ⟨hlength ▸ hraised, hcapacity ▸ hfits⟩
    · right
      rcases hnext.length with ⟨hsame, rfl⟩ | ⟨hraised, hfits⟩
      · rw [List.length_nil, Nat.add_zero] at hlater
        rw [hlater]
        exact ⟨hsame.trans hlength, hroom⟩
      · refine ⟨?_, hcapacity ▸ hfits⟩
        rw [hraised, hlength]
        omega
  onto s hs := by
    have hsize : (splice s b.position bs).length = (write b).capacity := by
      rw [capacity, h.storage]
      exact length_splice_eq hs b.position bs
    have hjoined : splice (splice s b.position bs) (b.position + bs.length) cs =
        splice s b.position (bs ++ cs) := by
      rcases h.length with ⟨-, rfl⟩ | ⟨-, hroom⟩
      · rw [splice_nil]
        rfl
      · refine splice_splice ?_ cs
        rw [h.position] at hroom
        omega
    rw [h.onto s hs, hnext.onto _ hsize, h.position, hjoined]

end Places

/-- A writer that stores octets at the cursor, which ones and how many does not depend on those
that stand in the storage. -/
def CursorWriter (write : Buffer → Buffer) : Prop :=
  ∀ b, ∃ bs, Places write b bs

namespace CursorWriter

theorem comp {write next : Buffer → Buffer} (h : CursorWriter write) (hnext : CursorWriter next) :
    CursorWriter (fun b => next (write b)) := by
  intro b
  obtain ⟨bs, hbs⟩ := h b
  obtain ⟨cs, hcs⟩ := hnext (write b)
  exact ⟨bs ++ cs, hbs.trans hcs⟩

theorem bytes (bs : Bytes) : CursorWriter (·.write bs) :=
  fun b => Places.write_bytes b bs

theorem nothing : CursorWriter fun b => b :=
  fun b => ⟨[], .nothing b⟩

end CursorWriter

theorem cursorWriter_writeBit (v : Bool) : CursorWriter (writeBit · v) := by
  intro b
  let bits := if v then b.pendingBits ||| (1 <<< UInt8.ofNat b.pendingCount) else b.pendingBits
  by_cases hfull : b.pendingCount + 1 = 8
  · obtain ⟨bs, hbs⟩ := CursorWriter.bytes (Scalar.u8 bits).toBytes
      { b with pendingBits := 0, pendingCount := 0 }
    exact ⟨bs, hbs.of_bits rfl rfl rfl fun s => if_pos hfull⟩
  · have hkept := Places.nothing { b with pendingBits := bits, pendingCount := b.pendingCount + 1 }
    exact ⟨[], hkept.of_bits rfl rfl rfl fun s => if_neg hfull⟩

theorem cursorWriter_writeBits (vs : List Bool) : CursorWriter (writeBits · vs) := by
  induction vs with
  | nil => exact .nothing
  | cons v vs ih => exact (cursorWriter_writeBit v).comp ih

theorem cursorWriter_align : CursorWriter align := by
  have hstore : CursorWriter fun b : Buffer => if 0 < b.pendingCount then
      { b with pendingBits := 0, pendingCount := 0 }.writeU8 b.pendingBits else b := by
    intro b
    by_cases hbits : 0 < b.pendingCount
    · obtain ⟨bs, hbs⟩ := CursorWriter.bytes (Scalar.u8 b.pendingBits).toBytes
        { b with pendingBits := 0, pendingCount := 0 }
      exact ⟨bs, hbs.of_bits rfl rfl rfl fun s => if_pos hbits⟩
    · exact ⟨[], (Places.nothing b).of_bits rfl rfl rfl fun s => if_neg hbits⟩
  have hforget : CursorWriter fun b : Buffer => { b with loadedBits := 0, loadedCount := 0 } :=
    fun b => ⟨[], (Places.nothing { b with loadedBits := 0, loadedCount := 0 }).of_bits
      rfl rfl rfl fun _ => rfl⟩
  exact hstore.comp hforget

/-- Whatever is written is stored at the cursor, over whatever stands there. -/
theorem cursorWriter_item (item : Item) : CursorWriter fun b => item.write b := by
  by_cases hbits : item.kind.endsInBits = true
  · cases item with
    | bit v => exact cursorWriter_writeBit v
    | bits vs => exact cursorWriter_writeBits vs
    | _ => cases hbits
  · by_cases hwhole : ∃ v, item = .wholeVector v
    · obtain ⟨v, rfl⟩ := hwhole
      exact ((CursorWriter.bytes _).comp (CursorWriter.bytes _)).comp (CursorWriter.bytes _)
    · have hwrite (b : Buffer) : item.write b = item.encode?.elim b b.write :=
        Item.write_eq (Bool.eq_false_iff.mpr hbits) fun v heq => hwhole ⟨v, heq⟩
      rw [funext hwrite]
      cases item.encode? with
      | none => exact .nothing
      | some bs => exact .bytes bs

end Writers

end Buffer
end GameLink
