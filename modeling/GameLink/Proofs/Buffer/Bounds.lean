import GameLink.Buffer.Guarded
import GameLink.Proofs.Buffer.Values

/-!
# Every access is within bounds

The operations with guarded accesses do what the operations without guards do, on every buffer
whose cursor, mark and bit counts are in their places; and every operation leaves them there.

**Assumption.** One object has fewer octets than half of the addresses, as on every machine with
64-bit addresses.

**Results.**
* `Sound.write` and others: every operation keeps cursor, mark and bits in their places.
* `safe_read?`, `safe_write` and others: reading and writing make no faulty access.
-/

namespace GameLink

/-- The octets that one object may have are fewer than this. -/
def addressLimit : Nat := 1 <<< 63

theorem addressLimit_add_self : addressLimit + addressLimit = UInt64.size := by
  rfl

namespace Guard

theorem sum_of_lt {size m n : Nat} (h : m + n < size) : sum size m n = .ok (m + n) :=
  if_pos h

theorem sum_of_le {size m n : Nat} (h : size ≤ m + n) : sum size m n = .error .overflow :=
  if_neg (Nat.not_lt.mpr h)

theorem difference_of_le {m n : Nat} (h : n ≤ m) : difference m n = .ok (m - n) :=
  if_pos h

theorem product_of_lt {size m n : Nat} (h : m * n < size) : product size m n = .ok (m * n) :=
  if_pos h

theorem shift_of_lt {width places : Nat} (h : places < width) : shift width places = .ok () :=
  if_pos h

theorem octetAt_of_lt {bs : Bytes} {i : Nat} (h : i < bs.length) :
    octetAt bs i = .ok (bs.getD i 0) :=
  if_pos h

theorem slice_of_le {bs : Bytes} {start stop : Nat} (hstart : start ≤ stop)
    (hstop : stop ≤ bs.length) :
    slice bs start stop = .ok ((bs.drop start).take (stop - start)) :=
  if_pos ⟨hstart, hstop⟩

theorem store_of_le {bs source : Bytes} {start stop : Nat} (hstart : start ≤ stop)
    (hstop : stop ≤ bs.length) (hsource : source.length = stop - start) :
    store bs start stop source = .ok (bs.take start ++ source ++ bs.drop stop) :=
  if_pos ⟨hstart, hstop, hsource⟩

@[simp] theorem ok_bind {α β : Type} (a : α) (f : α → Except Fault β) :
    (Except.ok a >>= f) = f a :=
  rfl

@[simp] theorem error_bind {α β : Type} (fault : Fault) (f : α → Except Fault β) :
    (Except.error fault >>= f) = .error fault :=
  rfl

end Guard

namespace Buffer

open Guard

variable {b b' b'' : Buffer}

/-- Cursor, mark and bits are in their places. -/
structure Sound (b : Buffer) : Prop where
  capacity_lt : b.capacity < addressLimit
  position_le : b.position ≤ b.capacity
  length_le : b.length ≤ b.capacity
  pendingCount_lt : b.pendingCount < 8
  pendingBits_lt : b.pendingBits.toNat < 1 <<< b.pendingCount
  loadedCount_lt : b.loadedCount < 8

/-- From one buffer to the next nothing was written or dropped. -/
structure Looked (b b' : Buffer) : Prop where
  storage : b'.storage = b.storage
  length : b'.length = b.length
  sound : b'.Sound

/-- From one buffer to the next nothing was added to the storage or taken from it. -/
structure Worked (b b' : Buffer) : Prop where
  capacity : b'.capacity = b.capacity
  sound : b'.Sound

namespace Looked

theorem refl (h : b.Sound) : b.Looked b :=
  ⟨rfl, rfl, h⟩

theorem trans (h : b.Looked b') (h' : b'.Looked b'') : b.Looked b'' :=
  ⟨h'.storage.trans h.storage, h'.length.trans h.length, h'.sound⟩

theorem contents_eq (h : b.Looked b') : b'.contents = b.contents := by
  rw [contents, contents, h.storage, h.length]

theorem worked (h : b.Looked b') : b.Worked b' :=
  ⟨congrArg List.length h.storage, h.sound⟩

end Looked

namespace Worked

theorem refl (h : b.Sound) : b.Worked b :=
  ⟨rfl, h⟩

theorem trans (h : b.Worked b') (h' : b'.Worked b'') : b.Worked b'' :=
  ⟨h'.capacity.trans h.capacity, h'.sound⟩

end Worked

namespace Sound

theorem empty {capacity : Nat} (h : capacity < addressLimit) : (Buffer.empty capacity).Sound where
  capacity_lt := by rw [capacity_empty]; exact h
  position_le := Nat.zero_le _
  length_le := Nat.zero_le _
  pendingCount_lt := show 0 < 8 by decide
  pendingBits_lt := show 0 < 1 <<< 0 by decide
  loadedCount_lt := show 0 < 8 by decide

theorem ofBytes {bs : Bytes} (h : bs.length < addressLimit) : (Buffer.ofBytes bs).Sound where
  capacity_lt := h
  position_le := Nat.zero_le _
  length_le := Nat.le_refl _
  pendingCount_lt := show 0 < 8 by decide
  pendingBits_lt := show 0 < 1 <<< 0 by decide
  loadedCount_lt := show 0 < 8 by decide

/-- Two sizes of objects add up to an address. -/
theorem add_lt_size (h : b.Sound) {n : Nat} (hn : n < addressLimit) :
    b.position + n < UInt64.size := by
  have hposition := h.position_le
  have hcapacity := h.capacity_lt
  have hsize := addressLimit_add_self
  omega

theorem write (h : b.Sound) (bs : Bytes) : (b.write bs).Sound := by
  unfold Buffer.write
  split
  · rename_i hfits
    have hroom := (fits_iff b bs.length).mp hfits
    have hlength := h.length_le
    have hcapacity : (b.write bs).capacity = b.capacity := capacity_write b bs
    rw [write_of_fits hfits] at hcapacity
    constructor
    · rw [hcapacity]; exact h.capacity_lt
    · rw [hcapacity]; exact hroom
    · rw [hcapacity]; exact Nat.max_le.mpr ⟨hlength, hroom⟩
    · exact h.pendingCount_lt
    · exact h.pendingBits_lt
    · exact h.loadedCount_lt
  · exact h

theorem seek (h : b.Sound) (position : Nat) : (b.seek position).Sound where
  capacity_lt := h.capacity_lt
  position_le := Nat.min_le_right _ _
  length_le := h.length_le
  pendingCount_lt := h.pendingCount_lt
  pendingBits_lt := h.pendingBits_lt
  loadedCount_lt := h.loadedCount_lt

theorem reset (h : b.Sound) : b.reset.Sound where
  capacity_lt := h.capacity_lt
  position_le := Nat.zero_le _
  length_le := Nat.zero_le _
  pendingCount_lt := show 0 < 8 by decide
  pendingBits_lt := show 0 < 1 <<< 0 by decide
  loadedCount_lt := show 0 < 8 by decide

/-- No bit is waiting. -/
theorem withoutBits (h : b.Sound) : { b with pendingBits := 0, pendingCount := 0 }.Sound where
  capacity_lt := h.capacity_lt
  position_le := h.position_le
  length_le := h.length_le
  pendingCount_lt := show 0 < 8 by decide
  pendingBits_lt := show 0 < 1 <<< 0 by decide
  loadedCount_lt := h.loadedCount_lt

end Sound

section Readers

/-- A reader with guards does what the one without guards does, and writes nothing. -/
def SafeReader {α : Type} (guarded : Buffer → Except Fault (α × Buffer))
    (read : Buffer → α × Buffer) : Prop :=
  ∀ b, b.Sound → guarded b = .ok (read b) ∧ b.Looked (read b).2

namespace SafeReader

variable {α β : Type} {guarded : Buffer → Except Fault (α × Buffer)}
  {read : Buffer → α × Buffer}

theorem map (h : SafeReader guarded read) (f : α → β) :
    SafeReader (fun b => do let (v, rest) ← guarded b; return (f v, rest))
      (fun b => let (v, rest) := read b; (f v, rest)) := by
  intro b hb
  obtain ⟨hguarded, hlooked⟩ := h b hb
  simp only [hguarded, ok_bind]
  exact ⟨rfl, hlooked⟩

theorem bind {guardedNext : α → Buffer → Except Fault (β × Buffer)}
    {next : α → Buffer → β × Buffer} (h : SafeReader guarded read)
    (hnext : ∀ v, SafeReader (guardedNext v) (next v)) :
    SafeReader (fun b => do let (v, rest) ← guarded b; guardedNext v rest)
      (fun b => let (v, rest) := read b; next v rest) := by
  intro b hb
  obtain ⟨hguarded, hlooked⟩ := h b hb
  obtain ⟨hagain, hlookedNext⟩ := hnext (read b).1 (read b).2 hlooked.sound
  simp only [hguarded, ok_bind]
  exact ⟨hagain, hlooked.trans hlookedNext⟩

end SafeReader

theorem fits_guarded (hb : b.Sound) {n : Nat} (hn : n < addressLimit) :
    Guarded.fits b n = .ok (b.fits n) := by
  simp only [Guarded.fits, sum_of_lt (hb.add_lt_size hn), ok_bind]
  rfl

theorem holds_guarded {n : Nat} (hn : b.position + n < UInt64.size) :
    Guarded.holds b n = .ok (b.holds n) := by
  simp only [Guarded.holds, sum_of_lt hn, ok_bind]
  rfl

theorem peek?_guarded (hb : b.Sound) {n : Nat} (hn : b.position + n < UInt64.size) :
    Guarded.peek? n b = .ok (b.peek? n) := by
  simp only [Guarded.peek?, holds_guarded hn, ok_bind, Buffer.peek?]
  split
  · rename_i hholds
    have hlength : b.position + n ≤ b.length := of_decide_eq_true hholds
    have hstop : b.position + n ≤ b.storage.length := hlength.trans hb.length_le
    simp only [sum_of_lt hn, slice_of_le (Nat.le_add_right _ _) hstop, ok_bind,
      Nat.add_sub_cancel_left]
    rfl
  · rfl

/-- The next octets are read if the sum of cursor and count is an address. -/
theorem read?_guarded (hb : b.Sound) {n : Nat} (hn : b.position + n < UInt64.size) :
    Guarded.read? n b = .ok (b.read? n) ∧ b.Looked (b.read? n).2 := by
  simp only [Guarded.read?, peek?_guarded hb hn, ok_bind, Buffer.read?, Buffer.peek?]
  by_cases hholds : b.holds n = true
  · have hlength : b.position + n ≤ b.length := of_decide_eq_true hholds
    have hsound : (b.advance n).Sound :=
      { hb with position_le := hlength.trans hb.length_le }
    simp only [if_pos hholds, sum_of_lt hn, ok_bind]
    exact ⟨rfl, rfl, rfl, hsound⟩
  · simp only [if_neg hholds]
    exact ⟨rfl, .refl hb⟩

theorem safe_read? {n : Nat} (hn : n < addressLimit) :
    SafeReader (Guarded.read? n) (fun b => b.read? n) :=
  fun _ hb => read?_guarded hb (hb.add_lt_size hn)

theorem safe_readNat {width : Nat} (hwidth : width < addressLimit) :
    SafeReader (Guarded.readNat width) (readNat width) := by
  intro b hb
  obtain ⟨hread, hlooked⟩ := safe_read? hwidth b hb
  simp only [Guarded.readNat, hread, ok_bind, readNat]
  dsimp only at hlooked
  generalize b.read? width = outcome at hlooked ⊢
  obtain ⟨_ | bs, rest⟩ := outcome
  · exact ⟨rfl, hlooked⟩
  · exact ⟨rfl, hlooked⟩

theorem safe_readBytes {n : Nat} (hn : n < addressLimit) :
    SafeReader (Guarded.readBytes n) (readBytes n) := by
  intro b hb
  obtain ⟨hread, hlooked⟩ := safe_read? hn b hb
  simp only [Guarded.readBytes, hread, ok_bind, readBytes]
  dsimp only at hlooked
  generalize b.read? n = outcome at hlooked ⊢
  obtain ⟨_ | bs, rest⟩ := outcome
  · exact ⟨rfl, hlooked⟩
  · exact ⟨rfl, hlooked⟩

theorem safe_readOctets {n : Nat} (hn : n < addressLimit) :
    SafeReader (Guarded.readOctets n) (readOctets n) := by
  intro b hb
  obtain ⟨hread, hlooked⟩ := safe_read? hn b hb
  simp only [Guarded.readOctets, hread, ok_bind, readOctets]
  dsimp only at hlooked
  generalize b.read? n = outcome at hlooked ⊢
  obtain ⟨_ | bs, rest⟩ := outcome
  · exact ⟨rfl, hlooked⟩
  · exact ⟨rfl, hlooked⟩

theorem safe_readU8 : SafeReader Guarded.readU8 readU8 :=
  (safe_readNat (by decide)).map UInt8.ofNat

theorem safe_readI16 : SafeReader Guarded.readI16 readI16 :=
  (safe_readNat (by decide)).map fun n => (UInt16.ofNat n).toInt16

theorem safe_readBool : SafeReader Guarded.readBool readBool :=
  safe_readU8.map fun v => v != 0

theorem width_lt (k : ScalarKind) : k.width < addressLimit := by
  cases k <;> decide

theorem safe_readScalar (k : ScalarKind) : SafeReader (Guarded.readScalar k) (readScalar k) :=
  (safe_readNat (width_lt k)).map (Scalar.ofNat k)

/-- No group of a numeral of ten octets is shifted out of its type. -/
theorem safe_readVarNatFrom (value place limit : Nat) (h : place + limit ≤ 10) :
    SafeReader (Guarded.readVarNatFrom value place limit) (readVarNatFrom value place limit) := by
  induction limit generalizing value place with
  | zero => exact fun b hb => ⟨rfl, .refl hb⟩
  | succ limit ih =>
      intro b hb
      have hcapacity := hb.capacity_lt
      have hlength := hb.length_le
      simp only [Guarded.readVarNatFrom, readVarNatFrom]
      by_cases hleft : b.position < b.length
      · have hindex : b.position < b.storage.length := hleft.trans_le hlength
        have hnext : b.position + 1 < UInt64.size := hb.add_lt_size (by decide)
        have hplace : 7 * place < 64 := by omega
        have hadvance : b.Looked (b.advance 1) :=
          ⟨rfl, rfl, { hb with position_le := Nat.succ_le_of_lt hindex }⟩
        simp only [if_pos hleft, octetAt_of_lt hindex, sum_of_lt hnext, shift_of_lt hplace, ok_bind]
        split
        · exact ⟨rfl, hadvance⟩
        · obtain ⟨hguarded, hlooked⟩ :=
            ih (value + ((b.storage.getD b.position 0).toNat % 128) <<< (7 * place)) (place + 1)
              (by omega) (b.advance 1) hadvance.sound
          exact ⟨hguarded, hadvance.trans hlooked⟩
      · simp only [if_neg hleft]
        exact ⟨rfl, rfl, rfl, { hb with position_le := hlength }⟩

theorem safe_readVaruint : SafeReader Guarded.readVaruint readVaruint :=
  (safe_readVarNatFrom 0 0 Varint.limit32 (by decide)).map UInt32.ofNat

theorem safe_readVarulong : SafeReader Guarded.readVarulong readVarulong :=
  (safe_readVarNatFrom 0 0 Varint.limit64 (by decide)).map UInt64.ofNat

theorem safe_readVarint : SafeReader Guarded.readVarint readVarint :=
  safe_readVaruint.map Varint.unfold32

theorem safe_readVarlong : SafeReader Guarded.readVarlong readVarlong :=
  safe_readVarulong.map Varint.unfold64

theorem readBytes_zero (b : Buffer) : b.readBytes 0 = ([], b) := by
  simp only [readBytes, read?]
  split
  · rename_i hread
    split at hread
    · cases hread
      rfl
    · cases hread
  · rename_i hread
    split at hread
    · cases hread
    · cases hread
      rfl

theorem safe_readPrefixed : SafeReader Guarded.readPrefixed readPrefixed := by
  have hnat : SafeReader (Guarded.readNat 4) (readNat 4) := safe_readNat (by decide)
  intro b hb
  obtain ⟨hguarded, hlooked⟩ := hnat b hb
  simp only [Guarded.readPrefixed, readPrefixed, hguarded, ok_bind]
  generalize b.readNat 4 = outcome at hlooked ⊢
  obtain ⟨count, rest⟩ := outcome
  dsimp only at hlooked ⊢
  by_cases hshort : rest.remaining < count
  · rw [if_pos hshort, if_pos (Or.inr hshort)]
    exact ⟨rfl, hlooked⟩
  · rw [if_neg hshort]
    by_cases hzero : count = 0
    · rw [if_pos (Or.inl hzero), hzero, readBytes_zero]
      exact ⟨rfl, hlooked⟩
    · have hlength := hlooked.sound.length_le
      have hcapacity := hlooked.sound.capacity_lt
      have hcount : count < addressLimit := by
        rw [remaining] at hshort
        omega
      obtain ⟨hrest, hlookedRest⟩ := safe_readBytes hcount rest hlooked.sound
      rw [if_neg (not_or.mpr ⟨hzero, hshort⟩)]
      exact ⟨hrest, hlooked.trans hlookedRest⟩

theorem safe_readText : SafeReader Guarded.readText readText :=
  safe_readPrefixed.map Utf8.decode

theorem safe_readAscii : SafeReader Guarded.readAscii readAscii :=
  safe_readPrefixed.map Ascii.decode

theorem safe_readBit : SafeReader Guarded.readBit readBit := by
  intro b hb
  have hcount := hb.loadedCount_lt
  have hsum : b.loadedCount + 1 < UInt8.size := by
    rw [show UInt8.size = 256 from rfl]
    omega
  have hloaded : ∀ rest, b.Looked rest → ∀ octet : UInt8,
      b.Looked { rest with loadedBits := octet, loadedCount := (b.loadedCount + 1) % 8 } :=
    fun rest hrest octet =>
      ⟨hrest.storage, hrest.length,
        { hrest.sound with loadedCount_lt := Nat.mod_lt _ (by decide) }⟩
  simp only [Guarded.readBit, readBit, shift_of_lt hcount, sum_of_lt hsum]
  split
  · obtain ⟨hguarded, hlooked⟩ := safe_readU8 b hb
    simp only [hguarded, ok_bind]
    exact ⟨rfl, hloaded _ hlooked _⟩
  · exact ⟨rfl, hloaded _ (.refl hb) _⟩

theorem safe_readBits (n : Nat) : SafeReader (Guarded.readBits n) (readBits n) := by
  induction n with
  | zero => exact fun b hb => ⟨rfl, .refl hb⟩
  | succ n ih => exact safe_readBit.bind fun v => ih.map (v :: ·)

theorem safe_readComponent : SafeReader Guarded.readComponent readComponent :=
  safe_readI16.map Single.dequantize

theorem safe_readComponents : SafeReader Guarded.readComponents readComponents :=
  safe_readComponent.bind fun x => safe_readComponent.bind fun y =>
    safe_readComponent.map fun z => (x, y, z)

theorem safe_readVector : SafeReader Guarded.readVector readVector := by
  intro b hb
  simp only [Guarded.readVector, readVector, holds_guarded (hb.add_lt_size (n := 6) (by decide)),
    ok_bind]
  split
  · exact safe_readComponents.map (fun c => (⟨c.1, c.2.1, c.2.2⟩ : Vector3)) b hb
  · exact ⟨rfl, .refl hb⟩

theorem safe_readRotator : SafeReader Guarded.readRotator readRotator := by
  intro b hb
  simp only [Guarded.readRotator, readRotator, holds_guarded (hb.add_lt_size (n := 6) (by decide)),
    ok_bind]
  split
  · exact safe_readComponents.map (fun c => (⟨c.1, c.2.1, c.2.2⟩ : Rotator)) b hb
  · exact ⟨rfl, .refl hb⟩

theorem safe_readWholeVector : SafeReader Guarded.readWholeVector readWholeVector :=
  safe_readVarint.bind fun x => safe_readVarint.bind fun y =>
    safe_readVarint.map fun z => (⟨.ofInt32 x, .ofInt32 y, .ofInt32 z⟩ : Vector3)

end Readers

section Writers

/-- A writer with guards does what the one without guards does. -/
def SafeWriter (guarded : Buffer → Except Fault Buffer) (write : Buffer → Buffer) : Prop :=
  ∀ b, b.Sound → guarded b = .ok (write b) ∧ b.Worked (write b)

theorem SafeWriter.bind {guarded guardedNext : Buffer → Except Fault Buffer}
    {write next : Buffer → Buffer} (h : SafeWriter guarded write)
    (hnext : SafeWriter guardedNext next) :
    SafeWriter (fun b => do guardedNext (← guarded b)) (fun b => next (write b)) := by
  intro b hb
  obtain ⟨hguarded, hworked⟩ := h b hb
  obtain ⟨hagain, hworkedNext⟩ := hnext _ hworked.sound
  simp only [hguarded, ok_bind]
  exact ⟨hagain, hworked.trans hworkedNext⟩

theorem safe_write {bs : Bytes} (hbs : bs.length < addressLimit) :
    SafeWriter (Guarded.write bs) (fun b => b.write bs) := by
  intro b hb
  refine ⟨?_, capacity_write b bs, hb.write bs⟩
  have hsum := hb.add_lt_size hbs
  simp only [Guarded.write, fits_guarded hb hbs, ok_bind]
  by_cases hfits : b.fits bs.length = true
  · have hroom : b.position + bs.length ≤ b.storage.length := (fits_iff b _).mp hfits
    have hsource : bs.length = b.position + bs.length - b.position :=
      (Nat.add_sub_cancel_left _ _).symm
    simp only [if_pos hfits, sum_of_lt hsum,
      store_of_le (Nat.le_add_right _ _) hroom hsource, ok_bind]
    rw [write_of_fits hfits]
    rfl
  · simp only [if_neg hfits]
    rw [write_of_not_fits (Bool.not_eq_true _ ▸ hfits)]
    rfl

theorem safe_writeScalar (s : Scalar) : SafeWriter (Guarded.writeScalar s) (writeScalar · s) :=
  safe_write (by rw [Scalar.length_toBytes]; exact width_lt _)

theorem safe_writeBool (v : Bool) : SafeWriter (Guarded.writeBool v) (writeBool · v) :=
  safe_writeScalar _

/-- A numeral finds room in as many octets as it needs at most. -/
theorem encode_guarded {room n : Nat} (h : n < Nat.pow 128 (room + 1)) :
    Guarded.encode (room + 1) n = .ok (Varint.encode n) ∧
      (Varint.encode n).length ≤ room + 1 := by
  induction room generalizing n with
  | zero =>
      have hlast : n < 128 := h
      rw [Varint.encode, Guarded.encode]
      simp only [if_pos hlast]
      exact ⟨rfl, Nat.le_refl _⟩
  | succ room ih =>
      rw [Varint.encode, Guarded.encode]
      split
      · exact ⟨rfl, Nat.succ_le_succ (Nat.zero_le _)⟩
      · obtain ⟨hmore, hlength⟩ := ih (n := n / 128) (Nat.div_lt_of_lt_mul (by
          rw [Nat.mul_comm]
          exact h))
        simp only [hmore, ok_bind]
        exact ⟨rfl, Nat.succ_le_succ hlength⟩

theorem safe_writeVarNat {n : Nat} (h : n < UInt64.size) :
    SafeWriter (Guarded.writeVarNat n) (writeVarNat · n) := by
  have hten : n < Nat.pow 128 (9 + 1) := h.trans (by decide)
  obtain ⟨hencode, hlength⟩ := encode_guarded hten
  intro b hb
  simp only [Guarded.writeVarNat, hencode, ok_bind]
  exact safe_write (hlength.trans_lt (by decide)) b hb

theorem safe_writeVarint (v : Int32) : SafeWriter (Guarded.writeVarint v) (writeVarint · v) :=
  safe_writeVarNat ((Varint.fold32 v).toNat_lt.trans (by decide))

/-- A text and its count are written together or not at all. -/
theorem safe_writePrefixed (bs : Bytes) :
    SafeWriter (Guarded.writePrefixed bs) (writePrefixed · bs) := by
  intro b hb
  simp only [Guarded.writePrefixed, writePrefixed]
  split
  · rename_i hbs
    have hsize : 4 + bs.length < addressLimit :=
      (Nat.add_lt_add_left hbs 4).trans (by decide)
    have haddress : 4 + bs.length < UInt64.size := hsize.trans (by decide)
    have hcount : (Bytes.ofNat 4 bs.length).length = 4 := Bytes.length_ofNat 4 bs.length
    have hall : (Bytes.ofNat 4 bs.length ++ bs).length = 4 + bs.length := by
      rw [List.length_append, hcount]
    simp only [sum_of_lt haddress, fits_guarded hb hsize, ok_bind]
    split
    · rename_i hfits
      rw [← hall] at hfits
      rw [← write_write hfits]
      exact (safe_write (by rw [hcount]; decide)).bind (safe_write (hbs.trans (by decide))) b hb
    · rename_i hfits
      rw [← hall, Bool.not_eq_true] at hfits
      rw [write_of_not_fits hfits]
      exact ⟨rfl, .refl hb⟩
  · exact ⟨rfl, .refl hb⟩

theorem pendingBits_lt_succ (hb : b.Sound) :
    (b.pendingBits ||| (1 <<< UInt8.ofNat b.pendingCount)).toNat < 1 <<< (b.pendingCount + 1) := by
  have hplace : ∀ n < 8, (1 <<< UInt8.ofNat n : UInt8).toNat < 1 <<< (n + 1) := by decide
  have hdouble : 1 <<< (b.pendingCount + 1) = 2 * 1 <<< b.pendingCount := Nat.shiftLeft_succ _ _
  have hbits := hb.pendingBits_lt
  rw [UInt8.toNat_or, Nat.one_shiftLeft]
  apply Nat.or_lt_two_pow
  · rw [← Nat.one_shiftLeft]
    omega
  · rw [← Nat.one_shiftLeft]
    exact hplace _ hb.pendingCount_lt

theorem safe_writeBit (v : Bool) : SafeWriter (Guarded.writeBit v) (writeBit · v) := by
  intro b hb
  have hcount := hb.pendingCount_lt
  have hsum : b.pendingCount + 1 < UInt8.size := by
    rw [show UInt8.size = 256 from rfl]
    omega
  have hbits : (if v then b.pendingBits ||| (1 <<< UInt8.ofNat b.pendingCount)
      else b.pendingBits).toNat < 1 <<< (b.pendingCount + 1) := by
    split
    · exact pendingBits_lt_succ hb
    · have hold := hb.pendingBits_lt
      have hdouble : 1 <<< (b.pendingCount + 1) = 2 * 1 <<< b.pendingCount :=
        Nat.shiftLeft_succ _ _
      omega
  simp only [Guarded.writeBit, writeBit, shift_of_lt hcount, sum_of_lt hsum, ok_bind]
  split
  · obtain ⟨hguarded, hworked⟩ := safe_writeScalar (.u8 _) _ hb.withoutBits
    exact ⟨hguarded, hworked.capacity, hworked.sound⟩
  · exact ⟨rfl, rfl,
      { hb with pendingCount_lt := show b.pendingCount + 1 < 8 by omega, pendingBits_lt := hbits }⟩

theorem safe_writeBits (vs : List Bool) : SafeWriter (Guarded.writeBits vs) (writeBits · vs) := by
  induction vs with
  | nil => exact fun b hb => ⟨rfl, .refl hb⟩
  | cons v vs ih => exact (safe_writeBit v).bind ih

theorem safe_align : SafeWriter Guarded.align align := by
  intro b hb
  have haligned : ∀ stored : Buffer, stored.capacity = b.capacity → stored.Sound →
      b.Worked { stored with loadedBits := 0, loadedCount := 0 } :=
    fun stored hcapacity hsound =>
      ⟨hcapacity, { hsound with loadedCount_lt := show 0 < 8 by decide }⟩
  simp only [Guarded.align, align]
  split
  · obtain ⟨hguarded, hworked⟩ := safe_writeScalar (.u8 b.pendingBits) _ hb.withoutBits
    simp only [hguarded, ok_bind]
    exact ⟨rfl, haligned _ hworked.capacity hworked.sound⟩
  · exact ⟨rfl, haligned b rfl hb⟩

/-- Three components are one string of octets. -/
theorem safe_writeComponents (x y z : Single) :
    SafeWriter (Guarded.writeComponents x y z) (fun b => b.write (quantizedBytes x y z)) := by
  intro b hb
  have hlength := length_quantizedBytes x y z
  simp only [Guarded.writeComponents, fits_guarded hb (n := 6) (by decide), ok_bind]
  split
  · rename_i hfits
    have hsplit : quantizedBytes x y z =
        ((Scalar.i16 x.quantize).toBytes ++ (Scalar.i16 y.quantize).toBytes) ++
          (Scalar.i16 z.quantize).toBytes := by
      simp [quantizedBytes]
    rw [← hlength, hsplit] at hfits
    rw [hsplit, ← write_write hfits, ← write_write (fits_left hfits)]
    exact (safe_writeScalar _).bind ((safe_writeScalar _).bind (safe_writeScalar _)) b hb
  · rename_i hfits
    rw [← hlength, Bool.not_eq_true] at hfits
    rw [write_of_not_fits hfits]
    exact ⟨rfl, .refl hb⟩

theorem safe_writeWholeVector (v : Vector3) :
    SafeWriter (Guarded.writeWholeVector v) (writeWholeVector · v) :=
  (safe_writeVarint v.x.truncate).bind
    ((safe_writeVarint v.y.truncate).bind (safe_writeVarint v.z.truncate))

theorem safe_load (bs : Bytes) : SafeWriter (Guarded.load bs) (fun b => b.load bs) := by
  intro b hb
  generalize hcount : (if b.capacity < bs.length then b.capacity else bs.length) = count
  have hroom : count ≤ b.storage.length ∧ count ≤ bs.length := by
    rw [← hcount, ← capacity]
    split <;> omega
  have hkept : bs.take count = bs.take b.capacity := by
    rw [← hcount]
    split
    · rfl
    · rw [List.take_length, List.take_of_length_le (by omega)]
  have hlength : (bs.take b.capacity).length = count := by
    rw [← hkept, List.length_take]
    omega
  have hcapacity : (b.load bs).capacity = b.capacity := by
    simp only [load, capacity, List.length_append, List.length_drop]
    simp only [capacity] at hlength
    omega
  refine ⟨?_, hcapacity, ?_⟩
  · have hsource : ((bs.drop 0).take (count - 0)).length = count - 0 := by
      simp only [List.drop_zero, Nat.sub_zero, hkept, hlength]
    simp only [Guarded.load, hcount, slice_of_le (Nat.zero_le count) hroom.2,
      store_of_le (Nat.zero_le count) hroom.1 hsource, ok_bind]
    simp only [load, hlength, List.drop_zero, Nat.sub_zero, hkept, List.take_zero, List.nil_append]
    rfl
  · constructor
    · rw [hcapacity]; exact hb.capacity_lt
    · exact Nat.zero_le _
    · rw [hcapacity]
      simp only [load, hlength]
      exact hroom.1
    · exact show 0 < 8 by decide
    · exact show 0 < 1 <<< 0 by decide
    · exact show 0 < 8 by decide

end Writers

section Signatures

theorem contents_guarded (hb : b.Sound) : Guarded.contents b = .ok b.contents := by
  rw [Guarded.contents, slice_of_le (Nat.zero_le _) hb.length_le]
  rfl

theorem unread_guarded (hb : b.Sound) : Guarded.unread b = .ok b.unread := by
  rw [Guarded.unread, slice_of_le (Nat.min_le_right _ _) hb.length_le, unread, contents,
    List.drop_take]
  rcases Nat.le_total b.position b.length with hle | hle
  · rw [Nat.min_eq_left hle]
  · rw [Nat.min_eq_right hle, Nat.sub_self, Nat.sub_eq_zero_of_le hle, List.take_zero,
      List.take_zero]

theorem signature_guarded (hb : b.Sound) : Guarded.signature b = .ok b.signature := by
  simp only [Guarded.signature, signature]
  split
  · rfl
  · rename_i hlong
    simp only [difference_of_le (Nat.not_lt.mp hlong),
      slice_of_le (Nat.sub_le _ _) hb.length_le, ok_bind]
    rw [contents, List.drop_take]
    rfl

theorem verify_guarded (hb : b.Sound) : Guarded.verify b = .ok b.verify := by
  simp only [Guarded.verify, verify]
  split
  · rfl
  · rename_i hlong
    have hstop : b.length - signatureSize ≤ b.storage.length :=
      (Nat.sub_le _ _).trans hb.length_le
    have hpart : (b.storage.drop 0).take (b.length - signatureSize - 0) = b.signedPart := by
      rw [signedPart, contents, List.take_take, Nat.min_eq_left (Nat.sub_le _ _)]
      rfl
    simp only [signature_guarded hb, difference_of_le (Nat.not_lt.mp hlong),
      slice_of_le (Nat.zero_le _) hstop, hpart, ok_bind]
    split
    · rfl
    · rfl

theorem sound_of_verify (hb : b.Sound) (h : b.verify = .ok b') : b.Worked b' := by
  simp only [verify] at h
  split at h
  · cases h
  · split at h
    · cases h
    · cases h
      refine ⟨rfl, { hb with position_le := ?_, length_le := ?_ }⟩
      · exact (Nat.min_le_left _ _).trans hb.position_le
      · exact (Nat.sub_le _ _).trans hb.length_le

theorem safe_sign : SafeWriter Guarded.sign sign := by
  intro b hb
  simp only [Guarded.sign, contents_guarded hb, ok_bind]
  have hend : { b with position := b.length }.Sound := { hb with position_le := hb.length_le }
  obtain ⟨hguarded, hworked⟩ := safe_writeScalar (.u32 (Checksum.crc32c b.contents)) _ hend
  exact ⟨hguarded, hworked.capacity, hworked.sound⟩

theorem toHex_guarded (hb : b.Sound) : Guarded.toHex b = .ok b.toHex := by
  have hdouble : b.length * 2 < UInt64.size := by
    have hlength := hb.length_le
    have hcapacity := hb.capacity_lt
    have hsize := addressLimit_add_self
    omega
  simp only [Guarded.toHex, product_of_lt hdouble, contents_guarded hb, ok_bind]
  rfl

end Signatures

end Buffer
end GameLink
