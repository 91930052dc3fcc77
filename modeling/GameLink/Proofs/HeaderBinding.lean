import GameLink.Proofs.Checksum.Bursts
import GameLink.Proofs.Header
import Mathlib.Algebra.Ring.Nat
import Mathlib.Data.List.GetD

/-!
# Which headers are read, and what a seal binds of them

Every octet string has at most one reading as a header, and the header is written as the octets it
was read from; so no bit of a header that was read is without a meaning.

**Binding.**  The associated data of a seal are the octets of the header with one bit cleared, the
one of the flag `compressed`.  Two headers with the same associated data differ in that bit alone.

**Results.**
* `ofBytes_eq_ok_iff`: a header is read exactly from its own octets, whatever follows them.
* `exists_ofBytes_iff`: which strings begin with a header.
* `associatedData_eq_iff`, `bit_associatedData`: what the associated data say.
* `codec_and_binding`: all of it together.
-/

namespace GameLink

namespace Bytes

/-- Strings of one length are known from their bits. -/
theorem ext_bit {bs cs : Bytes} (hlength : bs.length = cs.length)
    (h : ∀ i < 8 * bs.length, bs.bit i = cs.bit i) : bs = cs := by
  have hbeyond (ds : Bytes) {i : Nat} (hi : 8 * ds.length ≤ i) : ds.bit i = false := by
    rw [bit, List.getD_eq_default _ _ (by omega)]
    exact Nat.zero_testBit _
  have hnumber : toNat bs = toNat cs := by
    refine Nat.eq_of_testBit_eq fun i => ?_
    rw [testBit_toNat, testBit_toNat]
    by_cases hi : i < 8 * bs.length
    · exact h i hi
    · rw [hbeyond bs (Nat.le_of_not_lt hi), hbeyond cs (hlength ▸ Nat.le_of_not_lt hi)]
  rw [← ofNat_toNat bs, ← ofNat_toNat cs, hlength, hnumber]

/-- A bit of the octets in front is a bit of the string. -/
theorem bit_take {bs : Bytes} {n i : Nat} (h : i < 8 * n) : Bytes.bit (bs.take n) i = bs.bit i := by
  have hin : i / 8 < n := by omega
  rw [bit, bit, List.getD_eq_getElem?_getD, List.getD_eq_getElem?_getD,
    List.getElem?_take_of_lt hin]

theorem bit_set {bs : Bytes} {n : Nat} (h : n < bs.length) (octet : UInt8) (i : Nat) :
    Bytes.bit (bs.set n octet) i =
      if i / 8 = n then octet.toNat.testBit (i % 8) else bs.bit i := by
  rw [bit, List.getD_eq_getElem?_getD]
  split_ifs with hplace
  · rw [hplace, List.getElem?_set_self h, Option.getD_some]
  · rw [List.getElem?_set_ne (Ne.symm hplace), ← List.getD_eq_getElem?_getD, bit]

end Bytes

namespace Channel

theorem ofByte_eq_ok_iff {value : UInt8} {c : Channel} :
    ofByte value = .ok c ↔ value = c.toByte := by
  constructor
  · intro h
    rw [ofByte] at h
    split_ifs at h with hzero hone htwo
    · cases h
      exact hzero
    · cases h
      exact hone
    · cases h
      exact htwo
  · rintro rfl
    exact ofByte_toByte c

/-- Three numbers stand for a channel. -/
theorem exists_ofByte_iff {value : UInt8} : (∃ c, ofByte value = .ok c) ↔ value ≤ 2 := by
  simp only [ofByte_eq_ok_iff, UInt8.le_iff_toNat_le]
  constructor
  · rintro ⟨c, rfl⟩
    cases c <;> decide
  · intro h
    have hsmall : value.toNat = 0 ∨ value.toNat = 1 ∨ value.toNat = 2 := by
      have htwo : (2 : UInt8).toNat = 2 := rfl
      omega
    rcases hsmall with hzero | hone | htwo
    · exact ⟨.unreliable, UInt8.toNat_inj.mp hzero⟩
    · exact ⟨.reliableOrdered, UInt8.toNat_inj.mp hone⟩
    · exact ⟨.reliableUnordered, UInt8.toNat_inj.mp htwo⟩

end Channel

namespace HeaderFlags

theorem bit_eq (flag : Bool) (position : Nat) : bit flag position = 2 ^ position * flag.toNat := by
  cases flag <;> simp [bit, Nat.shiftLeft_eq]

/-- The flags of an octet with a clear highest bit make up the octet. -/
theorem toByte_ofByteTruncated {value : UInt8} (h : value < 128) :
    (ofByteTruncated value).toByte = value := by
  have hsmall : value.toNat < 128 := UInt8.lt_iff_toNat_lt.mp h
  apply UInt8.toNat_inj.mp
  simp only [toByte, ofByteTruncated, bit_eq, Nat.toNat_testBit, UInt8.toNat_ofNat']
  omega

theorem ofByte_eq_ok_iff {value : UInt8} {f : HeaderFlags} :
    ofByte value = .ok f ↔ value = f.toByte := by
  constructor
  · intro h
    rw [ofByte] at h
    split_ifs at h with hsmall
    cases h
    exact (toByte_ofByteTruncated hsmall).symm
  · rintro rfl
    exact ofByte_toByte f

/-- Flags stand in the octets whose highest bit is clear. -/
theorem exists_ofByte_iff {value : UInt8} :
    (∃ f, ofByte value = .ok f) ↔ value.toNat.testBit 7 = false := by
  have hbit : value.toNat.testBit 7 = false ↔ value < 128 := by
    have hlt := value.toNat_lt
    rw [Nat.testBit_eq_decide_div_mod_eq, decide_eq_false_iff_not, UInt8.lt_iff_toNat_lt]
    change _ ↔ value.toNat < 128
    omega
  rw [hbit, ofByte]
  split_ifs with hsmall
  · exact ⟨fun _ => hsmall, fun _ => ⟨_, rfl⟩⟩
  · refine ⟨?_, fun h => absurd h hsmall⟩
    rintro ⟨f, h⟩
    cases h

/-- Without the flag `compressed`, one bit of the octet is clear. -/
theorem toByte_uncompressed (f : HeaderFlags) :
    ({ f with compressed := false } : HeaderFlags).toByte = f.toByte &&& 0xEF := by
  have hall : ∀ a b c d e f g : Bool,
      toByte ⟨a, b, c, d, false, f, g⟩ = toByte ⟨a, b, c, d, e, f, g⟩ &&& 0xEF := by decide
  exact hall ..

end HeaderFlags

namespace Header

/-- The octets in front of a string that has room for a header, field by field. -/
theorem take_size {bs : Bytes} (h : size ≤ bs.length) :
    bs.take size = bs.take 4 ++ [bs.getD 4 0, bs.getD 5 0] ++ (bs.drop 6).take 8 := by
  have hchannel : 4 < bs.length := Nat.lt_of_lt_of_le (by decide) h
  have hflags : 5 < bs.length := Nat.lt_of_lt_of_le (by decide) h
  rw [show size = 4 + 10 from rfl, List.take_add, List.drop_eq_getElem_cons hchannel,
    List.drop_eq_getElem_cons hflags, List.getD_eq_getElem _ _ hchannel,
    List.getD_eq_getElem _ _ hflags, List.append_assoc]
  rfl

/-- The fields of a string that has room for a header. -/
theorem ofBytes_eq_ok_iff_fields {bs : Bytes} (hlong : size ≤ bs.length) {h : Header} :
    ofBytes bs = .ok h ↔
      h.connectionId = UInt32.ofNat (Bytes.toNat (bs.take 4)) ∧ bs.getD 4 0 = h.channel.toByte ∧
        bs.getD 5 0 = h.flags.toByte ∧
        h.sequence = UInt64.ofNat (Bytes.toNat ((bs.drop 6).take 8)) := by
  rw [← Channel.ofByte_eq_ok_iff, ← HeaderFlags.ofByte_eq_ok_iff, ofBytes,
    if_neg (Nat.not_lt.mpr hlong)]
  cases Channel.ofByte (bs.getD 4 0) with
  | error failure => simp [bind, Except.bind]
  | ok channel =>
      cases HeaderFlags.ofByte (bs.getD 5 0) with
      | error failure => simp [bind, Except.bind]
      | ok flags =>
          simp only [bind, Except.bind, Except.ok.injEq]
          constructor
          · rintro rfl
            exact ⟨rfl, rfl, rfl, rfl⟩
          · obtain ⟨connectionId, channel', flags', sequence⟩ := h
            rintro ⟨rfl, rfl, rfl, rfl⟩
            rfl

/-- A header is read exactly from its own octets, whatever follows them. -/
theorem ofBytes_eq_ok_iff {bs : Bytes} {h : Header} : ofBytes bs = .ok h ↔ h.toBytes <+: bs := by
  constructor
  · intro hread
    have hlong : size ≤ bs.length := by
      by_contra hshort
      rw [ofBytes, if_pos (Nat.lt_of_not_le hshort)] at hread
      cases hread
    obtain ⟨hid, hchannel, hflags, hsequence⟩ := (ofBytes_eq_ok_iff_fields hlong).mp hread
    have hnumeral {n : Nat} {cs : Bytes} (hcs : cs.length = n) :
        Bytes.ofNat n (Bytes.toNat cs % Nat.pow 256 n) = cs := by
      rw [Nat.mod_eq_of_lt (hcs ▸ Bytes.toNat_lt cs), ← hcs, Bytes.ofNat_toNat]
    have hfour : (bs.take 4).length = 4 :=
      List.length_take_of_le (Nat.le_trans (by decide) hlong)
    have height : ((bs.drop 6).take 8).length = 8 := by
      rw [List.length_take, List.length_drop]
      rw [size] at hlong
      omega
    have hbytes : h.toBytes = bs.take size := by
      rw [take_size hlong, toBytes, ← hchannel, ← hflags, hid, hsequence, UInt32.toNat_ofNat',
        UInt64.toNat_ofNat']
      exact congrArg₂ (fun front back => front ++ [bs.getD 4 0, bs.getD 5 0] ++ back)
        (hnumeral hfour) (hnumeral height)
    rw [hbytes]
    exact List.take_prefix size bs
  · rintro ⟨rest, rfl⟩
    exact ofBytes_toBytes h rest

theorem toBytes_of_ofBytes {bs : Bytes} {h : Header} (hread : ofBytes bs = .ok h) :
    h.toBytes = bs.take size := by
  have hprefix := List.prefix_iff_eq_take.mp (ofBytes_eq_ok_iff.mp hread)
  rw [length_toBytes] at hprefix
  exact hprefix

/-- The strings that begin with a header. -/
theorem exists_ofBytes_iff {bs : Bytes} :
    (∃ h, ofBytes bs = .ok h) ↔
      size ≤ bs.length ∧ bs.getD 4 0 ≤ 2 ∧ (bs.getD 5 0).toNat.testBit 7 = false := by
  constructor
  · rintro ⟨h, hread⟩
    have hlong : size ≤ bs.length := by
      have hle := (ofBytes_eq_ok_iff.mp hread).length_le
      rwa [length_toBytes] at hle
    obtain ⟨-, hchannel, hflags, -⟩ := (ofBytes_eq_ok_iff_fields hlong).mp hread
    exact ⟨hlong, Channel.exists_ofByte_iff.mp ⟨_, Channel.ofByte_eq_ok_iff.mpr hchannel⟩,
      HeaderFlags.exists_ofByte_iff.mp ⟨_, HeaderFlags.ofByte_eq_ok_iff.mpr hflags⟩⟩
  · rintro ⟨hlong, hchannel, hflags⟩
    obtain ⟨channel, hchannel⟩ := Channel.exists_ofByte_iff.mpr hchannel
    obtain ⟨flags, hflags⟩ := HeaderFlags.exists_ofByte_iff.mpr hflags
    exact ⟨⟨_, channel, flags, _⟩, (ofBytes_eq_ok_iff_fields hlong).mpr
      ⟨rfl, Channel.ofByte_eq_ok_iff.mp hchannel, HeaderFlags.ofByte_eq_ok_iff.mp hflags, rfl⟩⟩

theorem toBytes_inj {g h : Header} : g.toBytes = h.toBytes ↔ g = h := by
  refine ⟨fun hsame => ?_, congrArg toBytes⟩
  have hg := ofBytes_toBytes g []
  rw [hsame, ofBytes_toBytes h []] at hg
  exact (Except.ok.inj hg).symm

/-- Headers with the same associated data differ in the flag `compressed` at most. -/
theorem associatedData_eq_iff {g h : Header} :
    g.associatedData = h.associatedData ↔
      g.connectionId = h.connectionId ∧ g.channel = h.channel ∧ g.sequence = h.sequence ∧
        { g.flags with compressed := h.flags.compressed } = h.flags := by
  have hflags : { g.flags with compressed := false } = { h.flags with compressed := false } ↔
      { g.flags with compressed := h.flags.compressed } = h.flags :=
    ⟨congrArg fun f : HeaderFlags => { f with compressed := h.flags.compressed },
      congrArg fun f : HeaderFlags => { f with compressed := false }⟩
  rw [associatedData, associatedData, toBytes_inj, Header.mk.injEq, hflags]
  exact and_congr_right' (and_congr_right' and_comm)

/-- The number of the bit that no seal binds, the one of the flag `compressed`. -/
def looseBit : Nat := 44

theorem associatedData_eq_set (h : Header) :
    h.associatedData = h.toBytes.set 5 (h.flags.toByte &&& 0xEF) := by
  rw [associatedData, toBytes, HeaderFlags.toByte_uncompressed]
  rfl

/-- The associated data of a header that was read are its octets with one bit cleared. -/
theorem bit_associatedData {bs : Bytes} {h : Header} (hread : ofBytes bs = .ok h) {i : Nat}
    (hi : i < 8 * size) :
    Bytes.bit h.associatedData i = (decide (i ≠ looseBit) && bs.bit i) := by
  have hbytes := toBytes_of_ofBytes hread
  have hlong : size ≤ bs.length := (exists_ofBytes_iff.mp ⟨h, hread⟩).1
  obtain ⟨-, -, hflags, -⟩ := (ofBytes_eq_ok_iff_fields hlong).mp hread
  have hplace : 5 < h.toBytes.length := by
    rw [length_toBytes]
    decide
  have hmask : ∀ j < 8, (0xEF : UInt8).toNat.testBit j = decide (j ≠ 4) := by decide
  have hbit : h.toBytes.bit i = bs.bit i := by
    rw [hbytes, Bytes.bit_take hi]
  rw [associatedData_eq_set, Bytes.bit_set hplace, hbit]
  split_ifs with hsixth
  · have hin : i % 8 < 8 := Nat.mod_lt i (by decide)
    have hloose : i % 8 = 4 ↔ i = looseBit := by
      rw [looseBit]
      omega
    rw [UInt8.toNat_and, Nat.testBit_and, hmask _ hin, ← hflags, Bool.and_comm, Bytes.bit, hsixth]
    simp only [ne_eq, hloose]
  · have hne : i ≠ looseBit := by
      rw [looseBit]
      omega
    rw [decide_eq_true hne, Bool.true_and]

/-- **The header as a code, and what a seal binds of it.**  Every header is read back whatever
follows it; exactly the strings with room for a header, a known channel and a clear highest flag
bit are read, and what is read is written as the octets it was read from.  Two headers have the
same associated data exactly if they agree in all but the flag `compressed`; so the octets that two
headers were read from, if these have the same associated data, agree in every bit but one. -/
theorem codec_and_binding :
    (∀ (h : Header) (rest : Bytes), ofBytes (h.toBytes ++ rest) = .ok h) ∧
    (∀ bs : Bytes, (∃ h, ofBytes bs = .ok h) ↔
      size ≤ bs.length ∧ bs.getD 4 0 ≤ 2 ∧ (bs.getD 5 0).toNat.testBit 7 = false) ∧
    (∀ (bs : Bytes) (h : Header), ofBytes bs = .ok h → h.toBytes = bs.take size) ∧
    (∀ g h : Header, g.associatedData = h.associatedData ↔
      g.connectionId = h.connectionId ∧ g.channel = h.channel ∧ g.sequence = h.sequence ∧
        { g.flags with compressed := h.flags.compressed } = h.flags) ∧
    (∀ (bs cs : Bytes) (g h : Header), ofBytes bs = .ok g → ofBytes cs = .ok h →
      (g.associatedData = h.associatedData ↔
        ∀ i < 8 * size, i ≠ looseBit → bs.bit i = cs.bit i)) := by
  refine ⟨ofBytes_toBytes, fun _ => exists_ofBytes_iff, fun _ _ => toBytes_of_ofBytes,
    fun _ _ => associatedData_eq_iff, fun bs cs g h hg hh => ⟨fun hsame i hi hne => ?_,
      fun hbits => Bytes.ext_bit ?_ fun i hi => ?_⟩⟩
  · have hbit := bit_associatedData hg hi
    rw [hsame, bit_associatedData hh hi, decide_eq_true hne, Bool.true_and, Bool.true_and] at hbit
    exact hbit.symm
  · rw [length_associatedData, length_associatedData]
  · rw [length_associatedData] at hi
    rw [bit_associatedData hg hi, bit_associatedData hh hi]
    by_cases hne : i = looseBit
    · rw [decide_eq_false (not_not_intro hne), Bool.false_and, Bool.false_and]
    · rw [hbits i hi hne]

/-- The octets of a header with and without the flag `compressed`, and with another flag: the first
two have the same associated data, the third has not. -/
theorem loose_bit_alone_unbound :
    let sealed : Bytes := [7, 0, 0, 0, 1, 3, 9, 0, 0, 0, 0, 0, 0, 0]
    ∃ plain packed renewing : Header,
      ofBytes sealed = .ok plain ∧ ofBytes (sealed.set 5 0x13) = .ok packed ∧
        ofBytes (sealed.set 5 7) = .ok renewing ∧
        plain.associatedData = packed.associatedData ∧
        plain.associatedData ≠ renewing.associatedData := by
  intro sealed
  obtain ⟨-, haccepts, -, -, hbinds⟩ := codec_and_binding
  obtain ⟨plain, hplain⟩ := (haccepts sealed).mpr (by decide)
  obtain ⟨packed, hpacked⟩ := (haccepts (sealed.set 5 0x13)).mpr (by decide)
  obtain ⟨renewing, hrenewing⟩ := (haccepts (sealed.set 5 7)).mpr (by decide)
  refine ⟨plain, packed, renewing, hplain, hpacked, hrenewing,
    (hbinds _ _ _ _ hplain hpacked).mpr (by decide), fun hsame => ?_⟩
  have hthird := (hbinds _ _ _ _ hplain hrenewing).mp hsame 42 (by decide) (by decide)
  revert hthird
  decide

end Header
end GameLink
