import GameLink.Text.Utf8
import Mathlib.Data.List.TakeWhile

/-!
# Texts are read back

The octets of a text are read back character by character: the first octet of a
character asks for as many more as belong to it, and the second is within the range that
the first allows.

**Results.**
* `Utf8.decode_encode`, `Utf8.decode?_encode`: the octets of a text are read back as the text.
* `Ascii.decode_encode`: the octets of a clamped text are read back as the clamped text.
-/

namespace GameLink
namespace Utf8

theorem isContinuation_iff (b : UInt8) :
    isContinuation b = true ↔ 128 ≤ b.toNat ∧ b.toNat < 192 := by
  simp only [isContinuation, Bool.and_eq_true, decide_eq_true_eq, UInt8.le_iff_toNat_le,
    UInt8.lt_iff_toNat_lt]
  rfl

theorem secondRange_eq (first : UInt8) :
    secondRange first =
      if first.toNat < 194 then none
      else if first.toNat < 224 then some (0x80, 0xBF)
      else if first.toNat = 224 then some (0xA0, 0xBF)
      else if first.toNat = 237 then some (0x80, 0x9F)
      else if first.toNat < 240 then some (0x80, 0xBF)
      else if first.toNat = 240 then some (0x90, 0xBF)
      else if first.toNat < 244 then some (0x80, 0xBF)
      else if first.toNat = 244 then some (0x80, 0x8F)
      else none := by
  simp only [secondRange, UInt8.lt_iff_toNat_lt, ← UInt8.toNat_inj]
  rfl

theorem continuations_eq (first : UInt8) :
    continuations first =
      if first.toNat < 224 then 1 else if first.toNat < 240 then 2 else 3 := by
  simp only [continuations, UInt8.lt_iff_toNat_lt]
  rfl

theorem leadBits_eq (first : UInt8) :
    leadBits first =
      if first.toNat < 224 then first.toNat % 32
      else if first.toNat < 240 then first.toNat % 16
      else first.toNat % 8 := by
  simp only [leadBits, UInt8.lt_iff_toNat_lt]
  rfl

/-- A first octet with as many continuations as it asks for. -/
theorem scan_continued
    {first second low high : UInt8} {more : Bytes}
    (hfirst : 128 ≤ first.toNat)
    (hrange : secondRange first = some (low, high))
    (hlow : low.toNat ≤ second.toNat) (hhigh : second.toNat ≤ high.toNat)
    (hmore : ∀ b ∈ more, isContinuation b = true)
    (hcount : continuations first = more.length + 1)
    (rest : Bytes) :
    scan first (second :: (more ++ rest)) =
      (some (Char.ofNat (scalar first (second :: more))), more.length + 1) := by
  have hlarge : ¬ first < 0x80 := by
    rw [UInt8.lt_iff_toNat_lt]
    exact Nat.not_lt.mpr hfirst
  have hwithin : (low ≤ second && second ≤ high) = true := by
    rw [Bool.and_eq_true, decide_eq_true_eq, decide_eq_true_eq, UInt8.le_iff_toNat_le,
      UInt8.le_iff_toNat_le]
    exact ⟨hlow, hhigh⟩
  have hpresent : 1 + (((more ++ rest).take more.length).takeWhile isContinuation).length =
      more.length + 1 := by
    rw [List.take_left, List.takeWhile_eq_self_iff.mpr hmore, Nat.add_comm]
  have hwanted : (second :: (more ++ rest)).take (more.length + 1) = second :: more := by
    rw [List.take_succ_cons, List.take_left]
  simp only [scan, hlarge, if_false, hrange, hwithin, if_true, hcount, Nat.add_sub_cancel,
    hpresent, hwanted]

section Scans

variable {first second third fourth : UInt8} {n : Nat}

theorem scan_two
    (hfirst : first.toNat = n / 64 % 32 + 192) (hsecond : second.toNat = n % 64 + 128)
    (hlow : 128 ≤ n) (hhigh : n < 2048) (rest : Bytes) :
    scan first (second :: rest) = (some (Char.ofNat n), 1) := by
  have hrange : secondRange first = some (0x80, 0xBF) := by
    rw [secondRange_eq, if_neg (by omega), if_pos (by omega)]
  have hscan := scan_continued (by omega) hrange
    (show 128 ≤ second.toNat by omega) (show second.toNat ≤ 191 by omega)
    (List.forall_mem_nil _) (by rw [continuations_eq, if_pos (by omega)]; rfl) rest
  have hscalar : scalar first [second] = n := by
    simp only [scalar, List.foldl_cons, List.foldl_nil, leadBits_eq]
    rw [if_pos (by omega)]
    omega
  rwa [hscalar] at hscan

/-- The range of the second octet leaves out what fits two octets and the surrogates. -/
theorem scan_three
    (hfirst : first.toNat = n / 4096 % 16 + 224)
    (hsecond : second.toNat = n / 64 % 64 + 128) (hthird : third.toNat = n % 64 + 128)
    (hlow : 2048 ≤ n) (hhigh : n < 65536) (hvalid : n < 0xD800 ∨ 0xDFFF < n) (rest : Bytes) :
    scan first (second :: third :: rest) = (some (Char.ofNat n), 2) := by
  have hrange : ∃ low high, secondRange first = some (low, high) ∧
      low.toNat ≤ second.toNat ∧ second.toNat ≤ high.toNat := by
    rw [secondRange_eq, if_neg (by omega), if_neg (by omega)]
    by_cases h224 : first.toNat = 224
    · rw [if_pos h224]
      exact ⟨0xA0, 0xBF, rfl, show 160 ≤ second.toNat by omega,
        show second.toNat ≤ 191 by omega⟩
    · rw [if_neg h224]
      by_cases h237 : first.toNat = 237
      · rw [if_pos h237]
        exact ⟨0x80, 0x9F, rfl, show 128 ≤ second.toNat by omega,
          show second.toNat ≤ 159 by omega⟩
      · rw [if_neg h237, if_pos (by omega)]
        exact ⟨0x80, 0xBF, rfl, show 128 ≤ second.toNat by omega,
          show second.toNat ≤ 191 by omega⟩
  obtain ⟨low, high, hrange, hsecondLow, hsecondHigh⟩ := hrange
  have hmore : ∀ b ∈ [third], isContinuation b = true := by
    simp only [List.mem_singleton, forall_eq, isContinuation_iff]
    omega
  have hscan := scan_continued (by omega) hrange hsecondLow hsecondHigh hmore
    (by rw [continuations_eq, if_neg (by omega), if_pos (by omega)]; rfl) rest
  have hscalar : scalar first [second, third] = n := by
    simp only [scalar, List.foldl_cons, List.foldl_nil, leadBits_eq]
    rw [if_neg (by omega), if_pos (by omega)]
    omega
  rwa [hscalar] at hscan

/-- The range of the second octet leaves out what fits three octets and what is past the
last character. -/
theorem scan_four
    (hfirst : first.toNat = n / 262144 % 8 + 240)
    (hsecond : second.toNat = n / 4096 % 64 + 128)
    (hthird : third.toNat = n / 64 % 64 + 128) (hfourth : fourth.toNat = n % 64 + 128)
    (hlow : 65536 ≤ n) (hhigh : n < 0x110000) (rest : Bytes) :
    scan first (second :: third :: fourth :: rest) = (some (Char.ofNat n), 3) := by
  have hrange : ∃ low high, secondRange first = some (low, high) ∧
      low.toNat ≤ second.toNat ∧ second.toNat ≤ high.toNat := by
    rw [secondRange_eq, if_neg (by omega), if_neg (by omega), if_neg (by omega),
      if_neg (by omega), if_neg (by omega)]
    by_cases h240 : first.toNat = 240
    · rw [if_pos h240]
      exact ⟨0x90, 0xBF, rfl, show 144 ≤ second.toNat by omega,
        show second.toNat ≤ 191 by omega⟩
    · rw [if_neg h240]
      by_cases h244 : first.toNat = 244
      · rw [if_neg (by omega), if_pos h244]
        exact ⟨0x80, 0x8F, rfl, show 128 ≤ second.toNat by omega,
          show second.toNat ≤ 143 by omega⟩
      · rw [if_pos (by omega)]
        exact ⟨0x80, 0xBF, rfl, show 128 ≤ second.toNat by omega,
          show second.toNat ≤ 191 by omega⟩
  obtain ⟨low, high, hrange, hsecondLow, hsecondHigh⟩ := hrange
  have hmore : ∀ b ∈ [third, fourth], isContinuation b = true := by
    simp only [List.mem_cons, List.not_mem_nil, or_false, forall_eq_or_imp, forall_eq,
      isContinuation_iff]
    omega
  have hscan := scan_continued (by omega) hrange hsecondLow hsecondHigh hmore
    (by rw [continuations_eq, if_neg (by omega), if_neg (by omega)]; rfl) rest
  have hscalar : scalar first [second, third, fourth] = n := by
    simp only [scalar, List.foldl_cons, List.foldl_nil, leadBits_eq]
    rw [if_neg (by omega), if_neg (by omega)]
    omega
  rwa [hscalar] at hscan

end Scans

theorem toNat_octet {n : Nat} (h : n < 256) : (UInt8.ofNat n).toNat = n :=
  UInt8.toNat_ofNat_of_lt' h

/-- A character is read back from its octets, and nothing else is used up. -/
theorem scan_utf8EncodeChar (c : Char) :
    ∃ first more, String.utf8EncodeChar c = first :: more ∧
      ∀ rest, scan first (more ++ rest) = (some c, more.length) := by
  have hchar : Char.ofNat c.val.toNat = c := Char.ofNat_toNat c
  have hvalid : c.val.toNat < 0xD800 ∨ 0xDFFF < c.val.toNat ∧ c.val.toNat < 0x110000 := c.valid
  generalize hn : c.val.toNat = n at hchar hvalid
  simp only [String.utf8EncodeChar, hn]
  by_cases h1 : n ≤ 127
  · rw [if_pos h1]
    refine ⟨UInt8.ofNat n, [], rfl, fun rest => ?_⟩
    have hfirst := toNat_octet (show n < 256 by omega)
    have hsmall : UInt8.ofNat n < 0x80 := by
      rw [UInt8.lt_iff_toNat_lt, hfirst]
      exact Nat.lt_succ_of_le h1
    simp only [scan, hsmall, if_true, hfirst, hchar, List.length_nil]
  · rw [if_neg h1]
    by_cases h2 : n ≤ 2047
    · rw [if_pos h2]
      refine ⟨_, [_], rfl, fun rest => ?_⟩
      rw [← hchar]
      exact scan_two (toNat_octet (by omega)) (toNat_octet (by omega)) (by omega) (by omega) rest
    · rw [if_neg h2]
      by_cases h3 : n ≤ 65535
      · rw [if_pos h3]
        refine ⟨_, [_, _], rfl, fun rest => ?_⟩
        rw [← hchar]
        exact scan_three (toNat_octet (by omega)) (toNat_octet (by omega))
          (toNat_octet (by omega)) (by omega) (by omega) (by omega) rest
      · rw [if_neg h3]
        refine ⟨_, [_, _, _], rfl, fun rest => ?_⟩
        rw [← hchar]
        exact scan_four (toNat_octet (by omega)) (toNat_octet (by omega))
          (toNat_octet (by omega)) (toNat_octet (by omega)) (by omega) (by omega) rest

theorem decodeChars_encode (cs : List Char) :
    decodeChars (cs.flatMap String.utf8EncodeChar) = cs := by
  induction cs with
  | nil => simp [decodeChars]
  | cons c cs ih =>
      obtain ⟨first, more, hencode, hscan⟩ := scan_utf8EncodeChar c
      rw [List.flatMap_cons, hencode, List.cons_append, decodeChars]
      simp only [hscan, Option.getD_some, List.drop_left, ih]

/-- The octets of a text are read back as the text. -/
theorem decode_encode (s : String) : decode (encode s) = s := by
  rw [decode, encode, decodeChars_encode, String.ofList_toList]

theorem decodeChars?_encode (cs : List Char) :
    decodeChars? (cs.flatMap String.utf8EncodeChar) = some cs := by
  induction cs with
  | nil => simp [decodeChars?]
  | cons c cs ih =>
      obtain ⟨first, more, hencode, hscan⟩ := scan_utf8EncodeChar c
      rw [List.flatMap_cons, hencode, List.cons_append, decodeChars?]
      simp only [hscan, List.drop_left, ih, Option.map_some]

/-- The octets of a text hold nothing but its characters. -/
theorem decode?_encode (s : String) : decode? (encode s) = some s := by
  rw [decode?, encode, decodeChars?_encode, Option.map_some, String.ofList_toList]

end Utf8

namespace Ascii

/-- The octets of a clamped text are read back as the clamped text. -/
theorem decode_encode (s : String) : decode (encode s) = clamp s := by
  simp only [decode, encode, clamp, List.map_map]
  congr 1
  apply List.map_congr_left
  intro c _
  simp only [Function.comp_apply]
  by_cases hc : c.toNat < 128
  · have hoctet : (UInt8.ofNat c.toNat).toNat = c.toNat := Utf8.toNat_octet (by omega)
    have hsmall : UInt8.ofNat c.toNat < 128 := by
      rw [UInt8.lt_iff_toNat_lt, hoctet]
      exact hc
    rw [if_pos hc, if_pos hc, if_pos hsmall, hoctet, Char.ofNat_toNat]
  · rw [if_neg hc, if_neg hc]
    rfl

end Ascii
end GameLink
