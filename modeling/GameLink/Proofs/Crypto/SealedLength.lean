import GameLink.Session.Suite
import Mathlib.Algebra.Ring.Nat

/-!
# How long a sealed text is

The key stream is as long as the text that it is added to, and the tag has sixteen octets; so a
sealed text is sixteen octets longer than the text, whatever key, nonce and associated data.

**Results.**
* `length_pieces`, `sum_length_pieces`: the pieces of a string, how many and how long.
* `ChaCha20.length_block`, `ChaCha20.length_apply`: the stream cipher keeps the length.
* `Suite.addsTag_standard`: what sealing adds.
-/

namespace GameLink

namespace Bytes

variable {size : Nat}

theorem pieces_nil (size : Nat) : pieces size [] = [] := by
  rw [pieces, dif_pos (Or.inl rfl)]

theorem pieces_of_ne_nil (hsize : 0 < size) {bs : Bytes} (hne : bs ≠ []) :
    pieces size bs = bs.take size :: pieces size (bs.drop size) := by
  rw [pieces, dif_neg (not_or.mpr ⟨hne, Nat.ne_of_gt hsize⟩)]

/-- A string is no longer than its pieces together, and no shorter. -/
theorem sum_length_pieces (hsize : 0 < size) (bs : Bytes) :
    ((pieces size bs).map List.length).sum = bs.length := by
  induction hn : bs.length using Nat.strongRecOn generalizing bs with
  | ind n ih =>
    subst hn
    by_cases hne : bs = []
    · subst hne
      rw [pieces_nil]
      rfl
    · have hpos : 0 < bs.length := List.length_pos_iff.mpr hne
      have hrest := ih (bs.drop size).length (by rw [List.length_drop]; omega) _ rfl
      rw [pieces_of_ne_nil hsize hne, List.map_cons, List.sum_cons, hrest, List.length_take,
        List.length_drop]
      omega

theorem length_le_of_mem_pieces (hsize : 0 < size) {bs piece : Bytes}
    (h : piece ∈ pieces size bs) : piece.length ≤ size := by
  induction hn : bs.length using Nat.strongRecOn generalizing bs with
  | ind n ih =>
    subst hn
    by_cases hne : bs = []
    · subst hne
      rw [pieces_nil] at h
      cases h
    · have hpos : 0 < bs.length := List.length_pos_iff.mpr hne
      rw [pieces_of_ne_nil hsize hne] at h
      rcases List.mem_cons.mp h with rfl | hrest
      · rw [List.length_take]
        exact Nat.min_le_left _ _
      · exact ih (bs.drop size).length (by rw [List.length_drop]; omega) hrest rfl

/-- Whole pieces are as many as fit. -/
theorem length_pieces (hsize : 0 < size) {n : Nat} {bs : Bytes} (h : bs.length = n * size) :
    (pieces size bs).length = n := by
  induction n generalizing bs with
  | zero =>
      have hnil : bs = [] := List.eq_nil_of_length_eq_zero (h.trans (Nat.zero_mul size))
      rw [hnil, pieces_nil, List.length_nil]
  | succ n ih =>
      have hne : bs ≠ [] := by
        rintro rfl
        rw [List.length_nil, Nat.succ_mul] at h
        omega
      have hrest : (bs.drop size).length = n * size := by
        rw [List.length_drop, h, Nat.succ_mul, Nat.add_sub_cancel]
      rw [pieces_of_ne_nil hsize hne, List.length_cons, ih hrest]

end Bytes

namespace ChaCha20

theorem size_mixAt (s : Array UInt32) (i j k l : Nat) : (mixAt s i j k l).size = s.size := by
  simp only [mixAt, Array.size_setIfInBounds]

theorem size_doubleRound (s : Array UInt32) : (doubleRound s).size = s.size := by
  simp only [doubleRound, size_mixAt]

theorem size_repeat (n : Nat) (s : Array UInt32) : (Nat.repeat doubleRound n s).size = s.size := by
  induction n with
  | zero => rfl
  | succ n ih => rw [Nat.repeat, size_doubleRound, ih]

theorem size_start (key : Key) (nonce : Nonce) (counter : Nat) :
    (start key.bytes nonce.bytes counter).size = 16 := by
  have hkey : (wordsOf key.bytes).length = 8 := by
    rw [wordsOf, List.length_map]
    exact Bytes.length_pieces (by decide) key.length_eq
  have hnonce : (wordsOf nonce.bytes).length = 3 := by
    rw [wordsOf, List.length_map]
    exact Bytes.length_pieces (by decide) nonce.length_eq
  simp only [start, List.size_toArray, List.length_append, hkey, hnonce, List.length_cons,
    List.length_nil]

theorem length_block (key : Key) (nonce : Nonce) (counter : Nat) :
    (block key.bytes nonce.bytes counter).length = 64 := by
  have hwords (words : List UInt32) :
      (words.flatMap fun w => Bytes.ofNat 4 w.toNat).length = 4 * words.length := by
    induction words with
    | nil => rfl
    | cons w rest ih =>
        rw [List.flatMap_cons, List.length_append, ih, Bytes.length_ofNat, List.length_cons]
        omega
  rw [block, hwords, Array.length_toList, Array.size_zipWith, size_repeat, size_start,
    Nat.min_self]

/-- Each piece keeps its length, for no piece is longer than a block. -/
theorem length_apply (key : Key) (nonce : Nonce) (counter : Nat) (message : Bytes) :
    (apply key.bytes nonce.bytes counter message).length = message.length := by
  have hpiece (entry : Bytes × Nat)
      (h : entry ∈ (Bytes.pieces 64 message).zipIdx counter) :
      (List.zipWith (· ^^^ ·) entry.1 (block key.bytes nonce.bytes entry.2)).length =
        entry.1.length := by
    have hmem : entry.1 ∈ Bytes.pieces 64 message := List.fst_mem_of_mem_zipIdx h
    rw [List.length_zipWith, length_block]
    exact Nat.min_eq_left (Bytes.length_le_of_mem_pieces (by decide) hmem)
  have hfst := congrArg (List.map List.length)
    (List.zipIdx_map_fst counter (Bytes.pieces 64 message))
  rw [List.map_map] at hfst
  rw [apply, List.length_flatMap, List.map_congr_left hpiece,
    ← Bytes.sum_length_pieces (by decide : 0 < 64) message, ← hfst]
  rfl

end ChaCha20

namespace Aead

theorem length_sealText (key : Key) (nonce : Nonce) (associated message : Bytes) :
    (sealText key.bytes nonce.bytes associated message).length = message.length + tagSize := by
  rw [sealText, List.length_append, ChaCha20.length_apply, tagOf, Poly1305.length_tag, tagSize]

end Aead

namespace Suite

/-- What is sealed is longer than the message by a tag. -/
def AddsTag (suite : Suite) : Prop :=
  ∀ {key nonce associated message sealed},
    suite.seal? key nonce associated message = some sealed →
      sealed.length = message.length + Aead.tagSize

theorem addsTag_standard : standard.AddsTag := by
  intro key nonce associated message sealed h
  simp only [standard, Option.ite_none_right_eq_some, Option.some.injEq] at h
  obtain ⟨-, rfl⟩ := h
  exact Aead.length_sealText key nonce associated message

end Suite
end GameLink
