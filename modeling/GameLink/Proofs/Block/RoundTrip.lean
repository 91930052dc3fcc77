import GameLink.Block.Compress
import GameLink.Proofs.Block.Search

/-!
# Compressed blocks are restored

A compressed form is the written form of the block's factors; the capacity only decides
whether there is one.

**Results.**
* `eq_encode_of_compressBounded`: the compressed form does not depend on the capacity.
* `decompress_encode_factorsOf`: it is read back as the block, under every limit that is
  not below the block's length, and refused under every other.
-/

namespace GameLink
namespace Block

/-- What was emitted is what was there before and the written forms. -/
theorem toList_of_emit
    {capacity : Nat} {out result : Array UInt8} {factors : List Factor}
    (h : emit capacity out factors = some result) :
    result.toList = out.toList ++ factors.flatMap Factor.encode := by
  induction factors generalizing out with
  | nil =>
      rw [emit, Option.some.injEq] at h
      rw [h, List.flatMap_nil, List.append_nil]
  | cons f factors ih =>
      simp only [emit, Option.ite_none_left_eq_some] at h
      rw [ih h.2.2, Array.toList_appendList, List.flatMap_cons, List.append_assoc]

/-- The compressed form of a block is the written form of its factors. -/
theorem eq_encode_of_compressBounded
    {src packed : Bytes} {capacity : Nat} (h : compressBounded src capacity = some packed) :
    packed = (factorsOf src).encode := by
  simp only [compressBounded, Option.bind_eq_some_iff] at h
  obtain ⟨out, hemit, htail⟩ := h
  simp only [emitTail, Option.ite_none_left_eq_some, Option.some.injEq] at htail
  rw [← htail.2, Array.toList_appendList, toList_of_emit hemit, List.nil_append,
    Factors.encode]

/-- The written form of a block's factors is read back as the block if that is within
the limit, and refused otherwise. -/
theorem decompress_encode_factorsOf (src : Bytes) (limit : Nat) :
    decompress (factorsOf src).encode limit =
      if limit < src.length then .error .decompression else .ok src := by
  obtain ⟨hwritable, out, hexpand, hsrc⟩ := factorsOf_expands src
  have hlength : out.size + (factorsOf src).tail.length = src.length := by
    rw [← size_append_literals, ← Array.length_toList, hsrc]
  simp only [decompress, Factors.encode]
  rw [expandInto_encode hwritable _ hexpand, hlength]
  by_cases hlimit : limit < src.length
  · rw [if_pos hlimit, if_pos hlimit]
  · rw [if_neg hlimit, if_neg hlimit]
    simp only [hsrc]

theorem decompress_of_compressBounded
    {src packed : Bytes} {capacity : Nat} (h : compressBounded src capacity = some packed)
    (limit : Nat) :
    decompress packed limit =
      if limit < src.length then .error .decompression else .ok src := by
  rw [eq_encode_of_compressBounded h, decompress_encode_factorsOf]

/-- The compressed form of a block is read back under the same condition. -/
theorem decompress_of_compress
    {src packed : Bytes} (h : compress src = some packed) (limit : Nat) :
    decompress packed limit =
      if limit < src.length then .error .decompression else .ok src := by
  simp only [compress] at h
  exact decompress_of_compressBounded (Option.filter_eq_some_iff.mp h).1 limit

/-- Whatever was compressed, under any capacity or because it got shorter, is restored
exactly under every limit that leaves room for it, and refused under every other. -/
theorem compressed_restored_exactly
    (src packed : Bytes) (capacity : Nat)
    (h : compressBounded src capacity = some packed ∨ compress src = some packed) :
    ∀ limit,
      (src.length ≤ limit → decompress packed limit = .ok src) ∧
      (limit < src.length → decompress packed limit = .error .decompression) := by
  intro limit
  have hdecompress : decompress packed limit =
      if limit < src.length then .error .decompression else .ok src := by
    rcases h with hbounded | hshorter
    · exact decompress_of_compressBounded hbounded limit
    · exact decompress_of_compress hshorter limit
  constructor
  · intro hfits
    rw [hdecompress, if_neg (Nat.not_lt.mpr hfits)]
  · intro hlong
    rw [hdecompress, if_pos hlong]

/-- Zeros are compressed to one literal and a copy of all the rest. -/
theorem compress_zeros {n : Nat} (h : 5 < n) :
    compress (List.replicate n 0) =
      ((emit (maxSize n) #[] [⟨[0], 1, n - 1⟩]).bind fun out =>
        emitTail (maxSize n) out []).filter fun out => out.length < n := by
  simp only [compress, compressBounded, factorsOf_zeros h, List.length_replicate]

/-- Three hundred zeros, a copy whose length takes two octets more, at the very end. -/
theorem zeros_restored_exactly :
    compress (List.replicate 300 0) = some [31, 0, 1, 0, 255, 25, 0] ∧
      decompress [31, 0, 1, 0, 255, 25, 0] 300 = .ok (List.replicate 300 0) ∧
      decompress [31, 0, 1, 0, 255, 25, 0] 299 = .error .decompression := by
  have hcompress : compress (List.replicate 300 0) = some [31, 0, 1, 0, 255, 25, 0] := by
    rw [compress, compressBounded, factorsOf_zeros (by decide)]
    decide +kernel
  have hrestored := compressed_restored_exactly (List.replicate 300 0)
    [31, 0, 1, 0, 255, 25, 0] 0 (Or.inr hcompress)
  have hlength : (List.replicate 300 (0 : UInt8)).length = 300 := List.length_replicate
  exact ⟨hcompress, (hrestored 300).1 (Nat.le_of_eq hlength),
    (hrestored 299).2 (Nat.lt_of_lt_of_eq (by decide) hlength.symm)⟩

end Block
end GameLink
