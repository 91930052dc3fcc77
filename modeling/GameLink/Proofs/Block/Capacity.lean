import GameLink.Proofs.Block.RoundTrip
import Mathlib.Order.MinMax

/-!
# What a capacity decides

The checks of room ask for somewhat more octets than a written form has.  They come down to one
number for each block: below it there is no compressed form, and from it on always the same.

**Amortization.** A factor takes at most 256 octets for 255 that it stands for, so what is written
is never above what it stands for and one octet in 255 more.

**Results.**
* `compressBounded_eq`: the compressed form is there exactly if the room that was asked for is.
* `room_bounds`: how far the room is above the length of the form.
* `room_factorsOf_le`: the largest size is always room enough.
* `compress_eq`: when a block is compressed without a capacity.
* `capacity_only_gates`: what a capacity decides, and what it does not.
-/

namespace GameLink
namespace Block

section FormLengths

theorem length_continuation (n : Nat) : (continuation n).length = n / 255 + 1 := by
  induction n using Nat.strongRecOn with
  | ind n ih =>
      rw [continuation]
      split
      · rename_i hshort
        rw [List.length_singleton, Nat.div_eq_of_lt hshort]
      · have hmore := ih (n - 255) (by omega)
        rw [List.length_cons, hmore]
        omega

theorem length_overflow (n : Nat) :
    (overflow n).length = if n < 15 then 0 else (n - 15) / 255 + 1 := by
  rw [overflow]
  split
  · rfl
  · exact length_continuation (n - 15)

theorem length_overflow_le (n : Nat) :
    (overflow n).length ≤ n ∧ 255 * (overflow n).length ≤ n + 240 := by
  rw [length_overflow]
  split <;> omega

theorem Factor.length_encode (f : Factor) :
    f.encode.length = (overflow f.literals.length).length + f.literals.length +
      (overflow (f.length - minCopy)).length + 3 := by
  simp only [Factor.encode, List.length_cons, List.length_append, Bytes.length_ofNat]
  omega

theorem length_encodeTail (tail : Bytes) :
    (encodeTail tail).length = (overflow tail.length).length + tail.length + 1 := by
  simp only [encodeTail, List.length_cons, List.length_append]

/-- A factor takes at most 256 octets for 255 that it stands for. -/
theorem Factor.length_encode_le {f : Factor} (h : f.Writable) :
    255 * f.encode.length ≤ 256 * (f.literals.length + f.length) := by
  have hcopy := h.minCopy_le
  have hliterals := length_overflow_le f.literals.length
  have hlength := length_overflow_le (f.length - minCopy)
  rw [Factor.length_encode]
  simp only [minCopy] at *
  omega

end FormLengths

section Room

/-- The least capacity that passes all checks, with `written` octets there already. -/
def room (tail : Bytes) (written : Nat) : List Factor → Nat
  | [] => written + tail.length + tail.length / 255 + 2
  | f :: fs =>
      max (written + 1 + f.literals.length + 8)
        (max (written + f.encode.length + 5) (room tail (written + f.encode.length) fs))

/-- The checks one after the other come down to one. -/
theorem emit_bind_emitTail (capacity : Nat) (tail : Bytes) (factors : List Factor)
    (out : Array UInt8) :
    ((emit capacity out factors).bind fun out => emitTail capacity out tail) =
      if capacity < room tail out.size factors then
        none
      else
        some (out.toList ++ (factors.flatMap Factor.encode ++ encodeTail tail)) := by
  induction factors generalizing out with
  | nil => simp only [emit, emitTail, room, Option.bind_some, Array.toList_appendList,
      List.flatMap_nil, List.nil_append]
  | cons f factors ih =>
      rw [emit, room]
      by_cases hbefore : capacity < out.size + 1 + f.literals.length + 8
      · rw [if_pos hbefore, if_pos (lt_max_of_lt_left hbefore), Option.bind_none]
      · rw [if_neg hbefore]
        by_cases hafter : capacity < (out ++ f.encode).size + 5
        · rw [if_pos hafter, Option.bind_none]
          rw [size_append_literals] at hafter
          rw [if_pos (by omega)]
        · rw [if_neg hafter, ih]
          rw [size_append_literals] at hafter ⊢
          simp only [lt_max_iff, hbefore, hafter, false_or, Array.toList_appendList,
            List.append_assoc, List.flatMap_cons]

/-- The compressed form is there exactly if the room that was asked for is. -/
theorem compressBounded_eq (src : Bytes) (capacity : Nat) :
    compressBounded src capacity =
      if capacity < room (factorsOf src).tail 0 (factorsOf src).factors then
        none
      else
        some (factorsOf src).encode :=
  emit_bind_emitTail capacity (factorsOf src).tail (factorsOf src).factors #[]

/-- The room is not below the length of the form, and at most five above it. -/
theorem room_bounds (tail : Bytes) (factors : List Factor) (written : Nat) :
    written + (factors.flatMap Factor.encode ++ encodeTail tail).length ≤
        room tail written factors ∧
      room tail written factors ≤
        written + (factors.flatMap Factor.encode ++ encodeTail tail).length + 5 := by
  induction factors generalizing written with
  | nil =>
      rw [List.flatMap_nil, List.nil_append, length_encodeTail, length_overflow, room]
      split <;> omega
  | cons f factors ih =>
      obtain ⟨hlow, hhigh⟩ := ih (written + f.encode.length)
      have hfactor := Factor.length_encode f
      have htail := length_encodeTail tail
      rw [List.length_append] at hlow hhigh
      rw [List.flatMap_cons, List.append_assoc, List.length_append, List.length_append, room]
      omega

/-- The largest size is room enough for factors that go on from where 256 octets are written for
255 at most. -/
theorem room_le_maxSize {factors : List Factor} (hf : ∀ f ∈ factors, f.Writable) (tail : Bytes)
    {written : Nat} {out result : Array UInt8}
    (h : factors.foldlM Factor.apply? out = some result)
    (hwritten : 255 * written ≤ 256 * out.size) :
    room tail written factors ≤ maxSize (result.size + tail.length) := by
  induction factors generalizing written out with
  | nil =>
      simp only [List.foldlM_nil, Option.pure_def, Option.some.injEq] at h
      subst h
      simp only [room, maxSize]
      omega
  | cons f factors ih =>
      simp only [List.foldlM_cons, Option.bind_eq_bind, Option.bind_eq_some_iff] at h
      obtain ⟨next, hnext, hrest⟩ := h
      obtain ⟨-, -, hmade⟩ := Factor.apply_eq_some_iff.mp hnext
      have hsize : next.size = out.size + f.literals.length + f.length := by
        rw [← hmade, size_copyBack, size_append_literals]
      have hgrow := size_le_of_foldlM hrest
      have hfactor := Factor.length_encode_le (hf f (List.mem_cons_self ..))
      have hwrittenNext : 255 * (written + f.encode.length) ≤ 256 * next.size := by omega
      have hlater := ih (fun g hg => hf g (List.mem_cons_of_mem f hg)) hrest hwrittenNext
      simp only [room, maxSize] at hlater ⊢
      omega

/-- The largest size is always room enough. -/
theorem room_factorsOf_le (src : Bytes) :
    room (factorsOf src).tail 0 (factorsOf src).factors ≤ maxSize src.length := by
  obtain ⟨hwritable, out, hexpand, hsrc⟩ := factorsOf_expands src
  have hlength : out.size + (factorsOf src).tail.length = src.length := by
    rw [← size_append_literals, ← Array.length_toList, hsrc]
  have hroom := room_le_maxSize hwritable (factorsOf src).tail hexpand
    (Nat.le_refl (255 * 0))
  rwa [hlength] at hroom

/-- The largest size never stands in the way. -/
theorem compressBounded_maxSize (src : Bytes) :
    compressBounded src (maxSize src.length) = some (factorsOf src).encode := by
  rw [compressBounded_eq, if_neg (Nat.not_lt.mpr (room_factorsOf_le src))]

/-- Without a capacity there is a compressed form exactly if it is shorter than the block. -/
theorem compress_eq (src : Bytes) :
    compress src =
      if (factorsOf src).encode.length < src.length then
        some (factorsOf src).encode
      else
        none := by
  rw [compress, compressBounded_maxSize, Option.filter_some]
  simp only [decide_eq_true_eq]

/-- **What a capacity decides**: nothing but whether there is a compressed form.  There is none
below the length of the form, and there is one from five octets above it and at the largest size;
without a capacity there is one exactly if it is shorter than the block. -/
theorem capacity_only_gates (src : Bytes) :
    (∀ capacity,
      (compressBounded src capacity = none ∨
        compressBounded src capacity = some (factorsOf src).encode) ∧
      (capacity < (factorsOf src).encode.length → compressBounded src capacity = none) ∧
      ((factorsOf src).encode.length + 5 ≤ capacity →
        compressBounded src capacity = some (factorsOf src).encode)) ∧
    compressBounded src (maxSize src.length) = some (factorsOf src).encode ∧
    compress src =
      if (factorsOf src).encode.length < src.length then
        some (factorsOf src).encode
      else
        none := by
  obtain ⟨hlow, hhigh⟩ := room_bounds (factorsOf src).tail (factorsOf src).factors 0
  rw [← Factors.encode, Nat.zero_add] at hlow hhigh
  refine ⟨fun capacity => ⟨?_, fun hshort => ?_, fun hroomy => ?_⟩,
    compressBounded_maxSize src, compress_eq src⟩
  · rw [compressBounded_eq]
    split
    · exact Or.inl rfl
    · exact Or.inr rfl
  · rw [compressBounded_eq, if_pos (Nat.lt_of_lt_of_le hshort hlow)]
  · rw [compressBounded_eq, if_neg (Nat.not_lt.mpr (Nat.le_trans hhigh hroomy))]

/-- The compressed form of three hundred zeros has seven octets: six are not room enough, twelve
are. -/
theorem zeros_gated :
    compressBounded (List.replicate 300 0) 6 = none ∧
      compressBounded (List.replicate 300 0) 12 = some [31, 0, 1, 0, 255, 25, 0] := by
  have hform : (factorsOf (List.replicate 300 0)).encode = [31, 0, 1, 0, 255, 25, 0] := by
    rw [factorsOf_zeros (by decide)]
    decide +kernel
  have hsix := ((capacity_only_gates (List.replicate 300 0)).1 6).2.1
  have htwelve := ((capacity_only_gates (List.replicate 300 0)).1 12).2.2
  rw [hform] at hsix htwelve
  exact ⟨hsix (by decide), htwelve (by decide)⟩

end Room

end Block
end GameLink
