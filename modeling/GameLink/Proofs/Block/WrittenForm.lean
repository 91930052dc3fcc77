import GameLink.Block.Decompress
import Mathlib.Data.List.Basic

/-!
# Reading back the written form of factors

The written form of a block's factors is read back number by number and factor by
factor.  What is read is what the factors stand for, as long as that fits the capacity.

**Results.**
* `readNumber_half`: the number that a half of a token starts is read back, and nothing
  of what follows is used up.
* `expandInto_encode`: a written form is refused exactly if what it stands for is above
  the capacity.
-/

namespace GameLink
namespace Block

/-- A continued number is read back on top of what was read before. -/
theorem readContinuation_continuation
    (start n : Nat) (rest : Bytes) :
    readContinuation start (continuation n ++ rest) = some (start + n, rest) := by
  induction n using Nat.strongRecOn generalizing start with
  | ind n ih =>
      rw [continuation]
      by_cases hn : n < 255
      · have hval : (UInt8.ofNat n).toNat = n :=
          UInt8.toNat_ofNat_of_lt' (Nat.lt_trans hn (by decide))
        have hlast : UInt8.ofNat n ≠ 255 := by
          intro h
          rw [h, show (255 : UInt8).toNat = 255 from rfl] at hval
          omega
        rw [if_pos hn, List.singleton_append, readContinuation, if_neg hlast, hval]
      · have hstep := ih (n - 255) (by omega) (start + 255)
        have hsum : start + 255 + (n - 255) = start + n := by omega
        rw [if_neg hn, List.cons_append, readContinuation, if_pos rfl, hstep, hsum]

/-- The number that a half of a token starts is read back. -/
theorem readNumber_half
    (n : Nat) (rest : Bytes) :
    readNumber (half n) (overflow n ++ rest) = some (n, rest) := by
  unfold readNumber half overflow
  by_cases hn : n < 15
  · have hmin : min n 15 = n := by omega
    rw [if_pos hn, hmin, if_neg (by omega)]
    rfl
  · have hmin : min n 15 = 15 := by omega
    have hsum : 15 + (n - 15) = n := by omega
    rw [if_neg hn, hmin, if_pos rfl, readContinuation_continuation, hsum]

/-- Literals are moved to the output as they are. -/
theorem readLiterals_append
    (literals rest : Bytes) (out : Array UInt8) :
    readLiterals literals.length (literals ++ rest) out = some (rest, out ++ literals) := by
  induction literals generalizing out with
  | nil => simp [readLiterals]
  | cons b literals ih =>
      simp only [List.length_cons, List.cons_append, readLiterals, ih]
      simp

theorem half_lt (n : Nat) : half n < 16 := by
  simp only [half]
  omega

theorem toNat_token (literals copy : Nat) :
    (token literals copy).toNat = half literals * 16 + half copy := by
  have hl := half_lt literals
  have hc := half_lt copy
  exact UInt8.toNat_ofNat_of_lt' (show _ < 256 by omega)

/-- The high half of a token is that of the literal count. -/
theorem token_div (literals copy : Nat) :
    (token literals copy).toNat / 16 = half literals := by
  have hc := half_lt copy
  rw [toNat_token]
  omega

/-- The low half of a token is that of the copy length. -/
theorem token_mod (literals copy : Nat) :
    (token literals copy).toNat % 16 = half copy := by
  have hc := half_lt copy
  rw [toNat_token]
  omega

/-- A factor that has a written form: its copy is not too short, and its distance fits
two octets. -/
structure Factor.Writable (f : Factor) : Prop where
  minCopy_le : minCopy ≤ f.length
  distance_lt : f.distance < 65536

/-- The distance of a copy is read back from its two octets. -/
theorem ofNat_two
    {distance : Nat} (h : distance < 65536) :
    ∃ low high : UInt8, Bytes.ofNat 2 distance = [low, high] ∧
      low.toNat + 256 * high.toNat = distance := by
  refine ⟨UInt8.ofNat distance, UInt8.ofNat (distance / 256), rfl, ?_⟩
  rw [UInt8.toNat_ofNat', UInt8.toNat_ofNat']
  have h8 : (2 : Nat) ^ 8 = 256 := rfl
  omega

/-- Literals lengthen the output by their number. -/
theorem size_append_literals (out : Array UInt8) (literals : Bytes) :
    (out ++ literals).size = out.size + literals.length := by
  rw [← Array.length_toList, Array.toList_appendList, List.length_append,
    Array.length_toList]

/-- When a factor can be applied, and what it makes of the output. -/
theorem Factor.apply_eq_some_iff
    {f : Factor} {out result : Array UInt8} :
    f.apply? out = some result ↔
      0 < f.distance ∧ f.distance ≤ out.size + f.literals.length ∧
        copyBack f.distance f.length (out ++ f.literals) = result := by
  simp only [ Factor.apply?, size_append_literals, Option.ite_none_right_eq_some,
    Option.some.injEq, and_assoc]

/-- Reading goes on from one token to the next. -/
theorem expandInto_cons
    (capacity : Nat) (token : UInt8) (src : Bytes) (out : Array UInt8) :
    expandInto capacity (token :: src) out =
      (readNumber (token.toNat / 16) src).bind fun (literals, src) =>
        if capacity < out.size + literals then
          none
        else
          (readLiterals literals src out).bind fun
            | ([], out) => some out
            | ([_], _) => none
            | (low :: high :: src, out) =>
                let distance := low.toNat + 256 * high.toNat
                if distance = 0 ∨ out.size < distance then
                  none
                else
                  (readNumber (token.toNat % 16) src).bind fun (copy, src) =>
                    if capacity < out.size + (copy + minCopy) then
                      none
                    else
                      expandInto capacity src (copyBack distance (copy + minCopy) out) := by
  rw [expandInto]
  cases readNumber (token.toNat / 16) src with
  | none => rfl
  | some p =>
      obtain ⟨literals, src₁⟩ := p
      simp only [Option.bind_some]
      split
      · rfl
      · cases readLiterals literals src₁ out with
        | none => rfl
        | some q =>
            obtain ⟨_ | ⟨low, _ | ⟨high, src₂⟩⟩, out⟩ := q
            · rfl
            · rfl
            · simp only [Option.bind_some]
              split
              · rfl
              · cases readNumber (token.toNat % 16) src₂ with
                | none => rfl
                | some r => rfl

/-- Reading the written form of a factor does what the factor does, if it fits. -/
theorem expandInto_factor
    {f : Factor} (hf : f.Writable) {out result : Array UInt8}
    (happly : f.apply? out = some result) (capacity : Nat) (rest : Bytes) :
    expandInto capacity (f.encode ++ rest) out =
      if capacity < result.size then none else expandInto capacity rest result := by
  obtain ⟨hmin, hdist⟩ := hf
  obtain ⟨low, high, hbytes, hvalue⟩ := ofNat_two hdist
  obtain ⟨hpos, hback, hresult⟩ := Factor.apply_eq_some_iff.mp happly
  have hsize : result.size = out.size + f.literals.length + f.length := by
    rw [← hresult, size_copyBack, size_append_literals]
  have hcopy : f.length - minCopy + minCopy = f.length := Nat.sub_add_cancel hmin
  have hgood : ¬(f.distance = 0 ∨ out.size + f.literals.length < f.distance) := by omega
  simp only [Factor.encode, hbytes, List.append_assoc, List.cons_append, List.nil_append]
  rw [expandInto_cons]
  simp only [token_div, readNumber_half, readLiterals_append, token_mod, hvalue, hcopy,
    hresult, Option.bind_some, size_append_literals, hsize, if_neg hgood]
  by_cases hlit : capacity < out.size + f.literals.length
  · rw [if_pos hlit, if_pos (by omega)]
  · rw [if_neg hlit]

/-- Reading the last token adds the last literals, if they fit. -/
theorem expandInto_tail
    (capacity : Nat) (tail : Bytes) (out : Array UInt8) :
    expandInto capacity (encodeTail tail) out =
      if capacity < out.size + tail.length then none else some (out ++ tail) := by
  have hread := readLiterals_append tail [] out
  rw [List.append_nil] at hread
  rw [encodeTail, expandInto_cons]
  simp only [token_div, readNumber_half, Option.bind_some, hread]

/-- A factor does not shorten the output. -/
theorem Factor.size_le
    {f : Factor} {out result : Array UInt8} (h : f.apply? out = some result) :
    out.size ≤ result.size := by
  obtain ⟨-, -, hresult⟩ := Factor.apply_eq_some_iff.mp h
  rw [← hresult, size_copyBack, size_append_literals]
  omega

/-- Factors do not shorten the output. -/
theorem size_le_of_foldlM
    {factors : List Factor} {out result : Array UInt8}
    (h : factors.foldlM Factor.apply? out = some result) :
    out.size ≤ result.size := by
  induction factors generalizing out with
  | nil =>
      simp only [List.foldlM_nil, Option.pure_def, Option.some.injEq] at h
      exact h ▸ Nat.le_refl _
  | cons f factors ih =>
      simp only [List.foldlM_cons, Option.bind_eq_bind, Option.bind_eq_some_iff] at h
      obtain ⟨next, hnext, hrest⟩ := h
      exact Nat.le_trans (Factor.size_le hnext) (ih hrest)

/-- **Reading a written form**: it gives what the factors stand for, and it is refused
exactly if that is above the capacity. -/
theorem expandInto_encode
    {factors : List Factor} (hf : ∀ f ∈ factors, f.Writable) (tail : Bytes)
    {out result : Array UInt8} (h : factors.foldlM Factor.apply? out = some result)
    (capacity : Nat) :
    expandInto capacity (factors.flatMap Factor.encode ++ encodeTail tail) out =
      if capacity < result.size + tail.length then none else some (result ++ tail) := by
  induction factors generalizing out with
  | nil =>
      simp only [List.foldlM_nil, Option.pure_def, Option.some.injEq] at h
      rw [List.flatMap_nil, List.nil_append, expandInto_tail, h]
  | cons f factors ih =>
      simp only [List.foldlM_cons, Option.bind_eq_bind, Option.bind_eq_some_iff] at h
      obtain ⟨next, hnext, hrest⟩ := h
      have hgrow := size_le_of_foldlM hrest
      have htail := ih (fun g hg => hf g (List.mem_cons_of_mem _ hg)) hrest
      rw [List.flatMap_cons, List.append_assoc,
        expandInto_factor (hf f List.mem_cons_self) hnext, htail]
      by_cases hfit : capacity < next.size
      · rw [if_pos hfit, if_pos (by omega)]
      · rw [if_neg hfit]

end Block
end GameLink
