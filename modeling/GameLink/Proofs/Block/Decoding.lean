import GameLink.Block.Guarded
import GameLink.Proofs.Block.Grammar
import GameLink.Proofs.Buffer.Bounds

/-!
# Decompressing whatever arrives

The reader that goes through the octets by position makes no faulty access and does what the
reader of what is left does.  So whatever arrives is refused, or stands for what is returned and
for no more octets than the capacity.

**Results.**
* `readToken_guarded`: the two readers agree on a token, and where it leads to.
* `expandFrom_guarded`: they agree on all the tokens from a position on.
* `decompress_exact`: what is returned, for any octets and any capacity.
-/

namespace GameLink
namespace Block

open Guard

section Positions

/-- A number with the position behind it, and the number with what is left there. -/
inductive SameNumber (src : Bytes) : Option (Nat × Nat) → Option (Nat × Bytes) → Prop
  | missing : SameNumber src none none
  | read (n : Nat) {i : Nat} (hi : i ≤ src.length) :
      SameNumber src (some (n, i)) (some (n, src.drop i))

theorem drop_eq_cons {src : Bytes} {i : Nat} (hi : i < src.length) :
    src.drop i = src.getD i 0 :: src.drop (i + 1) := by
  rw [List.drop_eq_getElem_cons hi, List.getD_eq_getElem?_getD, List.getElem?_eq_getElem hi,
    Option.getD_some]

theorem sameNumber_readContinuation (src : Bytes) (i n : Nat) (hi : i ≤ src.length) :
    SameNumber src (Guarded.readContinuation src i n) (readContinuation n (src.drop i)) := by
  induction hk : src.length - i using Nat.strongRecOn generalizing i n with
  | ind k ih =>
      subst hk
      rw [Guarded.readContinuation]
      split
      · rename_i hend
        rw [List.drop_of_length_le (List.getElem?_eq_none_iff.mp hend), readContinuation]
        exact .missing
      · rename_i b hb
        obtain ⟨hlt, rfl⟩ := List.getElem?_eq_some_iff.mp hb
        rw [List.drop_eq_getElem_cons hlt, readContinuation]
        split
        · exact ih _ (by omega) (i + 1) (n + 255) hlt rfl
        · exact .read _ hlt

theorem sameNumber_readNumber (half : Nat) (src : Bytes) (i : Nat) (hi : i ≤ src.length) :
    SameNumber src (Guarded.readNumber half src i) (readNumber half (src.drop i)) := by
  unfold Guarded.readNumber readNumber
  split
  · exact sameNumber_readContinuation src i 15 hi
  · exact .read half hi

theorem readLiterals_drop {src out : Bytes} {i n : Nat} (h : i + n ≤ src.length) :
    readLiterals n (src.drop i) out.toArray =
      some (src.drop (i + n), (out ++ (src.drop i).take n).toArray) := by
  have hlength : ((src.drop i).take n).length = n := by
    rw [List.length_take, List.length_drop]
    omega
  have hread := readLiterals_append ((src.drop i).take n) (src.drop (i + n)) out.toArray
  rw [hlength, ← List.drop_drop, List.take_append_drop] at hread
  rw [hread, ← List.drop_drop]
  simp

theorem readLiterals_short {src out : Bytes} {i n : Nat} (hi : i ≤ src.length)
    (h : src.length < i + n) : readLiterals n (src.drop i) out.toArray = none := by
  rw [Option.eq_none_iff_forall_ne_some]
  rintro ⟨rest, result⟩ hread
  obtain ⟨literals, hlength, hsrc, -⟩ := readLiterals_eq_some_iff.mp hread
  have hcount := congrArg List.length hsrc
  rw [List.length_drop, List.length_append] at hcount
  omega

end Positions

section SingleOctets

theorem append_of_le {capacity : Nat} {out bs : Bytes} (h : out.length + bs.length ≤ capacity) :
    Guarded.append capacity out bs = .ok (out ++ bs) :=
  if_pos h

theorem copyFrom_guarded {capacity distance : Nat} (hpos : 0 < distance) (n : Nat)
    {start : Nat} {out : Bytes} (hstart : start + distance = out.length)
    (hroom : out.length + n ≤ capacity) :
    Guarded.copyFrom capacity n start out = .ok (copyBack distance n out.toArray).toList := by
  induction n generalizing start out with
  | zero => rfl
  | succ n ih =>
      have hinside : start < out.length := by omega
      have hone : out.length + [out.getD start 0].length ≤ capacity := by
        rw [List.length_singleton]
        omega
      have hlength : (out ++ [out.getD start 0]).length = out.length + 1 := by
        rw [List.length_append, List.length_singleton]
      have hstartNext : start + 1 + distance = (out ++ [out.getD start 0]).length := by omega
      have hnext := ih hstartNext (by omega)
      have hback : out.toArray.size - distance = start := by
        rw [List.size_toArray]
        omega
      rw [Guarded.copyFrom, octetAt_of_lt hinside, ok_bind, append_of_le hone, ok_bind, hnext,
        copyBack, hback]
      simp

end SingleOctets

section Tokens

/-- What a token leads to, and what comes of all the tokens from it on. -/
inductive Guarded.Progress.LeadsTo (capacity : Nat) (src : Bytes) :
    Guarded.Progress → Option (Array UInt8) → Prop
  | refused : LeadsTo capacity src .refused none
  | finished (out : Bytes) : LeadsTo capacity src (.finished out) (some out.toArray)
  | goOn {i : Nat} (hi : i ≤ src.length) (out : Bytes) :
      LeadsTo capacity src (.goOn i out) (expandInto capacity (src.drop i) out.toArray)

theorem readCopy_guarded (capacity : Nat) {src : Bytes} (half : Nat) {i : Nat} (out : Bytes)
    (hi : i + 2 ≤ src.length) :
    ∃ progress, Guarded.readCopy capacity src half i out = .ok progress ∧
      progress.LeadsTo capacity src
        (let distance := (src.getD i 0).toNat + 256 * (src.getD (i + 1) 0).toNat
        if distance = 0 ∨ out.toArray.size < distance then
          none
        else
          (readNumber half (src.drop (i + 2))).bind fun (copy, rest) =>
            if capacity < out.toArray.size + (copy + minCopy) then
              none
            else
              expandInto capacity rest (copyBack distance (copy + minCopy) out.toArray)) := by
  have hlow : i < src.length := by omega
  have hhigh : i + 1 < src.length := by omega
  simp only [Guarded.readCopy, octetAt_of_lt hlow, octetAt_of_lt hhigh, ok_bind,
    List.size_toArray]
  generalize (src.getD i 0).toNat + 256 * (src.getD (i + 1) 0).toNat = distance
  by_cases hbad : distance = 0 ∨ out.length < distance
  · rw [if_pos hbad, if_pos hbad]
    exact ⟨_, rfl, .refused⟩
  · rw [if_neg hbad, if_neg hbad]
    have hsame := sameNumber_readNumber half src (i + 2) hi
    generalize Guarded.readNumber half src (i + 2) = number,
      readNumber half (src.drop (i + 2)) = number' at hsame ⊢
    cases hsame with
    | missing => exact ⟨_, rfl, .refused⟩
    | @read copy j hj =>
        by_cases hfull : capacity < out.length + (copy + minCopy)
        · simp only [Option.bind_some, if_pos hfull]
          exact ⟨_, rfl, .refused⟩
        · have hback : distance ≤ out.length := by omega
          have hpos : 0 < distance := by omega
          have hcopy := copyFrom_guarded hpos (copy + minCopy) (Nat.sub_add_cancel hback)
            (Nat.le_of_not_lt hfull)
          simp only [Option.bind_some, if_neg hfull, difference_of_le hback, ok_bind, hcopy]
          exact ⟨_, rfl, .goOn hj _⟩

/-- The two readers agree on a token, and where it leads to. -/
theorem readToken_guarded (capacity : Nat) {src : Bytes} {i : Nat} (out : Bytes)
    (hi : i < src.length) :
    ∃ progress, Guarded.readToken capacity src i out = .ok progress ∧
      progress.LeadsTo capacity src (expandInto capacity (src.drop i) out.toArray) := by
  rw [drop_eq_cons hi, expandInto_cons]
  simp only [Guarded.readToken, octetAt_of_lt hi, ok_bind]
  have hsame := sameNumber_readNumber ((src.getD i 0).toNat / 16) src (i + 1) hi
  generalize Guarded.readNumber ((src.getD i 0).toNat / 16) src (i + 1) = number,
    readNumber ((src.getD i 0).toNat / 16) (src.drop (i + 1)) = number' at hsame ⊢
  cases hsame with
  | missing => exact ⟨_, rfl, .refused⟩
  | @read literals j hj =>
      simp only [Option.bind_some, List.size_toArray]
      by_cases hfull : capacity < out.length + literals
      · rw [if_pos (Or.inr hfull), if_pos hfull]
        exact ⟨_, rfl, .refused⟩
      · rw [if_neg hfull]
        by_cases hshort : src.length < j + literals
        · rw [if_pos (Or.inl hshort), readLiterals_short hj hshort]
          exact ⟨_, rfl, .refused⟩
        · rw [if_neg (not_or.mpr ⟨hshort, hfull⟩), readLiterals_drop (Nat.le_of_not_lt hshort)]
          have hstop : j + literals ≤ src.length := Nat.le_of_not_lt hshort
          have hfits : out.length + ((src.drop j).take literals).length ≤ capacity := by
            rw [List.length_take]
            omega
          simp only [slice_of_le (Nat.le_add_right j literals) hstop, Nat.add_sub_cancel_left,
            ok_bind, append_of_le hfits, Option.bind_some]
          generalize out ++ (src.drop j).take literals = filled
          by_cases hend : src.length ≤ j + literals
          · rw [if_pos hend, List.drop_of_length_le hend]
            exact ⟨_, rfl, .finished filled⟩
          · have hlow : j + literals < src.length := Nat.lt_of_not_le hend
            rw [if_neg hend, drop_eq_cons hlow]
            by_cases hcut : src.length < j + literals + 2
            · rw [if_pos hcut, List.drop_of_length_le (by omega)]
              exact ⟨_, rfl, .refused⟩
            · have hcopy : j + literals + 2 ≤ src.length := Nat.le_of_not_lt hcut
              rw [if_neg hcut, drop_eq_cons hcopy]
              exact readCopy_guarded capacity _ filled hcopy

/-- The two readers agree on all the tokens from a position on. -/
theorem expandFrom_guarded (capacity : Nat) {src : Bytes} {i : Nat} (out : Bytes)
    (hi : i ≤ src.length) :
    Guarded.expandFrom capacity src i out =
      .ok ((expandInto capacity (src.drop i) out.toArray).map Array.toList) := by
  -- a token moves the position on
  induction hk : src.length - i using Nat.strongRecOn generalizing i out with
  | ind k ih =>
      subst hk
      rw [Guarded.expandFrom]
      split
      · rename_i hmore
        obtain ⟨progress, hread, hleads⟩ := readToken_guarded capacity out hmore
        generalize expandInto capacity (src.drop i) out.toArray = result at hleads ⊢
        cases hleads with
        | refused =>
            rw [hread]
            rfl
        | finished out =>
            rw [hread]
            rfl
        | goOn hj out =>
            have hlater := Guarded.lt_readToken hread
            rw [hread]
            exact ih _ (by omega) out hj rfl
      · rename_i hend
        rw [List.drop_of_length_le (Nat.le_of_not_lt hend), expandInto]
        rfl

theorem decompress_guarded (src : Bytes) (capacity : Nat) :
    Guarded.decompress src capacity = .ok (decompress src capacity) := by
  rw [Guarded.decompress, expandFrom_guarded capacity [] (Nat.zero_le _), ok_bind, decompress,
    List.drop_zero]
  cases expandInto capacity src #[] <;> rfl

end Tokens

section Returned

theorem decompress_eq_ok_iff {src meaning : Bytes} {capacity : Nat} :
    decompress src capacity = .ok meaning ↔ Denotes src meaning ∧ meaning.length ≤ capacity := by
  have hiff : expandInto capacity src #[] = some meaning.toArray ↔
      Expands src #[] meaning.toArray ∧ meaning.toArray.size ≤ capacity :=
    expandInto_eq_some_iff (Nat.zero_le capacity)
  rw [Denotes, ← List.size_toArray, ← hiff, decompress]
  cases expandInto capacity src #[] with
  | none => simp
  | some out =>
      rw [Except.ok.injEq, Option.some.injEq]
      exact ⟨fun h => by rw [← h, Array.toArray_toList], fun h => by rw [h]⟩

/-- There is one way only to refuse octets. -/
theorem decompress_eq_error_of_ne {src : Bytes} {capacity : Nat}
    (h : ∀ meaning, decompress src capacity ≠ .ok meaning) :
    decompress src capacity = .error .decompression := by
  rw [decompress] at h ⊢
  cases hexpand : expandInto capacity src #[] with
  | none => rfl
  | some out => exact absurd (by rw [hexpand]) (h out.toList)

/-- **What is returned** for any octets and any capacity: what they stand for if that fits, and
a refusal otherwise.  No access is outside of the octets or of the output, and at no moment does
the output pass the capacity. -/
theorem decompress_exact (src : Bytes) (capacity : Nat) :
    Guarded.decompress src capacity = .ok (decompress src capacity) ∧
      (∀ meaning, Denotes src meaning →
        decompress src capacity =
          if meaning.length ≤ capacity then .ok meaning else .error .decompression) ∧
      ((¬ ∃ meaning, Denotes src meaning) →
        decompress src capacity = .error .decompression) ∧
      ∀ meaning meaning', Denotes src meaning → Denotes src meaning' → meaning = meaning' := by
  have hunique : ∀ meaning meaning', Denotes src meaning → Denotes src meaning' →
      meaning = meaning' :=
    fun meaning meaning' h h' => congrArg Array.toList (Expands.unique h h')
  refine ⟨decompress_guarded src capacity, fun meaning hmeaning => ?_, fun hnone => ?_, hunique⟩
  · split
    · rename_i hfits
      exact decompress_eq_ok_iff.mpr ⟨hmeaning, hfits⟩
    · rename_i hlong
      refine decompress_eq_error_of_ne fun other hother => hlong ?_
      obtain ⟨hdenotes, hfits⟩ := decompress_eq_ok_iff.mp hother
      exact hunique meaning other hmeaning hdenotes ▸ hfits
  · exact decompress_eq_error_of_ne fun meaning hok =>
      hnone ⟨meaning, (decompress_eq_ok_iff.mp hok).1⟩

/-- A literal and a copy that overlaps itself, its length continued by one octet, then two
literals behind a token whose low half means nothing. -/
def overlappingForm : Bytes := [0x1F, 7, 1, 0, 0, 0x2F, 8, 9]

theorem denotes_overlappingForm :
    Denotes overlappingForm (List.replicate 20 7 ++ [8, 9]) :=
  @Expands.copy 0x1F 1 0 [] [7] [0] [0x2F, 8, 9] 15 #[] _ _
    (.short (by decide)) (by decide) (.long 0 (by decide))
    (copies_copyBack (by decide) 19 (by decide))
    (@Expands.literals 0x2F [] [8, 9] _ (.short (by decide)))

theorem overlapping_exact :
    decompress overlappingForm 22 = .ok (List.replicate 20 7 ++ [8, 9]) ∧
      decompress overlappingForm 21 = .error .decompression :=
  ⟨(decompress_exact overlappingForm 22).2.1 _ denotes_overlappingForm,
    (decompress_exact overlappingForm 21).2.1 _ denotes_overlappingForm⟩

end Returned

end Block
end GameLink
