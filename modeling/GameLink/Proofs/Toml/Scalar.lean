import GameLink.Proofs.Toml.Quoted
import GameLink.Toml.Read
import GameLink.Toml.Write
import Mathlib.Data.List.Basic

/-!
# Scalars are read back

A scalar at the end of a line is read back from what was written for it.  A number is not taken
for a date or a time, for behind its digits the line ends.

**Results.**
* `readDecimal?_toDigits`, `digitsValue_toDigits`: the digits of a number, and what they stand for.
* `afterDatetime?_digits`: digits that end a line are no date.
* `readScalar?_write`: every scalar that can be written.
-/

namespace GameLink
namespace Toml

variable {digits : List Char} {c : Char}

section Digits

theorem readMoreDigits_append (h : ∀ c ∈ digits, c.isDigit = true) (rest : List Char) :
    readMoreDigits Char.isDigit (digits ++ '\n' :: rest) = (digits, '\n' :: rest) := by
  induction digits with
  | nil =>
      rw [List.nil_append, readMoreDigits.eq_def]
      cases rest with
      | nil => rfl
      | cons d rest =>
          simp only [if_neg (by decide : ¬ Char.isDigit '\n' = true)]
          exact if_neg fun h => absurd h.1 (by decide)
  | cons c cs ih =>
      obtain ⟨hc, hcs⟩ := List.forall_mem_cons.mp h
      rw [List.cons_append, readMoreDigits.eq_def]
      simp only [if_pos hc, ih hcs]

theorem isDigit_toDigits {n : Nat} : ∀ c ∈ Nat.toDigits 10 n, c.isDigit = true :=
  fun _ hc => Nat.isDigit_of_mem_toDigits (by omega) (Nat.le_refl 10) hc

/-- Only zero begins with a zero. -/
theorem head?_toDigits {n : Nat} (h : n ≠ 0) : (Nat.toDigits 10 n).head? ≠ some '0' := by
  induction n using Nat.strongRecOn with
  | ind n ih =>
      by_cases hsmall : n < 10
      · rw [Nat.toDigits_of_lt_base hsmall]
        intro heq
        exact h (Nat.digitChar_eq_zero.mp (Option.some.inj heq))
      · rw [Nat.toDigits_of_base_le (by omega) (Nat.le_of_not_lt hsmall),
          List.head?_append_of_ne_nil _ Nat.toDigits_ne_nil]
        exact ih (n / 10) (by omega) (by omega)

theorem digitsValue_toDigits (n : Nat) : digitsValue 10 (Nat.toDigits 10 n) = n := by
  have hdigit (value : Nat) (c : Char) (hc : c ∈ Nat.toDigits 10 n) :
      10 * value + hexValue c = 10 * value + (c.toNat - '0'.toNat) := by
    rw [hexValue, if_pos (isDigit_toDigits c hc)]
    rfl
  rw [digitsValue, List.foldl_ext _ _ 0 hdigit, ← Nat.ofDigitChars_eq_foldl,
    Nat.ofDigitChars_ten_toDigits]

theorem readDecimal?_toDigits (n : Nat) (rest : List Char) :
    readDecimal? (Nat.toDigits 10 n ++ '\n' :: rest) = some (Nat.toDigits 10 n, '\n' :: rest) := by
  by_cases hzero : n = 0
  · subst hzero
    rfl
  · have hhead : (Nat.toDigits 10 n ++ '\n' :: rest).head? = (Nat.toDigits 10 n).head? :=
      List.head?_append_of_ne_nil _ Nat.toDigits_ne_nil
    rw [readDecimal?, hhead, if_neg (head?_toDigits hzero), readDigits?, hhead]
    cases hdigits : Nat.toDigits 10 n with
    | nil => exact absurd hdigits Nat.toDigits_ne_nil
    | cons c cs =>
        have hall : ∀ d ∈ c :: cs, d.isDigit = true := hdigits ▸ isDigit_toDigits
        rw [readMoreDigits_append hall]
        exact if_pos (hall c List.mem_cons_self)

end Digits

section NoDate

theorem after?_digits (h : ∀ c ∈ digits, c.isDigit = true) (hdigit : c.isDigit = false)
    (hline : c ≠ '\n') (rest : List Char) : after? c (digits ++ '\n' :: rest) = none := by
  cases digits with
  | nil => exact if_neg hline
  | cons d ds =>
      exact if_neg (ne_of_class (h d List.mem_cons_self) hdigit).symm

/-- A field takes some of the digits. -/
theorem readField?_digits (h : ∀ c ∈ digits, c.isDigit = true) {count low high value : Nat}
    {rest after : List Char}
    (hfield : readField? count low high (digits ++ '\n' :: rest) = some (value, after)) :
    ∃ more, (∀ c ∈ more, c.isDigit = true) ∧ after = more ++ '\n' :: rest := by
  simp only [readField?, Option.ite_none_right_eq_some] at hfield
  obtain ⟨⟨hcount, hall, -⟩, hafter⟩ := hfield
  have hle : count ≤ digits.length := by
    by_contra hlong
    have hmem : '\n' ∈ (digits ++ '\n' :: rest).take count := by
      obtain ⟨more, rfl⟩ := Nat.exists_eq_add_of_lt (Nat.lt_of_not_le hlong)
      rw [Nat.add_assoc, List.take_length_add_append]
      exact List.mem_append_right _ List.mem_cons_self
    exact absurd (List.all_eq_true.mp hall _ hmem) (by decide)
  refine ⟨digits.drop count, fun c hc => h c (List.mem_of_mem_drop hc), ?_⟩
  rw [← List.drop_append_of_le_length hle]
  exact (Prod.mk.inj (Option.some.inj hafter)).2.symm

theorem afterDatetime?_digits (h : ∀ c ∈ digits, c.isDigit = true) (rest : List Char) :
    afterDatetime? (digits ++ '\n' :: rest) = none := by
  have hdate : afterDate? (digits ++ '\n' :: rest) = none := by
    rw [afterDate?]
    cases hfield : readField? 4 0 9999 (digits ++ '\n' :: rest) with
    | none => rfl
    | some field =>
        obtain ⟨value, after⟩ := field
        obtain ⟨more, hmore, hafter⟩ := readField?_digits h hfield
        simp only [bind, Option.bind, hafter, after?_digits (c := '-') hmore rfl (by decide)]
  have htime : afterTime? (digits ++ '\n' :: rest) = none := by
    rw [afterTime?]
    cases hfield : readField? 2 0 23 (digits ++ '\n' :: rest) with
    | none => rfl
    | some field =>
        obtain ⟨value, after⟩ := field
        obtain ⟨more, hmore, hafter⟩ := readField?_digits h hfield
        simp only [bind, Option.bind, hafter, after?_digits (c := ':') hmore rfl (by decide)]
  rw [afterDatetime?, hdate, htime]

end NoDate

section Integers

/-- The digits of a number behind its sign. -/
def signed (negative : Bool) (n : Nat) : List Char :=
  (if negative then ['-'] else []) ++ Nat.toDigits 10 n

theorem toList_toString (value : Int) :
    ∃ negative n, (toString value).toList = signed negative n ∧
      (if negative then -(n : Int) else n) = value := by
  rw [Int.toString_eq_repr, Int.repr_eq_if]
  split
  · rename_i hsign
    refine ⟨false, value.toNat, ?_, Int.toNat_of_nonneg hsign⟩
    rw [Nat.repr_eq_ofList_toDigits, String.toList_ofList]
    rfl
  · rename_i hsign
    have hpositive : ((-value).toNat : Int) = -value := Int.toNat_of_nonneg (by omega)
    refine ⟨true, (-value).toNat, ?_, ?_⟩
    · rw [Nat.repr_eq_ofList_toDigits, String.toList_append, String.toList_ofList,
        String.toList_ofList]
      rfl
    · rw [if_pos rfl, hpositive, Int.neg_neg]

/-- A numeral and the digit that it begins with. -/
theorem exists_digit (n : Nat) : ∃ c cs, Nat.toDigits 10 n = c :: cs ∧ c.isDigit = true := by
  cases hdigits : Nat.toDigits 10 n with
  | nil => exact absurd hdigits Nat.toDigits_ne_nil
  | cons c cs => exact ⟨c, cs, rfl, isDigit_toDigits c (hdigits ▸ List.mem_cons_self)⟩

theorem readSign_signed (negative : Bool) (n : Nat) (rest : List Char) :
    readSign (signed negative n ++ rest) = (negative, Nat.toDigits 10 n ++ rest) := by
  cases negative with
  | true => rfl
  | false =>
      obtain ⟨c, cs, hdigits, hc⟩ := exists_digit n
      have hminus : c ≠ '-' := ne_of_class hc rfl
      have hplus : c ≠ '+' := ne_of_class hc rfl
      rw [signed, hdigits]
      simp only [Bool.false_eq_true, if_false, List.nil_append, List.cons_append, readSign,
        if_neg hminus, if_neg hplus]

theorem readDecimalNumber?_signed (negative : Bool) (n : Nat) (rest : List Char) :
    readDecimalNumber? (signed negative n ++ '\n' :: rest) =
      (integer? (if negative then -(n : Int) else n)).map fun number => (number, '\n' :: rest) := by
  obtain ⟨c, cs, hdigits, hc⟩ := exists_digit n
  have hword : ¬ ((Nat.toDigits 10 n ++ '\n' :: rest).take 3 = ['i', 'n', 'f'] ∨
      (Nat.toDigits 10 n ++ '\n' :: rest).take 3 = ['n', 'a', 'n']) := by
    rw [hdigits]
    rintro (heq | heq)
    all_goals
      obtain rfl := (List.cons.inj heq).1
      cases hc
  have hplain : ¬ (('\n' :: rest).head? = some '.' ∨ ('\n' :: rest).head? = some 'e' ∨
      ('\n' :: rest).head? = some 'E') := by simp
  simp only [readDecimalNumber?, readSign_signed, if_neg hword, readDecimal?_toDigits, bind,
    Option.bind, if_neg hplain, digitsValue_toDigits]
  cases integer? (if negative then -(n : Int) else n) <;> rfl

theorem readNumber?_signed (negative : Bool) (n : Nat) (rest : List Char) :
    readNumber? (signed negative n ++ '\n' :: rest) =
      (integer? (if negative then -(n : Int) else n)).map fun number => (number, '\n' :: rest) := by
  obtain ⟨c, cs, hdigits, hc⟩ := exists_digit n
  have hbase (letter : Char) (hletter : letter.isDigit = false) (hline : letter ≠ '\n') :
      (signed negative n ++ '\n' :: rest).take 2 ≠ ['0', letter] := by
    rw [signed, hdigits]
    cases negative with
    | true => exact fun heq => absurd (List.cons.inj heq).1 (by decide)
    | false =>
        intro heq
        have hsecond := (List.cons.inj heq).2
        cases cs with
        | nil => exact hline (List.cons.inj hsecond).1.symm
        | cons d cs =>
            have hd : d.isDigit = true := isDigit_toDigits (n := n) d (by simp [hdigits])
            exact ne_of_class hd hletter (List.cons.inj hsecond).1
  rw [readNumber?, if_neg (hbase 'x' rfl (by decide)), if_neg (hbase 'o' rfl (by decide)),
    if_neg (hbase 'b' rfl (by decide)), readDecimalNumber?_signed]

theorem afterDatetime?_signed (negative : Bool) (n : Nat) (rest : List Char) :
    afterDatetime? (signed negative n ++ '\n' :: rest) = none := by
  cases negative with
  | false => exact afterDatetime?_digits isDigit_toDigits rest
  | true =>
      have hfield (count low high : Nat) (hcount : 0 < count) :
          readField? count low high (signed true n ++ '\n' :: rest) = none := by
        obtain ⟨more, rfl⟩ := Nat.exists_eq_succ_of_ne_zero (Nat.ne_of_gt hcount)
        refine if_neg fun h => ?_
        have hminus := List.all_eq_true.mp h.2.1 '-' List.mem_cons_self
        cases hminus
      have hdate : afterDate? (signed true n ++ '\n' :: rest) = none := by
        rw [afterDate?, hfield 4 0 9999 (by omega)]
        rfl
      have htime : afterTime? (signed true n ++ '\n' :: rest) = none := by
        rw [afterTime?, hfield 2 0 23 (by omega)]
        rfl
      rw [afterDatetime?, hdate, htime]

end Integers

section Scalars

/-- What a number with a sign may begin with. -/
def beginsNumber (c : Char) : Bool :=
  c == '-' || c.isDigit

theorem exists_beginsNumber (negative : Bool) (n : Nat) :
    ∃ c cs, signed negative n = c :: cs ∧ beginsNumber c = true := by
  cases negative with
  | true => exact ⟨'-', _, rfl, rfl⟩
  | false =>
      obtain ⟨c, cs, hdigits, hc⟩ := exists_digit n
      refine ⟨c, cs, hdigits, ?_⟩
      rw [beginsNumber, hc, Bool.or_true]

/-- Quoted text and the quote that it begins with. -/
theorem exists_quote (text : List Char) :
    ∃ c cs, writeQuoted text = c :: cs ∧ (c = '"' ∨ c = '\'') := by
  have hhead := head?_writeQuoted text
  cases hwritten : writeQuoted text with
  | nil =>
      rw [hwritten] at hhead
      rcases hhead with h | h <;> cases h
  | cons c cs =>
      rw [hwritten] at hhead
      exact ⟨c, cs, rfl, hhead.imp Option.some.inj Option.some.inj⟩

/-- What a written scalar begins with: nothing that begins anything else. -/
theorem exists_first (scalar : Scalar) :
    ∃ c cs, scalar.write = c :: cs ∧ c ≠ '[' ∧ c ≠ '{' ∧ isBlank c = false := by
  cases scalar with
  | text value =>
      obtain ⟨c, cs, hwritten, hquote⟩ := exists_quote value.toList
      refine ⟨c, cs, hwritten, ?_⟩
      rcases hquote with rfl | rfl <;> decide
  | integer value =>
      obtain ⟨negative, n, hvalue, -⟩ := toList_toString value
      obtain ⟨c, cs, hwritten, hc⟩ := exists_beginsNumber negative n
      refine ⟨c, cs, hvalue.trans hwritten, ne_of_class hc rfl, ne_of_class hc rfl, ?_⟩
      rw [isBlank, Bool.or_eq_false_iff, beq_eq_false_iff_ne, beq_eq_false_iff_ne]
      exact ⟨ne_of_class hc rfl, ne_of_class hc rfl⟩
  | boolean value =>
      cases value <;> exact ⟨_, _, rfl, by decide⟩

theorem readScalar?_text (value : String) (rest : List Char) :
    readScalar? (writeQuoted value.toList ++ '\n' :: rest) =
      some (.scalar (.text value), '\n' :: rest) := by
  have hquoted : (writeQuoted value.toList ++ '\n' :: rest).take 1 = ['"'] ∨
      (writeQuoted value.toList ++ '\n' :: rest).take 1 = ['\''] := by
    obtain ⟨c, cs, hwritten, hquote⟩ := exists_quote value.toList
    rw [hwritten]
    exact hquote.imp (congrArg ([·])) (congrArg ([·]))
  rw [readScalar?, if_pos hquoted, readQuoted?_writeQuoted]
  simp only [Option.map_some, String.ofList_toList]

theorem readScalar?_signed (negative : Bool) (n : Nat) (rest : List Char) :
    readScalar? (signed negative n ++ '\n' :: rest) =
      (readNumber? (signed negative n ++ '\n' :: rest)).map fun
        | (.integer value, rest) => (.scalar (.integer value), rest)
        | (.float, rest) => (.float, rest) := by
  obtain ⟨c, cs, hfirst, hc⟩ := exists_beginsNumber negative n
  have hquote : ¬ ((c :: (cs ++ '\n' :: rest)).take 1 = ['"'] ∨
      (c :: (cs ++ '\n' :: rest)).take 1 = ['\'']) := by
    rintro (h | h)
    · exact ne_of_class hc rfl (List.cons.inj h).1
    · exact ne_of_class hc rfl (List.cons.inj h).1
  have htrue : ¬ (c :: (cs ++ '\n' :: rest)).take 4 = ['t', 'r', 'u', 'e'] := fun h =>
    ne_of_class hc rfl (List.cons.inj h).1
  have hfalse : ¬ (c :: (cs ++ '\n' :: rest)).take 5 = ['f', 'a', 'l', 's', 'e'] := fun h =>
    ne_of_class hc rfl (List.cons.inj h).1
  rw [readScalar?, afterDatetime?_signed, hfirst, List.cons_append, if_neg hquote, if_neg htrue]
  exact if_neg hfalse

/-- A scalar that can be written is read back. -/
theorem readScalar?_write {scalar : Scalar} (h : scalar.isWritable = true) (rest : List Char) :
    readScalar? (scalar.write ++ '\n' :: rest) = some (.scalar scalar, '\n' :: rest) := by
  cases scalar with
  | text value => exact readScalar?_text value rest
  | integer value =>
      obtain ⟨negative, n, hvalue, hsame⟩ := toList_toString value
      have hrange : integer? value = some (.integer value) := by
        rw [Scalar.isWritable, Bool.and_eq_true, decide_eq_true_eq, decide_eq_true_eq] at h
        exact if_pos h
      rw [Scalar.write, hvalue, readScalar?_signed, readNumber?_signed, hsame, hrange]
      rfl
  | boolean value =>
      cases value <;> rfl

end Scalars

end Toml
end GameLink
