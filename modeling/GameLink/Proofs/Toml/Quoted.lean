import GameLink.Toml.Quoted.Read
import GameLink.Toml.Quoted.Write
import Mathlib.Data.List.TakeWhile

/-!
# Quoted text is read back

Whatever form a text is written in, it is read back from it, up to its closing quotes.

**Quotes in a row.**  On several lines up to two quotes stand for themselves.  In front of the
closing quotes they are read together with these; anywhere else something other than a quote
follows them.

**Results.**
* `readEscape?_escapeOf`: an escape stands for its character.
* `readBasic?_writeEscaped`, `readLines?_writeEscaped`: text with escapes.
* `readLiteral?_append`, `readLiteralLines?_append`: text that stands for itself.
* `readQuoted?_writeQuoted`: text in the form that is chosen for it.
-/

namespace GameLink
namespace Toml

/-- Two characters that a class tells apart. -/
theorem ne_of_class {isMember : Char → Bool} {c d : Char} (hc : isMember c = true)
    (hd : isMember d = false) : c ≠ d := by
  rintro rfl
  rw [hd] at hc
  cases hc

section Escapes

theorem digitsValue_append (base : Nat) (digits : List Char) (c : Char) :
    digitsValue base (digits ++ [c]) = base * digitsValue base digits + hexValue c := by
  rw [digitsValue, List.foldl_append]
  rfl

theorem hexValue_digit {value : Nat} (h : value < 16) :
    hexValue (Hex.digit .upper value) = value := by
  have hall : ∀ value < 16, hexValue (Hex.digit .upper value) = value := by decide
  exact hall value h

theorem isHexDigit_digit {value : Nat} (h : value < 16) :
    isHexDigit (Hex.digit .upper value) = true := by
  have hall : ∀ value < 16, isHexDigit (Hex.digit .upper value) = true := by decide
  exact hall value h

/-- The value of a padded number, as far as its digits reach. -/
theorem digitsValue_padded (width n : Nat) :
    digitsValue 16 (Hex.padded .upper width n) = n % Nat.pow 16 width := by
  induction width generalizing n with
  | zero => exact (Nat.mod_one n).symm
  | succ width ih =>
      have hpow : Nat.pow 16 (width + 1) = 16 * Nat.pow 16 width := Nat.pow_succ'
      rw [Hex.padded, digitsValue_append, ih, hexValue_digit (Nat.mod_lt _ (by omega)), hpow,
        Nat.mod_mul, Nat.add_comm]

theorem all_isHexDigit_padded (width n : Nat) :
    (Hex.padded .upper width n).all isHexDigit = true := by
  induction width generalizing n with
  | zero => rfl
  | succ width ih =>
      rw [Hex.padded, List.all_append, ih, List.all_cons, List.all_nil,
        isHexDigit_digit (Nat.mod_lt _ (by omega))]
      rfl

theorem readCode?_padded {c : Char} (h : c.toNat < 65536) (rest : List Char) :
    readCode? 4 (Hex.padded .upper 4 c.toNat ++ rest) = some (c, rest) := by
  have hlength : (Hex.padded .upper 4 c.toNat).length = 4 := Hex.length_padded _ _ _
  have hvalue : digitsValue 16 (Hex.padded .upper 4 c.toNat) = c.toNat := by
    rw [digitsValue_padded]
    exact Nat.mod_eq_of_lt h
  simp only [readCode?, List.take_left' hlength, List.drop_left' hlength, hlength, hvalue,
    all_isHexDigit_padded, Char.ofNat_toNat]
  exact if_pos ⟨trivial, trivial, c.valid⟩

/-- What follows the backslash of an escape. -/
def escapeOf (c : Char) : List Char :=
  (escaped c).tail

theorem escaped_eq (c : Char) : escaped c = '\\' :: escapeOf c := by
  simp only [escapeOf, escaped]
  split_ifs <;> rfl

/-- An escape stands for its character. -/
theorem readEscape?_escapeOf {c : Char} (h : c.toNat < 65536) (rest : List Char) :
    readEscape? (escapeOf c ++ rest) = some (c, rest) := by
  simp only [escapeOf, escaped]
  split_ifs with hb ht hn hf hr hq hs
  · rw [hb]; rfl
  · rw [ht]; rfl
  · rw [hn]; rfl
  · rw [hf]; rfl
  · rw [hr]; rfl
  · rw [hq]; rfl
  · rw [hs]; rfl
  · exact readCode?_padded h rest

/-- No escape begins with a blank or a line end. -/
theorem head_escapeOf (c : Char) :
    ∃ d tail, escapeOf c = d :: tail ∧ isBlank d = false ∧ d ≠ '\n' ∧ d ≠ '\r' := by
  simp only [escapeOf, escaped]
  split_ifs <;> exact ⟨_, _, rfl, by decide, by decide, by decide⟩

theorem toNat_lt_of_isEscaped {lines : Bool} {c : Char} (h : isEscaped lines c = true) :
    c.toNat < 65536 := by
  simp only [isEscaped, needsEscape, isPlain, Bool.or_eq_true, Bool.and_eq_true, beq_iff_eq,
    Bool.not_eq_true', Bool.or_eq_false_iff, Bool.and_eq_false_iff, decide_eq_false_iff_not,
    bne_eq_false_iff_eq] at h
  rcases h with ((rfl | rfl) | ⟨⟨-, hcontrol⟩, -⟩) | ⟨rfl, -⟩
  · decide
  · decide
  · rcases hcontrol with hlow | hdelete
    · omega
    · omega
  · decide

/-- What is not written as an escape is plain, or a newline where these may stand. -/
theorem isPlain_of_not_isEscaped {lines : Bool} {c : Char} (h : isEscaped lines c = false) :
    (isPlain c = true ∧ c ≠ '\n' ∧ c ≠ '\\') ∨ (c = '\n' ∧ lines = true) := by
  simp only [isEscaped, needsEscape, Bool.or_eq_false_iff, Bool.and_eq_false_iff,
    Bool.not_eq_false', bne_eq_false_iff_eq, beq_eq_false_iff_ne] at h
  obtain ⟨⟨⟨-, hslash⟩, hplain⟩, hline⟩ := h
  by_cases hnewline : c = '\n'
  · exact Or.inr ⟨hnewline, hline.resolve_left (fun hne => hne hnewline)⟩
  · exact Or.inl ⟨hplain.resolve_right hnewline, hnewline, hslash⟩

end Escapes

section BasicText

theorem readBasic?_escape {c : Char} (h : c.toNat < 65536) (rest : List Char) :
    readBasic? (escaped c ++ rest) = withFirst c (readBasic? rest) := by
  rw [escaped_eq, List.cons_append, readBasic?, if_neg (by decide), if_pos rfl]
  split
  · rename_i d more hread
    rw [readEscape?_escapeOf h] at hread
    cases hread
    rfl
  · rename_i hread
    rw [readEscape?_escapeOf h] at hread
    cases hread

theorem readBasic?_writeEscaped (text rest : List Char) :
    readBasic? (writeEscaped false 0 text ++ '"' :: rest) = some (text, rest) := by
  induction text with
  | nil => rw [writeEscaped, List.nil_append, readBasic?, if_pos rfl]
  | cons c cs ih =>
      simp only [writeEscaped, Bool.false_eq_true, if_false, if_true]
      by_cases hquote : c = '"'
      · rw [if_pos hquote, List.append_assoc, readBasic?_escape (by rw [hquote]; decide), ih]
        rfl
      · rw [if_neg hquote]
        by_cases hescaped : isEscaped false c = true
        · rw [if_pos hescaped, List.append_assoc,
            readBasic?_escape (toNat_lt_of_isEscaped hescaped), ih]
          rfl
        · rw [if_neg hescaped]
          rcases isPlain_of_not_isEscaped (Bool.eq_false_iff.mpr hescaped) with
            ⟨hplain, -, hslash⟩ | ⟨-, hline⟩
          · rw [List.cons_append, readBasic?, if_neg hquote, if_neg hslash, if_pos hplain, ih]
            rfl
          · cases hline

end BasicText

section MultilineText

theorem readLines?_escape {c : Char} (h : c.toNat < 65536) (rest : List Char) :
    readLines? (escaped c ++ rest) = withFirst c (readLines? rest) := by
  obtain ⟨d, tail, hescape, hblank, hline, hreturn⟩ := head_escapeOf c
  have hsame : afterNewline? (skipBlanks (escapeOf c ++ rest)) = none := by
    rw [hescape, List.cons_append, skipBlanks, List.dropWhile_cons_of_neg (by simp [hblank]),
      afterNewline?, if_neg hline, if_neg (fun h => hreturn h.1)]
  rw [escaped_eq, List.cons_append, readLines?, if_neg (by decide), if_pos rfl]
  split
  · rename_i more hmore
    rw [hsame] at hmore
    cases hmore
  · split
    · rename_i d more hread
      rw [readEscape?_escapeOf h] at hread
      cases hread
      rfl
    · rename_i hread
      rw [readEscape?_escapeOf h] at hread
      cases hread

theorem readLines?_newline (rest : List Char) :
    readLines? ('\n' :: rest) = withFirst '\n' (readLines? rest) := by
  rw [readLines?, if_neg (by decide), if_neg (by decide)]
  rfl

theorem afterNewline?_of_isPlain {c : Char} (hplain : isPlain c = true) (hline : c ≠ '\n')
    (rest : List Char) : afterNewline? (c :: rest) = none := by
  rw [afterNewline?, if_neg hline, if_neg fun h => ne_of_class hplain rfl h.1]

theorem readLines?_plain {c : Char} (hplain : isPlain c = true) (hline : c ≠ '\n')
    (hquote : c ≠ '"') (hslash : c ≠ '\\') (rest : List Char) :
    readLines? (c :: rest) = withFirst c (readLines? rest) := by
  rw [readLines?, if_neg hquote, if_neg hslash]
  split
  · rename_i more hmore
    rw [afterNewline?_of_isPlain hplain hline] at hmore
    cases hmore
  · rw [if_pos hplain]

/-- Up to two quotes in front of the closing ones belong to the text. -/
theorem trailingQuotes_replicate {quote : Char} {count : Nat} (h : count ≤ 2) {rest : List Char}
    (hrest : rest.head? ≠ some quote) :
    trailingQuotes quote (List.replicate count quote ++ rest) =
      (List.replicate count quote, rest) := by
  have hstop : rest.takeWhile (· == quote) = [] := by
    cases rest with
    | nil => rfl
    | cons c rest =>
        refine List.takeWhile_cons_of_neg ?_
        simpa using hrest
  have hrun : ((List.replicate count quote ++ rest).takeWhile (· == quote)).length = count := by
    rw [List.takeWhile_append_of_pos (by simp), hstop, List.append_nil, List.length_replicate]
  simp only [trailingQuotes, hrun, Nat.min_eq_right h]
  rw [List.drop_left' List.length_replicate]

theorem head?_eq_of_take {c d : Char} {cs : List Char} (h : cs.take 2 = [c, d]) :
    cs.head? = some c := by
  have htake := List.head?_take (l := cs) (i := 2)
  rw [h] at htake
  exact htake.symm

/-- Written text begins with a quote only if one is spared. -/
theorem head?_writeEscaped_ne {lines : Bool} {spare : Nat} {c : Char} (h : spare = 0 ∨ c ≠ '"')
    (cs more : List Char) : (writeEscaped lines spare (c :: cs) ++ more).head? ≠ some '"' := by
  have hescape (most : Nat) :
      (escaped c ++ writeEscaped lines most cs ++ more).head? ≠ some '"' := by
    rw [escaped_eq]
    exact fun heq => absurd (Option.some.inj heq) (by decide)
  rw [writeEscaped]
  by_cases hquote : c = '"'
  · rw [if_pos hquote, if_pos (h.resolve_right fun hne => hne hquote)]
    exact hescape _
  · rw [if_neg hquote]
    split
    · exact hescape _
    · exact fun heq => hquote (Option.some.inj heq)

/-- Two quotes follow one that is spared only at the end of the text. -/
theorem eq_replicate_of_take {spare : Nat} {cs rest : List Char} (hspare : spare ≤ 1)
    (h : (writeEscaped true spare cs ++ '"' :: '"' :: '"' :: rest).take 2 = ['"', '"']) :
    ∃ count ≤ spare, cs = List.replicate count '"' := by
  cases cs with
  | nil => exact ⟨0, Nat.zero_le _, rfl⟩
  | cons c cs =>
      by_cases hraw : spare = 0 ∨ c ≠ '"'
      · exact absurd (head?_eq_of_take h) (head?_writeEscaped_ne hraw cs _)
      · obtain ⟨hsome, hquote⟩ := not_or.mp hraw
        obtain rfl : spare = 1 := by omega
        obtain rfl : c = '"' := not_not.mp hquote
        cases cs with
        | nil => exact ⟨1, Nat.le_refl _, rfl⟩
        | cons d cs =>
            have hnext : (writeEscaped true 0 (d :: cs) ++ '"' :: '"' :: '"' :: rest).head? =
                some '"' := by
              rw [writeEscaped, if_pos rfl, if_neg (by decide)] at h
              have hsecond := (List.cons.inj h).2
              rw [List.take_one] at hsecond
              exact Option.toList_eq_singleton_iff.mp hsecond
            exact absurd hnext (head?_writeEscaped_ne (Or.inl rfl) cs _)

theorem readLines?_quote {rest : List Char} (h : rest.take 2 ≠ ['"', '"']) :
    readLines? ('"' :: rest) = withFirst '"' (readLines? rest) := by
  rw [readLines?, if_pos rfl, if_neg h]

/-- Quotes in a row may change places. -/
theorem replicate_append_three (quote : Char) (count : Nat) (rest : List Char) :
    List.replicate count quote ++ quote :: quote :: quote :: rest =
      quote :: quote :: quote :: (List.replicate count quote ++ rest) := by
  have hthree : quote :: quote :: quote :: rest = List.replicate 3 quote ++ rest := rfl
  rw [hthree, ← List.append_assoc, List.replicate_append_replicate, Nat.add_comm,
    ← List.replicate_append_replicate]
  rfl

/-- The closing quotes, with up to two of the text in front of them. -/
theorem readLines?_closing {count : Nat} (h : count ≤ 2) {rest : List Char}
    (hrest : rest.head? ≠ some '"') :
    readLines? (List.replicate count '"' ++ '"' :: '"' :: '"' :: rest) =
      some (List.replicate count '"', rest) := by
  have hclosing (more : List Char) :
      readLines? ('"' :: '"' :: '"' :: more) = some (trailingQuotes '"' more) := by
    rw [readLines?, if_pos rfl]
    exact if_pos rfl
  rw [replicate_append_three, hclosing, trailingQuotes_replicate h hrest]

theorem writeEscaped_replicate {count spare : Nat} (h : count ≤ spare) :
    writeEscaped true spare (List.replicate count '"') = List.replicate count '"' := by
  induction count generalizing spare with
  | zero => rfl
  | succ count ih =>
      rw [List.replicate_succ, writeEscaped, if_pos rfl, if_neg (by omega), ih (by omega)]

theorem readLines?_writeEscaped {spare : Nat} (hspare : spare ≤ 2) (text : List Char)
    {rest : List Char} (hrest : rest.head? ≠ some '"') :
    readLines? (writeEscaped true spare text ++ '"' :: '"' :: '"' :: rest) =
      some (text, rest) := by
  -- How many quotes may still stand for themselves changes with each character.
  induction text generalizing spare with
  | nil => exact readLines?_closing (Nat.zero_le 2) hrest
  | cons c cs ih =>
      have htwo := ih (Nat.le_refl 2)
      rw [writeEscaped]
      simp only [if_true]
      by_cases hquote : c = '"'
      · subst hquote
        rw [if_pos rfl]
        by_cases hnone : spare = 0
        · rw [if_pos hnone, List.append_assoc, readLines?_escape (by decide), htwo]
          rfl
        · rw [if_neg hnone, List.cons_append]
          by_cases hend : (writeEscaped true (spare - 1) cs ++ '"' :: '"' :: '"' :: rest).take 2 =
              ['"', '"']
          · obtain ⟨count, hcount, rfl⟩ := eq_replicate_of_take (by omega) hend
            rw [writeEscaped_replicate hcount]
            exact readLines?_closing (show count + 1 ≤ 2 by omega) hrest
          · rw [readLines?_quote hend, ih (by omega)]
            rfl
      · rw [if_neg hquote]
        by_cases hescaped : isEscaped true c = true
        · rw [if_pos hescaped, List.append_assoc,
            readLines?_escape (toNat_lt_of_isEscaped hescaped), htwo]
          rfl
        · rw [if_neg hescaped, List.cons_append]
          rcases isPlain_of_not_isEscaped (Bool.eq_false_iff.mpr hescaped) with
            ⟨hplain, hline, hslash⟩ | ⟨rfl, -⟩
          · rw [readLines?_plain hplain hline hquote hslash, htwo]
            rfl
          · rw [readLines?_newline, htwo]
            rfl

end MultilineText

section LiteralText

theorem readLiteral?_append {text : List Char}
    (h : ∀ c ∈ text, isPlain c = true ∧ c ≠ '\'') (rest : List Char) :
    readLiteral? (text ++ '\'' :: rest) = some (text, rest) := by
  have hinside : ∀ c ∈ text, (isPlain c && c != '\'') = true := by
    intro c hc
    simpa using h c hc
  simp only [readLiteral?]
  rw [List.dropWhile_append_of_pos hinside, List.takeWhile_append_of_pos hinside,
    List.dropWhile_cons_of_neg (by decide), List.takeWhile_cons_of_neg (by decide),
    List.append_nil]
  rfl

theorem readLiteralLines?_newline (rest : List Char) :
    readLiteralLines? ('\n' :: rest) = withFirst '\n' (readLiteralLines? rest) := by
  rw [readLiteralLines?, if_neg (by decide)]
  rfl

theorem readLiteralLines?_plain {c : Char} (hplain : isPlain c = true) (hline : c ≠ '\n')
    (hquote : c ≠ '\'') (rest : List Char) :
    readLiteralLines? (c :: rest) = withFirst c (readLiteralLines? rest) := by
  rw [readLiteralLines?, if_neg hquote]
  split
  · rename_i more hmore
    rw [afterNewline?_of_isPlain hplain hline] at hmore
    cases hmore
  · rw [if_pos hplain]

theorem readLiteralLines?_quote {rest : List Char} (h : rest.take 2 ≠ ['\'', '\'']) :
    readLiteralLines? ('\'' :: rest) = withFirst '\'' (readLiteralLines? rest) := by
  rw [readLiteralLines?, if_pos rfl, if_neg h]

theorem readLiteralLines?_closing {count : Nat} (h : count ≤ 2) {rest : List Char}
    (hrest : rest.head? ≠ some '\'') :
    readLiteralLines? (List.replicate count '\'' ++ '\'' :: '\'' :: '\'' :: rest) =
      some (List.replicate count '\'', rest) := by
  have hclosing (more : List Char) :
      readLiteralLines? ('\'' :: '\'' :: '\'' :: more) = some (trailingQuotes '\'' more) := by
    rw [readLiteralLines?, if_pos rfl]
    exact if_pos rfl
  rw [replicate_append_three, hclosing, trailingQuotes_replicate h hrest]

theorem le_longestRunFrom (quote : Char) (run : Nat) (text : List Char) :
    run ≤ longestRunFrom quote run text := by
  induction text generalizing run with
  | nil => exact Nat.le_refl _
  | cons c cs ih =>
      rw [longestRunFrom]
      split
      · exact (Nat.le_succ run).trans (ih _)
      · exact Nat.le_max_left _ _

/-- In a text without three quotes in a row, two of them follow one only at its end. -/
theorem eq_replicate_of_longestRun {run : Nat} {cs rest : List Char}
    (hrun : longestRunFrom '\'' (run + 1) cs ≤ 2)
    (h : (cs ++ '\'' :: '\'' :: '\'' :: rest).take 2 = ['\'', '\'']) :
    ∃ count ≤ 1, cs = List.replicate count '\'' := by
  cases cs with
  | nil => exact ⟨0, Nat.zero_le _, rfl⟩
  | cons c cs =>
      obtain ⟨rfl, hnext⟩ := List.cons.inj h
      cases cs with
      | nil => exact ⟨1, Nat.le_refl _, rfl⟩
      | cons d cs =>
          obtain ⟨rfl, -⟩ := List.cons.inj hnext
          rw [longestRunFrom, if_pos rfl, longestRunFrom, if_pos rfl] at hrun
          have hthree := le_longestRunFrom '\'' (run + 1 + 1 + 1) cs
          omega

theorem readLiteralLines?_append {text : List Char} (h : ∀ c ∈ text, needsEscape c = false)
    {run : Nat} (hrun : longestRunFrom '\'' run text ≤ 2) {rest : List Char}
    (hrest : rest.head? ≠ some '\'') :
    readLiteralLines? (text ++ '\'' :: '\'' :: '\'' :: rest) = some (text, rest) := by
  induction text generalizing run with
  | nil => exact readLiteralLines?_closing (Nat.zero_le 2) hrest
  | cons c cs ih =>
      obtain ⟨hc, hcs⟩ := List.forall_mem_cons.mp h
      rw [List.cons_append]
      by_cases hquote : c = '\''
      · subst hquote
        rw [longestRunFrom, if_pos rfl] at hrun
        by_cases hend : (cs ++ '\'' :: '\'' :: '\'' :: rest).take 2 = ['\'', '\'']
        · obtain ⟨count, hcount, rfl⟩ := eq_replicate_of_longestRun hrun hend
          exact readLiteralLines?_closing (show count + 1 ≤ 2 by omega) hrest
        · rw [readLiteralLines?_quote hend, ih hcs hrun]
          rfl
      · rw [longestRunFrom, if_neg hquote] at hrun
        have hread := ih hcs ((Nat.le_max_right _ _).trans hrun)
        by_cases hline : c = '\n'
        · subst hline
          rw [readLiteralLines?_newline, hread]
          rfl
        · have hplain : isPlain c = true := by
            simpa [needsEscape, hline] using hc
          rw [readLiteralLines?_plain hplain hline hquote, hread]
          rfl

end LiteralText

section TextForm

theorem longestRunFrom_eq_zero {quote : Char} {text : List Char}
    (h : longestRunFrom quote 0 text = 0) : ∀ c ∈ text, c ≠ quote := by
  induction text with
  | nil => exact fun c hc => absurd hc List.not_mem_nil
  | cons d cs ih =>
      rw [longestRunFrom] at h
      split at h
      · have hone := le_longestRunFrom quote (0 + 1) cs
        omega
      · rename_i hother
        rw [Nat.max_eq_zero_iff] at h
        exact List.forall_mem_cons.mpr ⟨hother, ih h.2⟩

/-- What a text that is written literally is like. -/
structure Literal (text : List Char) : Prop where
  plain : ∀ c ∈ text, isPlain c = true ∧ c ≠ '\''
  ne_nil : text ≠ []

/-- What a text that is written literally on several lines is like. -/
structure LiteralLines (text : List Char) : Prop where
  noEscape : ∀ c ∈ text, needsEscape c = false
  longestRun_le : longestRun '\'' text ≤ 2

theorem noEscape_of_any {text : List Char} (h : (!text.any needsEscape) = true) :
    ∀ c ∈ text, needsEscape c = false := by
  simpa using h

/-- The literal forms are chosen for such texts only. -/
theorem of_spec (text : List Char) :
    (QuotedForm.of text = .literal → Literal text) ∧
      (QuotedForm.of text = .literalLines → LiteralLines text) := by
  simp only [QuotedForm.of]
  split_ifs with hbasic hliteral hbasicLines hliteralLines hlines <;> refine ⟨?_, ?_⟩ <;>
    intro hform <;> try cases hform
  · simp only [Bool.and_eq_true, beq_iff_eq] at hliteral
    obtain ⟨⟨hcontrol, hsingle⟩, hline⟩ := hliteral
    have hnewline : '\n' ∉ text := by simpa using hline
    constructor
    · intro c hc
      have hescape := noEscape_of_any hcontrol c hc
      have hne : c ≠ '\n' := fun heq => hnewline (heq ▸ hc)
      exact ⟨by simpa [needsEscape, hne] using hescape, longestRunFrom_eq_zero hsingle c hc⟩
    · rintro rfl
      exact hbasic (by decide)
  · simp only [Bool.and_eq_true, decide_eq_true_eq] at hliteralLines
    exact ⟨noEscape_of_any hliteralLines.1, hliteralLines.2⟩

/-- Only the newline that opens a text on several lines is dropped. -/
theorem dropNewline_opening {text body more : List Char}
    (h : '\n' ∉ text → afterNewline? (body ++ more) = none) :
    dropNewline ((if text.contains '\n' then ['\n'] else []) ++ body ++ more) = body ++ more := by
  by_cases hline : '\n' ∈ text
  · rw [if_pos (List.contains_iff_mem.mpr hline)]
    rfl
  · rw [if_neg (fun hcontains => hline (List.contains_iff_mem.mp hcontains)), List.nil_append,
      dropNewline, h hline]
    rfl

theorem afterNewline?_writeEscaped {text : List Char} (h : '\n' ∉ text) (spare : Nat)
    (more : List Char) :
    afterNewline? (writeEscaped true spare text ++ '"' :: more) = none := by
  cases text with
  | nil => rfl
  | cons c cs =>
      have hescape (rest : List Char) : afterNewline? (escaped c ++ rest) = none := by
        rw [escaped_eq]
        rfl
      rw [writeEscaped]
      by_cases hquote : c = '"'
      · subst hquote
        rw [if_pos rfl]
        split
        · rw [List.append_assoc]
          exact hescape _
        · rfl
      · rw [if_neg hquote]
        by_cases hescaped : isEscaped true c = true
        · rw [if_pos hescaped, List.append_assoc]
          exact hescape _
        · rw [if_neg hescaped]
          rcases isPlain_of_not_isEscaped (Bool.eq_false_iff.mpr hescaped) with
            ⟨hplain, hline, -⟩ | ⟨rfl, -⟩
          · exact afterNewline?_of_isPlain hplain hline _
          · exact absurd List.mem_cons_self h

theorem readQuoted?_double {cs : List Char} (h : cs.take 2 ≠ ['"', '"']) :
    readQuoted? ('"' :: cs) = readBasic? cs := by
  have hthree : ('"' :: cs).take 3 ≠ ['"', '"', '"'] := fun heq => h (List.cons.inj heq).2
  rw [readQuoted?, if_neg hthree]
  exact if_pos rfl

theorem readQuoted?_doubles (cs : List Char) :
    readQuoted? ('"' :: '"' :: '"' :: cs) = readLines? (dropNewline cs) := by
  rw [readQuoted?]
  exact if_pos rfl

theorem readQuoted?_of_single (cs : List Char) :
    readQuoted? ('\'' :: cs) =
      if cs.take 2 = ['\'', '\''] then readLiteralLines? (dropNewline (cs.drop 2))
      else readLiteral? cs := by
  have hthree : ('\'' :: cs).take 3 ≠ ['"', '"', '"'] :=
    fun heq => absurd (List.cons.inj heq).1 (by decide)
  have hone : ('\'' :: cs).take 1 ≠ ['"'] :=
    fun heq => absurd (List.cons.inj heq).1 (by decide)
  have hsame : ('\'' :: cs).take 3 = ['\'', '\'', '\''] ↔ cs.take 2 = ['\'', '\''] :=
    ⟨fun heq => (List.cons.inj heq).2, congrArg ('\'' :: ·)⟩
  rw [readQuoted?, if_neg hthree, if_neg hone]
  exact if_congr hsame rfl (if_pos rfl)

theorem readQuoted?_basic (text rest : List Char) :
    readQuoted? (QuotedForm.basic.write text ++ '\n' :: rest) = some (text, '\n' :: rest) := by
  have hwritten : QuotedForm.basic.write text ++ '\n' :: rest =
      '"' :: (writeEscaped false 0 text ++ '"' :: '\n' :: rest) := by
    simp [QuotedForm.write, QuotedForm.delimiter, QuotedForm.holdsLines, QuotedForm.hasEscapes]
  have hone : (writeEscaped false 0 text ++ '"' :: '\n' :: rest).take 2 ≠ ['"', '"'] := by
    cases text with
    | nil => exact fun heq => absurd (List.cons.inj (List.cons.inj heq).2).1 (by decide)
    | cons c cs => exact fun heq => head?_writeEscaped_ne (Or.inl rfl) cs _ (head?_eq_of_take heq)
  rw [hwritten, readQuoted?_double hone]
  exact readBasic?_writeEscaped text ('\n' :: rest)

theorem readQuoted?_literal {text : List Char} (h : Literal text) (rest : List Char) :
    readQuoted? (QuotedForm.literal.write text ++ '\n' :: rest) = some (text, '\n' :: rest) := by
  have hwritten : QuotedForm.literal.write text ++ '\n' :: rest =
      '\'' :: (text ++ '\'' :: '\n' :: rest) := by
    simp [QuotedForm.write, QuotedForm.delimiter, QuotedForm.holdsLines, QuotedForm.hasEscapes]
  have hone : (text ++ '\'' :: '\n' :: rest).take 2 ≠ ['\'', '\''] := by
    cases text with
    | nil => exact absurd rfl h.ne_nil
    | cons c cs =>
        exact fun heq => (h.plain c List.mem_cons_self).2 (Option.some.inj (head?_eq_of_take heq))
  rw [hwritten, readQuoted?_of_single, if_neg hone]
  exact readLiteral?_append h.plain ('\n' :: rest)

theorem readQuoted?_basicLines (text rest : List Char) :
    readQuoted? (QuotedForm.basicLines.write text ++ '\n' :: rest) =
      some (text, '\n' :: rest) := by
  have hwritten : QuotedForm.basicLines.write text ++ '\n' :: rest =
      '"' :: '"' :: '"' :: ((if text.contains '\n' then ['\n'] else []) ++
        writeEscaped true 2 text ++ '"' :: '"' :: '"' :: '\n' :: rest) := by
    simp [QuotedForm.write, QuotedForm.delimiter, QuotedForm.holdsLines, QuotedForm.hasEscapes]
  rw [hwritten, readQuoted?_doubles]
  exact (congrArg readLines? (dropNewline_opening fun hline =>
    afterNewline?_writeEscaped hline 2 _)).trans
      (readLines?_writeEscaped (Nat.le_refl 2) text (by simp))

theorem readQuoted?_literalLines {text : List Char} (h : LiteralLines text) (rest : List Char) :
    readQuoted? (QuotedForm.literalLines.write text ++ '\n' :: rest) =
      some (text, '\n' :: rest) := by
  have hwritten : QuotedForm.literalLines.write text ++ '\n' :: rest =
      '\'' :: '\'' :: '\'' :: ((if text.contains '\n' then ['\n'] else []) ++
        text ++ '\'' :: '\'' :: '\'' :: '\n' :: rest) := by
    simp [QuotedForm.write, QuotedForm.delimiter, QuotedForm.holdsLines, QuotedForm.hasEscapes]
  have hbody (hline : '\n' ∉ text) :
      afterNewline? (text ++ '\'' :: '\'' :: '\'' :: '\n' :: rest) = none := by
    cases text with
    | nil => rfl
    | cons c cs =>
        have hne : c ≠ '\n' := fun heq => hline (heq ▸ List.mem_cons_self)
        have hplain : isPlain c = true := by
          simpa [needsEscape, hne] using h.noEscape c List.mem_cons_self
        exact afterNewline?_of_isPlain hplain hne _
  rw [hwritten, readQuoted?_of_single]
  refine (if_pos rfl).trans ?_
  exact (congrArg readLiteralLines? (dropNewline_opening hbody)).trans
    (readLiteralLines?_append h.noEscape h.longestRun_le (by simp))

/-- A text in the form that is chosen for it is read back. -/
theorem readQuoted?_writeQuoted (text rest : List Char) :
    readQuoted? (writeQuoted text ++ '\n' :: rest) = some (text, '\n' :: rest) := by
  obtain ⟨hliteral, hliteralLines⟩ := of_spec text
  rw [writeQuoted]
  cases hform : QuotedForm.of text with
  | basic => exact readQuoted?_basic text rest
  | literal => exact readQuoted?_literal (hliteral hform) rest
  | basicLines => exact readQuoted?_basicLines text rest
  | literalLines => exact readQuoted?_literalLines (hliteralLines hform) rest

/-- Quoted text begins with a quote. -/
theorem head?_writeQuoted (text : List Char) :
    (writeQuoted text).head? = some '"' ∨ (writeQuoted text).head? = some '\'' := by
  rw [writeQuoted]
  cases QuotedForm.of text with
  | basic | basicLines => exact Or.inl rfl
  | literal | literalLines => exact Or.inr rfl

end TextForm

end Toml
end GameLink
