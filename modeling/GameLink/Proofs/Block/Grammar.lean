import GameLink.Proofs.Block.Search

/-!
# What a written form stands for

The layout of a written form as a grammar: which octets are a number, which are a factor, where
the form may end, and what it stands for.  The reader accepts exactly the forms of the grammar
that stand for no more octets than there is room for.

**Layout.** A token holds two numbers below fifteen in its halves; a half of fifteen is continued by
octets that are added up, all of them 255 but the last.  A form ends after the literals of a token,
whose other half means nothing then, or after a whole copy.

**Results.**
* `readNumber_eq_some_iff`, `readLiterals_eq_some_iff`: what is read as a number, and as literals.
* `copies_iff`: copying octet by octet is the only way to lengthen the output by a copy.
* `expandInto_eq_some_iff`: what the reader accepts, and with what output.
* `Expands.unique`: a form stands for one output only.
-/

namespace GameLink
namespace Block

section Grammar

/-- The half of a token and the octets that continue it stand for a number. -/
inductive Numeral : Nat → Bytes → Nat → Prop
  | short {half : Nat} (h : half < 15) : Numeral half [] half
  | long (fulls : Nat) {last : UInt8} (h : last ≠ 255) :
      Numeral 15 (List.replicate fulls 255 ++ [last]) (15 + 255 * fulls + last.toNat)

/-- The output with `n` more octets, each equal to the one `distance` before it. -/
structure Copies (distance n : Nat) (out result : Array UInt8) : Prop where
  size : result.size = out.size + n
  kept : ∀ i < out.size, octetAt result i = octetAt out i
  copied : ∀ i, out.size ≤ i → i < result.size →
    octetAt result i = octetAt result (i - distance)

/-- The distance that two octets stand for, the lower one first. -/
def distanceOf (low high : UInt8) : Nat :=
  low.toNat + 256 * high.toNat

/-- A written form takes the output from what is there already to what is there in the end. -/
inductive Expands : Bytes → Array UInt8 → Array UInt8 → Prop
  | finished (out : Array UInt8) : Expands [] out out
  /-- The form ends after literals. -/
  | literals {token : UInt8} {more literals : Bytes} {out : Array UInt8}
      (hcount : Numeral (token.toNat / 16) more literals.length) :
      Expands (token :: (more ++ literals)) out (out ++ literals)
  /-- A factor, and what follows it. -/
  | copy {token low high : UInt8} {more literals more' rest : Bytes} {copy : Nat}
      {out copied result : Array UInt8}
      (hcount : Numeral (token.toNat / 16) more literals.length)
      (hinside : 1 ≤ distanceOf low high ∧ distanceOf low high ≤ out.size + literals.length)
      (hlength : Numeral (token.toNat % 16) more' copy)
      (hcopied : Copies (distanceOf low high) (copy + minCopy) (out ++ literals) copied)
      (hrest : Expands rest copied result) :
      Expands (token :: (more ++ (literals ++ low :: high :: (more' ++ rest)))) out result

/-- A written form stands for octets. -/
def Denotes (src meaning : Bytes) : Prop :=
  Expands src #[] meaning.toArray

end Grammar

section Literals

theorem readContinuation_eq_some_iff {start n : Nat} {src rest : Bytes} :
    readContinuation start src = some (n, rest) ↔
      ∃ (fulls : Nat) (last : UInt8), last ≠ 255 ∧
        src = List.replicate fulls 255 ++ last :: rest ∧
          n = start + 255 * fulls + last.toNat := by
  constructor
  · intro h
    induction src generalizing start with
    | nil => simp [readContinuation] at h
    | cons b src ih =>
        rw [readContinuation] at h
        split at h
        · rename_i hfull
          obtain ⟨fulls, last, hlast, rfl, rfl⟩ := ih h
          exact ⟨fulls + 1, last, hlast, by rw [hfull]; rfl, by omega⟩
        · rename_i hlast
          simp only [Option.some.injEq, Prod.mk.injEq] at h
          obtain ⟨rfl, rfl⟩ := h
          exact ⟨0, b, hlast, rfl, rfl⟩
  · rintro ⟨fulls, last, hlast, rfl, rfl⟩
    induction fulls generalizing start with
    | zero =>
        rw [List.replicate_zero, List.nil_append, readContinuation, if_neg hlast]
        rfl
    | succ fulls ih =>
        have hsum : start + 255 + 255 * fulls + last.toNat =
            start + 255 * (fulls + 1) + last.toNat := by omega
        rw [List.replicate_succ, List.cons_append, readContinuation, if_pos rfl, ih, hsum]

/-- What is read as a number. -/
theorem readNumber_eq_some_iff {half n : Nat} (hhalf : half < 16) {src rest : Bytes} :
    readNumber half src = some (n, rest) ↔ ∃ more, Numeral half more n ∧ src = more ++ rest := by
  unfold readNumber
  split
  · rename_i hfull
    subst hfull
    rw [readContinuation_eq_some_iff]
    constructor
    · rintro ⟨fulls, last, hlast, rfl, rfl⟩
      exact ⟨_, .long fulls hlast, by simp⟩
    · rintro ⟨more, hnumeral, rfl⟩
      cases hnumeral with
      | short h => exact absurd h (by decide)
      | long fulls hlast => exact ⟨fulls, _, hlast, by simp, rfl⟩
  · rename_i hshort
    rw [Option.some.injEq, Prod.mk.injEq]
    constructor
    · rintro ⟨rfl, rfl⟩
      exact ⟨[], .short (by omega), rfl⟩
    · rintro ⟨more, hnumeral, rfl⟩
      cases hnumeral with
      | short => exact ⟨rfl, rfl⟩
      | long => exact absurd rfl hshort

theorem Numeral.read {half n : Nat} {more : Bytes} (h : Numeral half more n) (hhalf : half < 16)
    (rest : Bytes) : readNumber half (more ++ rest) = some (n, rest) :=
  (readNumber_eq_some_iff hhalf).mpr ⟨more, h, rfl⟩

/-- What is read as literals. -/
theorem readLiterals_eq_some_iff {n : Nat} {src rest : Bytes} {out result : Array UInt8} :
    readLiterals n src out = some (rest, result) ↔
      ∃ literals : Bytes, literals.length = n ∧ src = literals ++ rest ∧
        result = out ++ literals := by
  constructor
  · intro h
    induction n generalizing src out with
    | zero =>
        simp only [readLiterals, Option.some.injEq, Prod.mk.injEq] at h
        obtain ⟨rfl, rfl⟩ := h
        exact ⟨[], rfl, rfl, by simp⟩
    | succ n ih =>
        cases src with
        | nil => simp [readLiterals] at h
        | cons b src =>
            obtain ⟨literals, hlength, rfl, rfl⟩ := ih h
            exact ⟨b :: literals, by rw [List.length_cons, hlength], rfl, by simp⟩
  · rintro ⟨literals, rfl, rfl, rfl⟩
    exact readLiterals_append literals rest out

theorem token_halves (token : UInt8) : token.toNat / 16 < 16 ∧ token.toNat % 16 < 16 := by
  have hlt := token.toNat_lt
  omega

end Literals

section Copies

theorem octetAt_push_of_lt {out : Array UInt8} {i : Nat} (h : i < out.size) (b : UInt8) :
    octetAt (out.push b) i = octetAt out i := by
  simp [octetAt, Array.getD, h, Nat.lt_succ_of_lt h, Array.getElem_push_lt h]

theorem octetAt_push_size (out : Array UInt8) (b : UInt8) :
    octetAt (out.push b) out.size = b := by
  simp [octetAt, Array.getD]

theorem copies_copyBack {distance : Nat} (hpos : 0 < distance) (n : Nat) {out : Array UInt8}
    (hback : distance ≤ out.size) : Copies distance n out (copyBack distance n out) := by
  induction n generalizing out with
  | zero => exact ⟨rfl, fun _ _ => rfl, fun i hle hlt => absurd hlt (Nat.not_lt.mpr hle)⟩
  | succ n ih =>
      have hbackNext : distance ≤ (out.push (octetAt out (out.size - distance))).size := by
        rw [Array.size_push]
        omega
      have hnext := ih hbackNext
      have hsize := hnext.size
      have hkept := hnext.kept
      rw [Array.size_push] at hsize hkept
      have hsame (i : Nat) (hi : i < out.size) :
          octetAt (copyBack distance (n + 1) out) i = octetAt out i := by
        rw [← octetAt_push_of_lt hi]
        exact hkept i (by omega)
      refine ⟨by rw [size_copyBack], hsame, fun i hle hlt => ?_⟩
      rcases Nat.eq_or_lt_of_le hle with rfl | hlater
      · rw [hsame (out.size - distance) (by omega)]
        exact (hkept out.size (Nat.lt_succ_self _)).trans (octetAt_push_size out _)
      · refine hnext.copied i ?_ hlt
        rw [Array.size_push]
        exact hlater

theorem extract_of_kept {out result : Array UInt8} (hsize : out.size ≤ result.size)
    (hkept : ∀ i < out.size, octetAt result i = octetAt out i) :
    result.extract 0 out.size = out := by
  have hmin : (result.extract 0 out.size).size = out.size := by
    rw [Array.size_extract]
    omega
  refine Array.ext hmin fun i hi hi' => ?_
  have hoctet := hkept i hi'
  have hresult : i < result.size := by omega
  simpa [octetAt, Array.getD, hi', hresult] using hoctet

/-- Copying octet by octet is the only way to lengthen the output by a copy. -/
theorem copies_iff {distance n : Nat} {out result : Array UInt8} (hpos : 0 < distance)
    (hback : distance ≤ out.size) :
    Copies distance n out result ↔ copyBack distance n out = result := by
  constructor
  · intro h
    have hstart := extract_of_kept (by rw [h.size]; omega) h.kept
    have hoctets (k : Nat) (hk : k < n) :
        octetAt result (out.size - distance + k) = octetAt result (out.size + k) := by
      rw [h.copied (out.size + k) (by omega) (by rw [h.size]; omega)]
      congr 1
      omega
    have hcopy := copyBack_extract hpos n hback (Nat.le_of_eq h.size.symm) hoctets
    rw [hstart, ← h.size, Array.extract_size] at hcopy
    exact hcopy
  · rintro rfl
    exact copies_copyBack hpos n hback

end Copies

section WrittenForms

theorem Expands.size_le {src : Bytes} {out result : Array UInt8} (h : Expands src out result) :
    out.size ≤ result.size := by
  induction h with
  | finished => exact Nat.le_refl _
  | literals =>
      rw [size_append_literals]
      omega
  | copy _ _ _ hcopied _ ih =>
      rw [hcopied.size, size_append_literals] at ih
      omega

/-- A form of the grammar is read, if what it stands for fits. -/
theorem expandInto_of_expands {src : Bytes} {out result : Array UInt8}
    (h : Expands src out result) {capacity : Nat} (hfits : result.size ≤ capacity) :
    expandInto capacity src out = some result := by
  induction h with
  | finished => rw [expandInto]
  | @literals token more literals out hcount =>
      rw [size_append_literals] at hfits
      have hread := readLiterals_append literals [] out
      rw [List.append_nil] at hread
      rw [expandInto_cons, hcount.read (token_halves token).1]
      simp only [Option.bind_some, if_neg (Nat.not_lt.mpr hfits), hread]
  | @copy token low high more literals more' rest copy out copied result hcount hinside hlength
      hcopied hrest ih =>
      have hsize := hcopied.size
      have hgrow := hrest.size_le
      rw [size_append_literals] at hsize
      have hmade := (copies_iff hinside.1 (by rw [size_append_literals]; exact hinside.2)).mp
        hcopied
      have hroom : ¬ capacity < out.size + literals.length := by omega
      have hgood : ¬ (distanceOf low high = 0 ∨
          out.size + literals.length < distanceOf low high) := by omega
      have hcopyRoom : ¬ capacity < out.size + literals.length + (copy + minCopy) := by omega
      rw [expandInto_cons, hcount.read (token_halves token).1]
      simp only [Option.bind_some, if_neg hroom, readLiterals_append, size_append_literals]
      rw [← distanceOf, if_neg hgood, hlength.read (token_halves token).2]
      simp only [Option.bind_some, if_neg hcopyRoom, hmade]
      exact ih hfits

/-- What the reader finds behind a token: literals that end the form, or a factor with room for its
copy, behind which reading goes on. -/
theorem expandInto_cons_cases {capacity : Nat} {token : UInt8} {src : Bytes}
    {out result : Array UInt8} (h : expandInto capacity (token :: src) out = some result) :
    ∃ more literals : Bytes, Numeral (token.toNat / 16) more literals.length ∧
      out.size + literals.length ≤ capacity ∧
      (src = more ++ literals ∧ result = out ++ literals ∨
        ∃ (low high : UInt8) (more' rest : Bytes) (copy : Nat),
          src = more ++ (literals ++ low :: high :: (more' ++ rest)) ∧
          (1 ≤ distanceOf low high ∧ distanceOf low high ≤ out.size + literals.length) ∧
          Numeral (token.toNat % 16) more' copy ∧
          out.size + literals.length + (copy + minCopy) ≤ capacity ∧
          expandInto capacity rest
            (copyBack (distanceOf low high) (copy + minCopy) (out ++ literals)) = some result) := by
  rw [expandInto_cons] at h
  obtain ⟨⟨count, behind⟩, hnumber, hbehind⟩ := Option.bind_eq_some_iff.mp h
  obtain ⟨more, hcount, rfl⟩ := (readNumber_eq_some_iff (token_halves token).1).mp hnumber
  dsimp only at hbehind
  split at hbehind
  · cases hbehind
  · rename_i hfits
    obtain ⟨⟨after, filled⟩, hliterals, hafter⟩ := Option.bind_eq_some_iff.mp hbehind
    obtain ⟨literals, rfl, rfl, rfl⟩ := readLiterals_eq_some_iff.mp hliterals
    refine ⟨more, literals, hcount, Nat.le_of_not_lt hfits, ?_⟩
    rcases after with _ | ⟨low, _ | ⟨high, after⟩⟩
    · cases hafter
      exact Or.inl ⟨by rw [List.append_nil], rfl⟩
    · cases hafter
    · dsimp only at hafter
      rw [← distanceOf, size_append_literals] at hafter
      split at hafter
      · cases hafter
      · rename_i hinside
        obtain ⟨⟨copy, rest⟩, hlater, hrest⟩ := Option.bind_eq_some_iff.mp hafter
        obtain ⟨more', hlength, rfl⟩ := (readNumber_eq_some_iff (token_halves token).2).mp hlater
        dsimp only at hrest
        split at hrest
        · cases hrest
        · rename_i hroom
          exact Or.inr ⟨low, high, more', rest, copy, rfl, by omega, hlength,
            Nat.le_of_not_lt hroom, hrest⟩

/-- What is read is a form of the grammar, and fits. -/
theorem expands_of_expandInto {capacity : Nat} {src : Bytes} {out result : Array UInt8}
    (hroom : out.size ≤ capacity) (h : expandInto capacity src out = some result) :
    Expands src out result ∧ result.size ≤ capacity := by
  -- reading goes on behind each factor, with fewer octets left
  induction hn : src.length using Nat.strongRecOn generalizing src out with
  | ind n ih =>
      subst hn
      cases src with
      | nil =>
          rw [expandInto, Option.some.injEq] at h
          subst h
          exact ⟨.finished out, hroom⟩
      | cons token src =>
          obtain ⟨more, literals, hcount, hfits, ⟨rfl, rfl⟩ |
            ⟨low, high, more', rest, copy, rfl, hinside, hlength, hcopyFits, hrest⟩⟩ :=
            expandInto_cons_cases h
          · refine ⟨.literals hcount, ?_⟩
            rw [size_append_literals]
            exact hfits
          · have hfilled := size_append_literals out literals
            have hcopied := copies_copyBack hinside.1 (copy + minCopy)
              (Nat.le_trans hinside.2 (Nat.le_of_eq hfilled.symm))
            obtain ⟨hexpands, hlast⟩ := ih rest.length
              (by simp only [List.length_cons, List.length_append]; omega)
              (by rw [size_copyBack]; omega) hrest rfl
            exact ⟨.copy hcount hinside hlength hcopied hexpands, hlast⟩

/-- What the reader accepts, and with what output. -/
theorem expandInto_eq_some_iff {capacity : Nat} {src : Bytes} {out result : Array UInt8}
    (hroom : out.size ≤ capacity) :
    expandInto capacity src out = some result ↔
      Expands src out result ∧ result.size ≤ capacity :=
  ⟨expands_of_expandInto hroom, fun h => expandInto_of_expands h.1 h.2⟩

/-- A form stands for one output only. -/
theorem Expands.unique {src : Bytes} {out result result' : Array UInt8}
    (h : Expands src out result) (h' : Expands src out result') : result = result' := by
  have hread := expandInto_of_expands h (Nat.le_max_left result.size result'.size)
  have hread' := expandInto_of_expands h' (Nat.le_max_right result.size result'.size)
  exact Option.some.inj (hread.symm.trans hread')

end WrittenForms

end Block
end GameLink
