import GameLink.Block.Matching
import GameLink.Proofs.Block.WrittenForm
import Mathlib.Data.Nat.Bitwise

/-!
# The factors that the search finds

Whatever the table of buckets holds, a copy is only taken where the octets were
compared, so the factors found stand for the block they were found in.

**Results.**
* `agreementByWords_eq`: comparing words finds the same length as comparing octets.
* `copyBack_extract`: copying octets that were compared lengthens a beginning of the
  block to a longer one.
* `search_expands`: the factors found between two positions lengthen the beginning of
  the block up to the first to that up to the second.
* `factorsOf_expands`: the factors of a block stand for the block.
* `factorsOf_zeros`: a block of zeros is one copy that overlaps itself.
-/

namespace GameLink
namespace Block

/-- Octets found to agree do agree. -/
theorem octetAt_of_lt_agreement
    (src : Array UInt8) (i j n : Nat) :
    ∀ k, n + k < agreement src i j n → octetAt src (i + k) = octetAt src (j + k) := by
  fun_induction agreement src i j n with
  | case1 i j n hsame ih =>
      intro k hk
      cases k with
      | zero => exact hsame.2
      | succ k =>
          have hnext := ih k (by omega)
          rwa [Nat.add_assoc, Nat.add_assoc, Nat.add_comm 1 k] at hnext
  | case2 => omega

/-- Agreement ends with the block. -/
theorem add_agreement_le
    (src : Array UInt8) (i j n : Nat) (hj : j ≤ src.size) :
    j + agreement src i j n ≤ src.size + n := by
  fun_induction agreement src i j n with
  | case1 i j n hsame ih =>
      have hnext := ih hsame.1
      omega
  | case2 => omega

/-- An octet above the bits of a number is added to it. -/
theorem or_shiftLeft_octet
    {low k : Nat} (octet : UInt8) (h : low < 1 <<< k) :
    low ||| octet.toNat <<< k = low + octet.toNat * 1 <<< k := by
  rw [Nat.one_shiftLeft] at h ⊢
  rw [Nat.or_comm, ← Nat.shiftLeft_add_eq_or_of_lt h, Nat.shiftLeft_eq, Nat.add_comm]

theorem toNat_wordAt (src : Array UInt8) (i : Nat) :
    (wordAt src i).toNat =
      (octetAt src i).toNat + (octetAt src (i + 1)).toNat * 256
        + (octetAt src (i + 2)).toNat * 65536 + (octetAt src (i + 3)).toNat * 16777216 := by
  simp only [wordAt]
  generalize octetAt src i = a
  generalize octetAt src (i + 1) = b
  generalize octetAt src (i + 2) = c
  generalize octetAt src (i + 3) = d
  have ha := a.toNat_lt
  have hb := b.toNat_lt
  have hc := c.toNat_lt
  have hd := d.toNat_lt
  have h8 : b.toNat <<< 8 % 4294967296 = b.toNat <<< 8 := by
    rw [Nat.shiftLeft_eq]
    omega
  have h16 : c.toNat <<< 16 % 4294967296 = c.toNat <<< 16 := by
    rw [Nat.shiftLeft_eq]
    omega
  have h24 : d.toNat <<< 24 % 4294967296 = d.toNat <<< 24 := by
    rw [Nat.shiftLeft_eq]
    omega
  calc
    _ = a.toNat ||| b.toNat <<< 8 % 4294967296 ||| c.toNat <<< 16 % 4294967296
          ||| d.toNat <<< 24 % 4294967296 := rfl
    _ = a.toNat ||| b.toNat <<< 8 ||| c.toNat <<< 16 ||| d.toNat <<< 24 := by
      rw [h8, h16, h24]
    _ = a.toNat + b.toNat * 256 + c.toNat * 65536 + d.toNat * 16777216 := by
      have h1 : (1 <<< 8 : Nat) = 256 := rfl
      have h2 : (1 <<< 16 : Nat) = 65536 := rfl
      have h3 : (1 <<< 24 : Nat) = 16777216 := rfl
      rw [or_shiftLeft_octet b (by omega), or_shiftLeft_octet c (by omega),
        or_shiftLeft_octet d (by omega), h1, h2, h3]

theorem octetAt_of_wordAt_eq
    {src : Array UInt8} {i j : Nat} (h : wordAt src i = wordAt src j) :
    ∀ k < minCopy, octetAt src (i + k) = octetAt src (j + k) := by
  have hnum := congrArg UInt32.toNat h
  rw [toNat_wordAt, toNat_wordAt] at hnum
  intro k hk
  apply UInt8.toNat_inj.mp
  have bound := fun n => (octetAt src n).toNat_lt
  have hi0 := bound i
  have hi1 := bound (i + 1)
  have hi2 := bound (i + 2)
  have hi3 := bound (i + 3)
  have hj0 := bound j
  have hj1 := bound (j + 1)
  have hj2 := bound (j + 2)
  have hj3 := bound (j + 3)
  have hcases : k = 0 ∨ k = 1 ∨ k = 2 ∨ k = 3 := by
    simp only [minCopy] at hk
    omega
  rcases hcases with rfl | rfl | rfl | rfl
  · simp only [Nat.add_zero]
    omega
  · omega
  · omega
  · omega

theorem agreement_succ
    {src : Array UInt8} {i j : Nat} (hj : j < src.size)
    (hsame : octetAt src i = octetAt src j) (n : Nat) :
    agreement src i j n = agreement src (i + 1) (j + 1) (n + 1) := by
  rw [agreement, if_pos ⟨hj, hsame⟩]

/-- Equal words are four equal octets. -/
theorem agreement_of_wordAt_eq
    {src : Array UInt8} {i j : Nat} (hj : j + minCopy < src.size)
    (hword : wordAt src i = wordAt src j) (n : Nat) :
    agreement src i j n = agreement src (i + minCopy) (j + minCopy) (n + minCopy) := by
  simp only [minCopy] at hj
  have hsame := octetAt_of_wordAt_eq hword
  calc
    agreement src i j n = agreement src (i + 1) (j + 1) (n + 1) :=
      agreement_succ (by omega) (hsame 0 (by decide)) n
    _ = agreement src (i + 2) (j + 2) (n + 2) :=
      agreement_succ (by omega) (hsame 1 (by decide)) (n + 1)
    _ = agreement src (i + 3) (j + 3) (n + 3) :=
      agreement_succ (by omega) (hsame 2 (by decide)) (n + 2)
    _ = agreement src (i + 4) (j + 4) (n + 4) :=
      agreement_succ (by omega) (hsame 3 (by decide)) (n + 3)

/-- Comparing four octets at a time finds the same distance. -/
theorem agreementByWords_eq (src : Array UInt8) (i j n : Nat) :
    agreementByWords src i j n = agreement src i j n := by
  fun_induction agreementByWords src i j n with
  | case1 i j n hwords ih =>
      rw [ih, ← agreement_of_wordAt_eq hwords.1 hwords.2.symm]
  | case2 => rfl

theorem push_extract
    {src : Array UInt8} {i : Nat} (hi : i < src.size) :
    (src.extract 0 i).push (octetAt src i) = src.extract 0 (i + 1) := by
  have hoctet : octetAt src i = src[i] := by simp [octetAt, hi]
  rw [hoctet, Array.push_extract_getElem hi, Nat.zero_min]

theorem getD_extract
    {src : Array UInt8} {i j : Nat} (hj : j < i) (hi : i ≤ src.size) :
    (src.extract 0 i).getD j 0 = octetAt src j := by
  have hsrc : j < src.size := by omega
  have hmin : j < min i src.size := by omega
  simp [octetAt, Array.getD, hsrc, hmin]

theorem extract_append_literals
    {src : Array UInt8} {anchor i : Nat} (h : anchor ≤ i) :
    src.extract 0 anchor ++ (src.extract anchor i).toList = src.extract 0 i := by
  apply Array.toList_inj.mp
  rw [Array.toList_appendList, ← Array.toList_append, Array.extract_append_extract,
    Nat.zero_min, Nat.max_eq_right h]

/-- Copying octets that were compared lengthens a beginning of the block. -/
theorem copyBack_extract
    {src : Array UInt8} {distance : Nat} (hpos : 0 < distance) (n : Nat) :
    ∀ {i : Nat}, distance ≤ i → i + n ≤ src.size →
      (∀ k < n, octetAt src (i - distance + k) = octetAt src (i + k)) →
      copyBack distance n (src.extract 0 i) = src.extract 0 (i + n) := by
  induction n with
  | zero =>
      intro i _ _ _
      rfl
  | succ n ih =>
      intro i hback hfit hagree
      have hsize : (src.extract 0 i).size = i := by
        rw [Array.size_extract]
        omega
      have hfirst : octetAt src (i - distance) = octetAt src i := hagree 0 (by omega)
      rw [copyBack, hsize, getD_extract (by omega) (by omega), hfirst,
        push_extract (by omega), ih (by omega) (by omega), Nat.add_right_comm, Nat.add_assoc]
      intro k hk
      have hnext := hagree (k + 1) (by omega)
      rwa [show i + 1 - distance + k = i - distance + (k + 1) by omega,
        show i + 1 + k = i + (k + 1) by omega]

/-- What a copy taken by the search has to do with the block. -/
theorem copy_expands
    {src : Array UInt8} {candidate i : Nat} (hback : candidate < i)
    (hword : wordAt src candidate = wordAt src i) (hfour : i + minCopy ≤ src.size) :
    let length := agreementByWords src (candidate + minCopy) (i + minCopy) minCopy
    i + length ≤ src.size ∧
      copyBack (i - candidate) length (src.extract 0 i) = src.extract 0 (i + length) := by
  rw [agreementByWords_eq]
  intro length
  have hend : i + length ≤ src.size := by
    have hle := add_agreement_le src (candidate + minCopy) (i + minCopy) minCopy hfour
    omega
  refine ⟨hend, copyBack_extract (by omega) length (by omega) hend ?_⟩
  intro k hk
  have hstart : i - (i - candidate) = candidate := by omega
  rw [hstart]
  by_cases hnear : k < minCopy
  · exact octetAt_of_wordAt_eq hword k hnear
  · have hfar := octetAt_of_lt_agreement src (candidate + minCopy) (i + minCopy) minCopy
      (k - minCopy) (by omega)
    rwa [Nat.add_assoc, Nat.add_assoc, Nat.add_sub_cancel' (Nat.not_lt.mp hnear)] at hfar

/-- The factors found from a position on lengthen the beginning of the block. -/
theorem search_expands
    (src : Array UInt8) (table : Array UInt32) (found : Array Factor) (anchor i : Nat)
    (hanchor : anchor ≤ i) (hi : i ≤ src.size) :
    ∃ factors : List Factor,
      (search src table found anchor i).1.toList = found.toList ++ factors ∧
      (∀ f ∈ factors, f.Writable) ∧
      factors.foldlM Factor.apply? (src.extract 0 anchor) =
        some (src.extract 0 (search src table found anchor i).2) ∧
      (search src table found anchor i).2 ≤ src.size := by
  fun_induction search src table found anchor i with
  | case1 table found anchor i hroom word candidate table' hcopy length factor ih =>
      obtain ⟨hback, hreach, hword⟩ := hcopy
      obtain ⟨hend, hcopied⟩ := copy_expands hback hword (Nat.le_of_lt hroom)
      obtain ⟨factors, hfound, hwritable, hexpand, hlast⟩ := ih (Nat.le_refl _) hend
      refine ⟨factor :: factors, ?_, ?_, ?_, hlast⟩
      · rw [hfound]
        simp
      · rintro f (_ | ⟨_, hf⟩)
        · exact ⟨le_agreementByWords src _ _ _, Nat.lt_trans hreach (by decide)⟩
        · exact hwritable f hf
      · have happly : factor.apply? (src.extract 0 anchor) = some (src.extract 0 (i + length)) := by
          have hsize : (src.extract 0 anchor).size + factor.literals.length = i := by
            rw [← size_append_literals, extract_append_literals hanchor, Array.size_extract]
            omega
          refine Factor.apply_eq_some_iff.mpr ⟨Nat.sub_pos_of_lt hback, ?_, ?_⟩
          · rw [hsize]
            exact Nat.sub_le i candidate
          · rw [extract_append_literals hanchor]
            exact hcopied
        rw [List.foldlM_cons, happly]
        exact hexpand
  | case2 table found anchor i hroom word candidate table' hcopy ih =>
      exact ih (by omega) (by simp only [minCopy] at hroom; omega)
  | case3 table found anchor i hroom =>
      exact ⟨[], by simp, by simp, by simp, by omega⟩

/-- The factors of a block can be written and stand for the block. -/
theorem factorsOf_expands (src : Bytes) :
    (∀ f ∈ (factorsOf src).factors, f.Writable) ∧
      ∃ out : Array UInt8,
        (factorsOf src).factors.foldlM Factor.apply? #[] = some out ∧
          (out ++ (factorsOf src).tail).toList = src := by
  obtain ⟨factors, hfound, hwritable, hexpand, hlast⟩ :=
    search_expands src.toArray (Array.replicate bucketCount 0) #[] 0 0
      (Nat.le_refl 0) (Nat.zero_le _)
  have hfactors : (factorsOf src).factors = factors := by
    simpa [factorsOf] using hfound
  rw [Array.extract_zero] at hexpand
  rw [hfactors]
  refine ⟨hwritable, _, hexpand, ?_⟩
  have htail : (factorsOf src).tail =
      (src.toArray.extract
        (search src.toArray (Array.replicate bucketCount 0) #[] 0 0).2
        src.toArray.size).toList := rfl
  rw [htail, extract_append_literals hlast, Array.extract_size]

theorem octetAt_zeros (n i : Nat) :
    octetAt (Array.replicate n 0) i = 0 := by
  by_cases hi : i < n
  · simp [octetAt, Array.getD, hi]
  · simp [octetAt, Array.getD, hi]

theorem wordAt_zeros (n i : Nat) :
    wordAt (Array.replicate n 0) i = 0 := by
  simp only [wordAt, octetAt_zeros]
  rfl

theorem agreement_zeros (n i j k : Nat) :
    agreement (Array.replicate n 0) i j k = k + (n - j) := by
  fun_induction agreement (Array.replicate n 0) i j k with
  | case1 i j k hsame ih =>
      have hj : j < n := by simpa using hsame.1
      omega
  | case2 i j k hdiffer =>
      have hj : ¬ j < n := by simpa [octetAt_zeros] using hdiffer
      omega

theorem search_zeros {n : Nat} (h : 5 < n) :
    search (Array.replicate n 0) (Array.replicate bucketCount 0) #[] 0 0 =
      (#[⟨[0], 1, n - 1⟩], n) := by
  have hroom (i : Nat) (hi : i + 4 < n) : i + minCopy < (Array.replicate n (0 : UInt8)).size := by
    rwa [Array.size_replicate]
  have hbucket : bucket 0 = 0 := rfl
  have hlooked :
      (((Array.replicate bucketCount (0 : UInt32)).setIfInBounds 0
        (UInt32.ofNat 0)).getD 0 0).toNat = 0 := by
    simp [bucketCount, Array.getD]
  have hlength :
      agreementByWords (Array.replicate n 0) (0 + minCopy) (1 + minCopy) minCopy = n - 1 := by
    rw [agreementByWords_eq, agreement_zeros]
    simp only [minCopy]
    omega
  have hliteral : ((Array.replicate n (0 : UInt8)).extract 0 1).toList = [0] := by
    rw [Array.extract_replicate, Array.toList_replicate, show min 1 n - 0 = 1 by omega]
    rfl
  have hend : 1 + (n - 1) = n := by omega
  -- Nothing is before the first octet; at the second, the first is found.
  rw [search, if_pos (hroom 0 (by omega))]
  simp only [wordAt_zeros, hbucket]
  rw [if_neg (fun hcopy => Nat.not_lt_zero _ hcopy.1), search, if_pos (hroom 1 (by omega))]
  simp only [wordAt_zeros, hbucket, hlooked]
  rw [if_pos ⟨by decide, by decide, trivial⟩, hlength, hliteral, hend, search,
    if_neg (by simp [minCopy])]
  rfl

/-- A block of zeros is one zero and a copy that overlaps itself. -/
theorem factorsOf_zeros {n : Nat} (h : 5 < n) :
    factorsOf (List.replicate n 0) = ⟨[⟨[0], 1, n - 1⟩], []⟩ := by
  simp only [factorsOf, List.toArray_replicate, search_zeros h, Array.size_replicate,
    Array.extract_replicate, Array.toList_replicate, Nat.min_self, Nat.sub_self,
    List.replicate_zero]

end Block
end GameLink
