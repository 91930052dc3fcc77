import GameLink.Buffer.Operation
import GameLink.Proofs.Checksum.Bursts

/-!
# Signatures that verify and that do not

What verifying does depends on the contents alone, wherever the cursor stands.

**Results.**
* `verify_of_signed`, `verify_of_unsigned`: the two outcomes.
* `contents_sign`: a buffer with room for it gets its checksum.
* `signatures_catch_bursts`: a signed buffer verifies, one that a burst has altered does not.
-/

namespace GameLink
namespace Buffer

variable {b : Buffer} {body : Bytes}

theorem length_contents (h : b.length ≤ b.capacity) : b.contents.length = b.length := by
  rw [contents, List.length_take]
  exact Nat.min_eq_left h

/-- The contents in front of a mark that is set back. -/
theorem contents_shorter {n : Nat} (h : n ≤ b.length) (position : Nat) :
    ({ b with length := n, position := position } : Buffer).contents = b.contents.take n := by
  simp only [contents, List.take_take, Nat.min_eq_left h]

/-- A signed string has room for its signature, and the signature is the checksum of the rest. -/
theorem signature_of_signed (hroom : b.length ≤ b.capacity)
    (hsigned : signedBody? b.contents = some body) :
    signatureSize ≤ b.length ∧ b.signature = Checksum.crc32c body ∧ b.signedPart = body := by
  have hlength := length_contents hroom
  simp only [signedBody?, Option.ite_none_right_eq_some, Option.some.injEq, hlength] at hsigned
  obtain ⟨⟨hsize, hsignature⟩, hbody⟩ := hsigned
  refine ⟨hsize, ?_, hbody⟩
  rw [signature, if_neg (Nat.not_lt.mpr hsize), hsignature, hbody]

/-- Verifying takes the signature off and leaves the body. -/
theorem verify_of_signed (hroom : b.length ≤ b.capacity)
    (hsigned : signedBody? b.contents = some body) :
    ∃ rest, b.verify = .ok rest ∧ rest.contents = body ∧ rest.length = body.length := by
  obtain ⟨hsize, hsignature, hpart⟩ := signature_of_signed hroom hsigned
  have hshorter : b.length - signatureSize ≤ b.length := Nat.sub_le _ _
  have hbody := contents_shorter hshorter (min b.position (b.length - signatureSize))
  refine ⟨_, ?_, hbody.trans hpart, ?_⟩
  · rw [verify, if_neg (Nat.not_lt.mpr hsize), if_neg (not_not.mpr (by rw [hsignature, hpart]))]
  · rw [← hpart, signedPart, List.length_take, length_contents hroom]
    exact (Nat.min_eq_left hshorter).symm

/-- A string of four octets or more that is not signed does not verify. -/
theorem verify_of_unsigned (hroom : b.length ≤ b.capacity) (hsize : signatureSize ≤ b.length)
    (hunsigned : signedBody? b.contents = none) :
    b.signature ≠ Checksum.crc32c b.signedPart ∧
      b.verify = .error (.checksumMismatch b.signature (Checksum.crc32c b.signedPart)) := by
  have hdiffer : b.signature ≠ Checksum.crc32c b.signedPart := by
    intro hsame
    rw [signature, if_neg (Nat.not_lt.mpr hsize)] at hsame
    simp only [signedBody?, length_contents hroom] at hunsigned
    rw [if_pos ⟨hsize, hsame⟩] at hunsigned
    cases hunsigned
  exact ⟨hdiffer, by rw [verify, if_neg (Nat.not_lt.mpr hsize), if_pos hdiffer]⟩

/-- A buffer with room for it gets the checksum of its contents behind them. -/
theorem contents_sign (h : b.length + signatureSize ≤ b.capacity) :
    b.sign.length = b.length + signatureSize ∧ b.sign.capacity = b.capacity ∧
      b.sign.contents = b.contents ++ Bytes.ofNat 4 (Checksum.crc32c b.contents).toNat := by
  generalize hchecksum : Bytes.ofNat 4 (Checksum.crc32c b.contents).toNat = checksum
  have hwidth : checksum.length = signatureSize := by
    rw [← hchecksum]
    exact Bytes.length_ofNat ..
  have hfits : ({ b with position := b.length } : Buffer).fits checksum.length = true := by
    rw [fits_iff, hwidth]
    exact h
  have hsign : b.sign = ({ b with position := b.length } : Buffer).write checksum := by
    rw [← hchecksum]
    rfl
  have hlength : b.sign.length = b.length + signatureSize := by
    rw [hsign, length_write hfits, hwidth]
    exact Nat.max_eq_right (Nat.le_add_right _ _)
  refine ⟨hlength, by rw [hsign, capacity_write]; rfl, ?_⟩
  have hinside := length_contents (Nat.le_trans (Nat.le_add_right _ _) h)
  rw [contents, hlength, hsign, storage_write hfits, List.take_left']
  · rfl
  · rw [List.length_append, hwidth]
    exact congrArg (· + signatureSize) hinside

/-- A buffer with room for a signature is restored by signing and verifying it. -/
theorem verify_sign (h : b.length + signatureSize ≤ b.capacity) :
    ∃ rest, b.sign.verify = .ok rest ∧ rest.contents = b.contents ∧ rest.length = b.length := by
  obtain ⟨hlength, hcapacity, hcontents⟩ := contents_sign h
  have hroom : b.sign.length ≤ b.sign.capacity := by
    rw [hlength, hcapacity]
    exact h
  obtain ⟨rest, hverify, hbody, hlast⟩ :=
    verify_of_signed hroom (signedBody?_eq_some_iff.mpr hcontents)
  refine ⟨rest, hverify, hbody, ?_⟩
  rw [hlast]
  exact length_contents (Nat.le_trans (Nat.le_add_right _ _) h)

/-- A buffer whose contents are a signed string that a burst has altered does not verify. -/
theorem verify_alter {error : Bytes} (hroom : b.length ≤ b.capacity)
    (hburst : IsBurst error)
    (herror : error.length = (body ++ Bytes.ofNat 4 (Checksum.crc32c body).toNat).length)
    (hcontents :
      b.contents = alter (body ++ Bytes.ofNat 4 (Checksum.crc32c body).toNat) error) :
    ∃ expected computed, expected ≠ computed ∧
      b.verify = .error (.checksumMismatch expected computed) := by
  have hsize : signatureSize ≤ b.length := by
    have hsame := length_contents hroom
    rw [hcontents, alter, List.length_zipWith, herror, Nat.min_self, List.length_append,
      Bytes.length_ofNat] at hsame
    rw [← hsame]
    exact Nat.le_add_left _ _
  have hunsigned : signedBody? b.contents = none := by
    rw [hcontents]
    exact Checksum.signedBody?_alter herror (signedBody?_eq_some_iff.mpr rfl) hburst
  obtain ⟨hdiffer, hverify⟩ := verify_of_unsigned hroom hsize hunsigned
  exact ⟨_, _, hdiffer, hverify⟩

/-- A signature verifies and is taken off again, whatever the buffer holds and wherever its cursor
stands; no error within 32 consecutive bits of a signed string goes unnoticed. -/
theorem signatures_catch_bursts (b : Buffer) :
    (b.length + signatureSize ≤ b.capacity →
      ∃ rest, b.sign.verify = .ok rest ∧ rest.contents = b.contents ∧ rest.length = b.length) ∧
    ∀ body error : Bytes,
      b.length ≤ b.capacity → IsBurst error →
      error.length = (body ++ Bytes.ofNat 4 (Checksum.crc32c body).toNat).length →
      b.contents = alter (body ++ Bytes.ofNat 4 (Checksum.crc32c body).toNat) error →
      ∃ expected computed, expected ≠ computed ∧
        b.run .verify = .ok (.verified (some (.checksumMismatch expected computed)), b) := by
  refine ⟨verify_sign, fun body error hroom hburst herror hcontents => ?_⟩
  obtain ⟨expected, computed, hdiffer, hverify⟩ := verify_alter hroom hburst herror hcontents
  exact ⟨expected, computed, hdiffer, by rw [run, hverify]⟩

/-- An error across the border of one octet and its signature, in a larger buffer. -/
theorem burst_across_signature :
    let error : Bytes := [0x80, 0xFF, 0xFF, 0xFF, 0x7F]
    let altered := alter ([65] ++ Bytes.ofNat 4 (Checksum.crc32c [65]).toNat) error
    let b : Buffer := { (empty 16).load altered with position := 3 }
    (∃ rest, b.sign.verify = .ok rest ∧ rest.contents = b.contents ∧ rest.length = b.length) ∧
      ∃ expected computed, expected ≠ computed ∧
        b.run .verify = .ok (.verified (some (.checksumMismatch expected computed)), b) := by
  intro error altered b
  have hburst : IsBurst error := by
    refine ⟨⟨7, by decide⟩, 7, fun i hi => ?_⟩
    by_cases hlast : i / 8 < 5
    · have hinside : ∀ j < 40, error.bit j = true → 7 ≤ j ∧ j < 7 + 32 := by decide
      exact hinside i (by omega) hi
    · rw [Bytes.bit, List.getD_eq_getElem?_getD,
        List.getElem?_eq_none (Nat.le_of_not_lt hlast)] at hi
      simp at hi
  obtain ⟨hrestored, hcaught⟩ := signatures_catch_bursts b
  exact ⟨hrestored (by decide), hcaught [65] error (by decide) hburst (by decide) (by decide)⟩

end Buffer
end GameLink
