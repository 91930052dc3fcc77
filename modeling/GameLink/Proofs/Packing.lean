import GameLink.Packing
import GameLink.Proofs.Block.Capacity

/-!
# Packed payloads are unpacked

A payload is packed exactly if it is above the threshold and its compressed form is shorter.  The
sender does not look at the limit of unpacking.

**Results.**
* `pack_eq`: the three outcomes of packing, with what is counted.
* `unpack_pack`: unpacking undoes packing, except that a compressed payload above the
  limit of unpacking is refused.
* `gate_and_inverse`: flag, payload, inverse and counters together.
-/

namespace GameLink
namespace Packing

/-- The outcomes of packing. -/
theorem pack_eq (threshold : Nat) (data : Bytes) :
    pack threshold data =
      if threshold < data.length then
        if (Block.factorsOf data).encode.length < data.length then
          (⟨(Block.factorsOf data).encode, true⟩, [.packingAttempt, .packingSuccess])
        else
          (⟨data, false⟩, [.packingAttempt])
      else
        (⟨data, false⟩, []) := by
  rw [pack]
  by_cases hlong : threshold < data.length
  · rw [if_neg (Nat.not_le.mpr hlong), if_pos hlong, Block.compress_eq]
    by_cases hshorter : (Block.factorsOf data).encode.length < data.length
    · rw [if_pos hshorter, if_pos hshorter]
    · rw [if_neg hshorter, if_neg hshorter]
  · rw [if_pos (Nat.le_of_not_lt hlong), if_neg hlong]

/-- Unpacking a packed payload gives it back unless it was compressed and is too long. -/
theorem unpack_pack (threshold : Nat) (data : Bytes) :
    unpack (pack threshold data).1 =
      if (pack threshold data).1.compressed ∧ unpackLimit < data.length then
        .error .decompression
      else
        .ok data := by
  unfold pack
  by_cases hshort : data.length ≤ threshold
  · simp [hshort, unpack]
  · rw [if_neg hshort]
    cases hpacked : Block.compress data with
    | none => simp [unpack]
    | some packed => simp [unpack, Block.decompress_of_compress hpacked]

/-- A payload is flagged if it is above the threshold and gets shorter, and only then. -/
theorem compressed_iff (threshold : Nat) (data : Bytes) :
    (pack threshold data).1.compressed = true ↔
      threshold < data.length ∧ (Block.factorsOf data).encode.length < data.length := by
  rw [pack_eq]
  split
  · rename_i hlong
    split
    · rename_i hshorter
      exact ⟨fun _ => ⟨hlong, hshorter⟩, fun _ => rfl⟩
    · rename_i hlonger
      exact ⟨nofun, fun h => absurd h.2 hlonger⟩
  · rename_i hshort
    exact ⟨nofun, fun h => absurd h.1 hshort⟩

/-- What a flagged payload is, and what one without the flag is. -/
theorem bytes_pack (threshold : Nat) (data : Bytes) :
    (pack threshold data).1.bytes =
      if (pack threshold data).1.compressed then (Block.factorsOf data).encode else data := by
  rw [pack_eq]
  split
  · split
    · rfl
    · rfl
  · rfl

/-- What packing counts: an attempt above the threshold, a success with the flag. -/
theorem recordAll_pack (threshold : Nat) (data : Bytes) (m : Metrics) :
    m.recordAll (pack threshold data).2 =
      { m with
        packingAttempts := m.packingAttempts + if threshold < data.length then 1 else 0
        packingSuccesses :=
          m.packingSuccesses + if (pack threshold data).1.compressed then 1 else 0 } := by
  rw [pack_eq]
  split
  · split
    · rfl
    · simp [Metrics.recordAll, Metrics.record]
  · simp [Metrics.recordAll]

/-- **The gate and its inverse**, for every payload and threshold: what the flag says, what is sent,
what comes back, and what is counted. -/
theorem gate_and_inverse (threshold : Nat) (data : Bytes) (m : Metrics) :
    let packed := (pack threshold data).1
    (packed.compressed = true ↔
      threshold < data.length ∧ (Block.factorsOf data).encode.length < data.length) ∧
    (packed.compressed = true →
      packed.bytes.length < data.length ∧ threshold < data.length) ∧
    (packed.compressed = false → packed.bytes = data) ∧
    (unpack packed = .error .decompression ↔
      packed.compressed = true ∧ 65536 < data.length) ∧
    (¬ (packed.compressed = true ∧ 65536 < data.length) → unpack packed = .ok data) ∧
    m.recordAll (pack threshold data).2 =
      { m with
        packingAttempts := m.packingAttempts + if threshold < data.length then 1 else 0
        packingSuccesses := m.packingSuccesses + if packed.compressed then 1 else 0 } := by
  intro packed
  have hflag : packed.compressed = true ↔ _ := compressed_iff threshold data
  have hbytes : packed.bytes = _ := bytes_pack threshold data
  have hback : unpack packed =
      if packed.compressed = true ∧ 65536 < data.length then .error .decompression
      else .ok data := unpack_pack threshold data
  refine ⟨hflag, fun hset => ?_, fun hclear => ?_, ?_, fun hnot => ?_,
    recordAll_pack threshold data m⟩
  · obtain ⟨hlong, hshorter⟩ := hflag.mp hset
    rw [hbytes, if_pos hset]
    exact ⟨hshorter, hlong⟩
  · rw [hbytes, if_neg (Bool.eq_false_iff.mp hclear)]
  · rw [hback]
    split
    · rename_i hrefused
      exact ⟨fun _ => hrefused, fun _ => rfl⟩
    · rename_i hkept
      exact ⟨nofun, fun h => absurd h hkept⟩
  · rw [hback, if_neg hnot]

/-- Zeros get shorter from six octets on. -/
theorem length_encode_zeros {n : Nat} (h : 5 < n) :
    (Block.factorsOf (List.replicate n 0)).encode.length < n := by
  have hliteral : (Block.overflow 1).length = 0 := by decide
  have hnone : (Block.overflow 0).length = 0 := by decide
  have hcopy := Block.length_overflow (n - 1 - 4)
  rw [Block.factorsOf_zeros h, Block.Factors.encode, List.length_append, List.flatMap_cons,
    List.flatMap_nil, List.append_nil, Block.Factor.length_encode, Block.length_encodeTail]
  simp only [List.length_singleton, List.length_nil, hliteral, hnone, Block.minCopy]
  split at hcopy <;> omega

/-- Zeros above the limit of unpacking are packed all the same: the last length that comes back, and
the first that does not. -/
theorem zeros_at_limit :
    (pack 65535 (List.replicate 65536 0)).1.compressed = true ∧
      unpack (pack 65535 (List.replicate 65536 0)).1 = .ok (List.replicate 65536 0) ∧
      (pack 65536 (List.replicate 65536 0)).1.compressed = false ∧
      (pack 65536 (List.replicate 65537 0)).1.compressed = true ∧
      unpack (pack 65536 (List.replicate 65537 0)).1 = .error .decompression := by
  have hlength (n : Nat) : (List.replicate n (0 : UInt8)).length = n := List.length_replicate
  obtain ⟨hflag, -, -, -, hkept, -⟩ := gate_and_inverse 65535 (List.replicate 65536 0) {}
  obtain ⟨hclear, -⟩ := gate_and_inverse 65536 (List.replicate 65536 0) {}
  obtain ⟨hset, -, -, hrefused, -, -⟩ := gate_and_inverse 65536 (List.replicate 65537 0) {}
  rw [hlength] at hflag hkept hclear hset hrefused
  have hlast := hflag.mpr ⟨by decide, length_encode_zeros (by decide)⟩
  have hfirst := hset.mpr ⟨by decide, length_encode_zeros (by decide)⟩
  refine ⟨hlast, hkept fun hlong => absurd hlong.2 (by decide), ?_, hfirst,
    hrefused.mpr ⟨hfirst, by decide⟩⟩
  exact Bool.eq_false_iff.mpr fun htrue => absurd (hclear.mp htrue).1 (by decide)

end Packing
end GameLink
