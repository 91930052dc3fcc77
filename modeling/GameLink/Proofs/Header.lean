import GameLink.Header

/-!
# The secure header read back

**Results.**
* `ofBytes_toBytes`: the octets of a header are read back as the header, whatever follows
  them.
-/

namespace GameLink

namespace HeaderFlags

theorem ofByte_toByte (f : HeaderFlags) : ofByte f.toByte = .ok f := by
  have hall : ∀ a b c d e f g : Bool,
      toByte ⟨a, b, c, d, e, f, g⟩ < 128 ∧
        ofByteTruncated (toByte ⟨a, b, c, d, e, f, g⟩) = ⟨a, b, c, d, e, f, g⟩ := by
    decide
  obtain ⟨hsmall, hback⟩ :=
    hall f.encrypted f.chaCha20Poly1305 f.rekey f.fragment f.compressed f.acknowledgment
      f.reliableHandshake
  rw [ofByte, if_pos hsmall]
  exact congrArg Except.ok hback

end HeaderFlags

namespace Header

/-- The octets of a header are read back as the header. -/
theorem ofBytes_toBytes (h : Header) (rest : Bytes) : ofBytes (h.toBytes ++ rest) = .ok h := by
  have hlong : ¬ (h.toBytes ++ rest).length < size := by
    rw [List.length_append, length_toBytes]
    omega
  have hbytes : h.toBytes ++ rest =
      Bytes.ofNat 4 h.connectionId.toNat ++
        ([h.channel.toByte, h.flags.toByte] ++ (Bytes.ofNat 8 h.sequence.toNat ++ rest)) := by
    simp only [toBytes, List.append_assoc]
  have hid : (h.toBytes ++ rest).take 4 = Bytes.ofNat 4 h.connectionId.toNat := by
    rw [hbytes]
    exact List.take_left' (Bytes.length_ofNat ..)
  have hsequence : ((h.toBytes ++ rest).drop 6).take 8 = Bytes.ofNat 8 h.sequence.toNat := by
    rw [hbytes, ← List.append_assoc, List.drop_left' (by simp)]
    exact List.take_left' (Bytes.length_ofNat ..)
  have hchannel : (h.toBytes ++ rest).getD 4 0 = h.channel.toByte := by
    rw [hbytes, List.getD_eq_getElem?_getD, List.getElem?_append_right (by simp)]
    simp
  have hflags : (h.toBytes ++ rest).getD 5 0 = h.flags.toByte := by
    rw [hbytes, List.getD_eq_getElem?_getD, List.getElem?_append_right (by simp)]
    simp
  have hpow : Nat.pow 256 4 = 4294967296 ∧ Nat.pow 256 8 = 18446744073709551616 := ⟨rfl, rfl⟩
  rw [ofBytes, if_neg hlong, hid, hsequence, hchannel, hflags, Channel.ofByte_toByte,
    HeaderFlags.ofByte_toByte, Bytes.toNat_ofNat, Bytes.toNat_ofNat, hpow.1, hpow.2,
    Nat.mod_eq_of_lt h.connectionId.toNat_lt, Nat.mod_eq_of_lt h.sequence.toNat_lt,
    UInt32.ofNat_toNat, UInt64.ofNat_toNat]
  rfl

end Header
end GameLink
