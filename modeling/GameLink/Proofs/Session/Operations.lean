import GameLink.Session.Basic
import GameLink.Proofs.Packing

/-!
# When session operations succeed

For each operation of a session: the condition under which it succeeds and what it then
gives.  Sealing moves the counters and opening moves the window; neither touches the
keys, the salt or the connection number.

**Results.**
* `nonce_inj`: sequence numbers of one connection have different nonces.
* `sealNext_eq_ok_iff`, `sealPacked_eq_ok_iff`, `sealAt_eq_ok_iff`, `sealFor_ok`: sealing.
* `openAt_eq_ok_iff`, `openPacked_eq_ok_iff`: opening.
-/

namespace GameLink
namespace Session

/-- Seals a message under the next number, with or without packing. -/
def sealFor (suite : Suite) (s : Session) (packs : Bool) (message associated : Bytes) :
    Except Failure (Packed × Session) :=
  if packs then
    (s.sealPacked suite message associated).map fun (packed, _, next) => (packed, next)
  else
    (s.sealNext suite message associated).map fun (sealed, next) => (⟨sealed, false⟩, next)

/-- Different sequence numbers of a connection have different nonces. -/
theorem nonce_inj
    {s t : Session} (hid : s.connectionId = t.connectionId) {m n : UInt64} :
    s.nonce m = t.nonce n ↔ m = n := by
  constructor
  · intro h
    have hbytes := congrArg Octets.bytes h
    simp only [nonce, hid] at hbytes
    have hnum := congrArg Bytes.toNat (List.append_cancel_left hbytes)
    rw [Bytes.toNat_ofNat, Bytes.toNat_ofNat] at hnum
    have hpow : Nat.pow 256 8 = 18446744073709551616 := rfl
    have hm := m.toNat_lt
    have hn := n.toNat_lt
    apply UInt64.toNat_inj.mp
    rw [hpow] at hnum
    omega
  · rintro rfl
    simp only [nonce, hid]

section Seals

variable {suite : Suite} {s s' : Session} {message associated sealed : Bytes}

theorem sealUnder_eq_ok_iff {seq : UInt64} :
    s.sealUnder suite seq message associated = .ok sealed ↔
      suite.seal? s.sendKey (s.nonce seq) associated message = some sealed := by
  simp only [sealUnder]
  split
  · rename_i result h
    rw [h]
    simp
  · rename_i h
    rw [h]
    simp

/-- Sealing under the next number succeeds unless the number is the last of all. -/
theorem sealNext_eq_ok_iff :
    s.sealNext suite message associated = .ok (sealed, s') ↔
      suite.seal? s.sendKey (s.nonce s.nextSend) associated message = some sealed ∧
        s.nextSend ≠ lastNumber ∧ s' = s.afterSealing (s.nextSend + 1) sealed := by
  rw [← sealUnder_eq_ok_iff]
  simp only [sealNext]
  cases s.sealUnder suite s.nextSend message associated with
  | error failure => simp [bind, Except.bind]
  | ok result =>
      by_cases hlast : s.nextSend = lastNumber
      · simp [bind, Except.bind, hlast]
      · simp only [bind, Except.bind, if_neg hlast]
        constructor
        · intro h
          cases h
          exact ⟨rfl, hlast, rfl⟩
        · rintro ⟨h, -, rfl⟩
          cases h
          rfl

theorem connectionId_of_sealNext
    (h : s.sealNext suite message associated = .ok (sealed, s')) :
    s'.connectionId = s.connectionId := by
  obtain ⟨-, -, rfl⟩ := sealNext_eq_ok_iff.mp h
  rfl

/-- Sealing under a given number succeeds whenever the cipher does. -/
theorem sealAt_eq_ok_iff {seq : UInt64} :
    s.sealAt suite message associated seq = .ok (sealed, s') ↔
      suite.seal? s.sendKey (s.nonce seq) associated message = some sealed ∧
        s' = s.afterSealing (max s.nextSend (successor seq)) sealed := by
  rw [← sealUnder_eq_ok_iff]
  simp only [sealAt]
  cases s.sealUnder suite seq message associated with
  | error failure => simp [bind, Except.bind]
  | ok result =>
      simp only [bind, Except.bind]
      constructor
      · intro h
        cases h
        exact ⟨rfl, rfl⟩
      · rintro ⟨h, rfl⟩
        cases h
        rfl

/-- Sealing and packing is sealing under the next number, then packing. -/
theorem sealPacked_eq_ok_iff {packed : Packed} {tallies : List Tally} :
    s.sealPacked suite message associated = .ok (packed, tallies, s') ↔
      ∃ sealed, s.sealNext suite message associated = .ok (sealed, s') ∧
        Packing.pack s'.packingThreshold sealed = (packed, tallies) := by
  simp only [sealPacked]
  cases s.sealNext suite message associated with
  | error failure => simp [bind, Except.bind]
  | ok result =>
      obtain ⟨sealed, next⟩ := result
      simp only [bind, Except.bind]
      constructor
      · intro h
        cases h
        exact ⟨sealed, rfl, rfl⟩
      · rintro ⟨other, h, hpack⟩
        cases h
        rw [hpack]

/-- What sealing under the next number gives, with or without packing. -/
theorem sealFor_ok
    {packs : Bool} {packed : Packed}
    (h : s.sealFor suite packs message associated = .ok (packed, s')) :
    ∃ sealed, s.sealNext suite message associated = .ok (sealed, s') ∧
      Packing.unpack packed =
        if packed.compressed ∧ Packing.unpackLimit < sealed.length then
          .error .decompression
        else
          .ok sealed := by
  simp only [sealFor] at h
  cases packs with
  | true =>
      cases hpacked : s.sealPacked suite message associated with
      | error failure =>
          rw [hpacked] at h
          cases h
      | ok result =>
          rw [hpacked] at h
          cases h
          obtain ⟨sealed, hsealed, hpack⟩ := sealPacked_eq_ok_iff.mp hpacked
          have hunpack := Packing.unpack_pack result.2.2.packingThreshold sealed
          rw [hpack] at hunpack
          exact ⟨sealed, hsealed, hunpack⟩
  | false =>
      cases hsealed : s.sealNext suite message associated with
      | error failure =>
          rw [hsealed] at h
          cases h
      | ok result =>
          rw [hsealed] at h
          cases h
          exact ⟨result.1, rfl, by simp [Packing.unpack]⟩

/-- Packing does not keep a sealed payload from being given. -/
theorem sealFor_of_sealNext
    (packs : Bool) (h : s.sealNext suite message associated = .ok (sealed, s')) :
    ∃ packed, s.sealFor suite packs message associated = .ok (packed, s') := by
  simp only [sealFor]
  cases packs with
  | true =>
      refine ⟨(Packing.pack s'.packingThreshold sealed).1, ?_⟩
      rw [if_pos rfl, sealPacked_eq_ok_iff.mpr ⟨sealed, h, rfl⟩]
      rfl
  | false =>
      refine ⟨⟨sealed, false⟩, ?_⟩
      rw [if_neg Bool.false_ne_true, h]
      rfl

theorem connectionId_of_asClient
    {now : Moment} {privateKey serverPublic salt : Bytes} {connectionId : UInt32}
    (h : asClient suite now privateKey serverPublic salt connectionId = .ok s) :
    s.connectionId = connectionId := by
  simp only [asClient] at h
  rcases hprivate : keyMaterial 32 privateKey with failure | ownKey
  · rw [hprivate] at h
    cases h
  rcases hpublic : keyMaterial 32 serverPublic with failure | peerKey
  · rw [hprivate, hpublic] at h
    cases h
  rcases hsalt : keyMaterial 16 salt with failure | saltKey
  · rw [hprivate, hpublic, hsalt] at h
    cases h
  rcases hsecret : sharedSecret suite ownKey peerKey with failure | secret
  · rw [hprivate, hpublic, hsalt] at h
    simp only [bind, Except.bind, hsecret] at h
    cases h
  · rw [hprivate, hpublic, hsalt] at h
    simp only [bind, Except.bind, hsecret] at h
    cases h
    rfl

/-- Opening succeeds for a fresh number with an authentic payload. -/
theorem openAt_eq_ok_iff {seq : UInt64} :
    s.openAt suite sealed associated seq = .ok (message, s') ↔
      s.received.isFresh seq = true ∧
        suite.open? s.receiveKey (s.nonce seq) associated sealed = some message ∧
        s' = { s with received := s.received.insert seq } := by
  simp only [openAt]
  by_cases hfresh : s.received.isFresh seq = true
  · rw [if_pos hfresh]
    cases suite.open? s.receiveKey (s.nonce seq) associated sealed with
    | none => simp
    | some result =>
        constructor
        · intro h
          cases h
          exact ⟨hfresh, rfl, rfl⟩
        · rintro ⟨-, h, rfl⟩
          cases h
          rfl
  · simp [hfresh]

theorem openPacked_eq_ok_iff {payload : Packed} {seq : UInt64} :
    s.openPacked suite payload associated seq = .ok (message, s') ↔
      ∃ sealed, Packing.unpack payload = .ok sealed ∧
        s.openAt suite sealed associated seq = .ok (message, s') := by
  simp only [openPacked]
  cases Packing.unpack payload with
  | error failure => simp [bind, Except.bind]
  | ok sealed => simp [bind, Except.bind]

theorem connectionId_of_openPacked
    {payload : Packed} {seq : UInt64}
    (h : s.openPacked suite payload associated seq = .ok (message, s')) :
    s'.connectionId = s.connectionId := by
  obtain ⟨_, -, hat⟩ := openPacked_eq_ok_iff.mp h
  obtain ⟨-, -, rfl⟩ := openAt_eq_ok_iff.mp hat
  rfl

end Seals

end Session
end GameLink
