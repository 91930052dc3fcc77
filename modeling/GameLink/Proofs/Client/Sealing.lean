import GameLink.Client.Inbound
import GameLink.Proofs.PlainDatagram
import GameLink.Proofs.Session.Operations

/-!
# The sealed form of application data

Application data that is sealed travels as a frame: a header, then the sealed payload,
packed if that makes it shorter.

**Results.**
* `sealPayload_eq_ok_iff`: sealing a payload for a header is sealing under the next number,
  then packing if the settings say so.
* `seals_sealOutbound`: what sealing a tagged buffer can come to, and the datagram that is made.
-/

namespace GameLink

/-- A sealed datagram in parts. -/
structure Frame where
  header : Header
  /-- The sealed payload as the cipher gave it. -/
  sealed : Bytes
  /-- The sealed payload as it travels. -/
  payload : Bytes

namespace Frame

def datagram (f : Frame) : Bytes :=
  f.header.toBytes ++ f.payload

/-- A frame carries a tagged buffer: its header is the next of the session and tells the tag,
the cipher sealed the rest of the buffer under the number in the header, and what travels is
that, or its packed form if the header says so. -/
structure Carries (f : Frame) (suite : Suite) (s : Session) (contents : Bytes) : Prop where
  tag : contents.head? = some (Client.tagOf f.header.channel)
  connection : f.header.connectionId = s.connectionId
  encrypted : f.header.flags.encrypted = true
  sequence : f.header.sequence = s.nextSend
  cipher :
    suite.seal? s.sendKey (s.nonce f.header.sequence) f.header.associatedData contents.tail =
      some f.sealed
  payload :
    f.header.flags.compressed = false ∧ f.payload = f.sealed ∨
      f.header.flags.compressed = true ∧ Block.compress f.sealed = some f.payload

end Frame

namespace Client

variable {c : Client} {s s' : Session}

/-- The tag of a buffer that is sealed is the tag of its channel. -/
theorem tagOf_of_sealedChannel {tag : UInt8} {channel : Channel}
    (h : sealedChannel? tag = some channel) : tagOf channel = tag := by
  simp only [sealedChannel?] at h
  cases hkind : PacketKind.ofTag? tag with
  | none =>
      rw [hkind] at h
      cases h
  | some kind =>
      have htag := Packet.tag_of_ofTag hkind
      rw [hkind] at h
      cases kind with
      | reliable | unreliable =>
          cases h
          exact htag
      | _ => cases h

/-- The tag of every channel is a tag that is sealed. -/
theorem isSome_sealedChannel_tagOf (channel : Channel) :
    (sealedChannel? (tagOf channel)).isSome := by
  cases channel <;> decide

theorem sealPayload_eq_ok_iff
    {header : Header} {payload : Bytes} {packed : Packed} {tallies : List Tally} :
    c.sealPayload s header payload = .ok (packed, tallies, s') ↔
      ∃ sealed, s.sealNext c.setup.suite payload header.associatedData = .ok (sealed, s') ∧
        (packed, tallies) =
          if c.setup.settings.security.compressionEnabled then
            Packing.pack s'.packingThreshold sealed
          else
            (⟨sealed, false⟩, []) := by
  simp only [sealPayload]
  by_cases henabled : c.setup.settings.security.compressionEnabled = true
  · simp only [henabled, if_true, Session.sealPacked_eq_ok_iff]
    constructor
    · rintro ⟨sealed, hsealed, hpack⟩
      exact ⟨sealed, hsealed, hpack.symm⟩
    · rintro ⟨sealed, hsealed, hpack⟩
      exact ⟨sealed, hsealed, hpack.symm⟩
  · simp only [henabled]
    cases s.sealNext c.setup.suite payload header.associatedData with
    | error failure => simp [bind, Except.bind]
    | ok outcome =>
        obtain ⟨sealed, next⟩ := outcome
        simp only [bind, Except.bind]
        constructor
        · intro h
          cases h
          exact ⟨sealed, rfl, rfl⟩
        · rintro ⟨other, h, hpack⟩
          cases h
          cases hpack
          rfl

/-- A payload is not sealed if the cipher refuses it or there is no number left. -/
theorem sealPayload_error
    {header : Header} {payload : Bytes} {failure : Failure}
    (h : c.sealPayload s header payload = .error failure) :
    failure = .encryption ∨ failure = .exhausted := by
  have hnext {failure : Failure}
      (h : s.sealNext c.setup.suite payload header.associatedData = .error failure) :
      failure = .encryption ∨ failure = .exhausted := by
    simp only [Session.sealNext, Session.sealUnder] at h
    split at h
    · simp only [bind, Except.bind] at h
      split at h
      · cases h
        exact Or.inr rfl
      · cases h
    · cases h
      exact Or.inl rfl
  cases hsealed : s.sealNext c.setup.suite payload header.associatedData with
  | error cause =>
      simp only [sealPayload, Session.sealPacked, hsealed, bind, Except.bind] at h
      split at h
      · cases h
        exact hnext hsealed
      · cases h
        exact hnext hsealed
  | ok outcome =>
      simp only [sealPayload, Session.sealPacked, hsealed, bind, Except.bind] at h
      split at h
      · cases h
      · cases h

/-- What packing makes of a sealed payload. -/
theorem payload_of_pack
    {packs : Bool} {threshold : Nat} {sealed : Bytes} {packed : Packed} {tallies : List Tally}
    (h : (packed, tallies) =
      if packs then Packing.pack threshold sealed else (⟨sealed, false⟩, [])) :
    packed.compressed = false ∧ packed.bytes = sealed ∨
      packed.compressed = true ∧ Block.compress sealed = some packed.bytes := by
  split at h
  · simp only [Packing.pack] at h
    split at h
    · cases h
      exact Or.inl ⟨rfl, rfl⟩
    · split at h
      · rename_i shorter hcompress
        cases h
        exact Or.inr ⟨rfl, hcompress⟩
      · cases h
        exact Or.inl ⟨rfl, rfl⟩
  · cases h
    exact Or.inl ⟨rfl, rfl⟩

/-- The datagram that a client makes of a tagged buffer, whatever its size: a frame if the buffer
is to be sealed and the cipher seals it, the signed buffer if it is not to be sealed. -/
def made? (c : Client) (contents : Bytes) : Option Bytes :=
  match contents.head?.bind sealedChannel?, c.session with
  | some channel, some s =>
      let header := nextHeader s channel
      match c.sealPayload s header contents.tail with
      | .error _ => none
      | .ok (packed, _, _) =>
          let flags := { header.flags with compressed := packed.compressed }
          some ({ header with flags }.toBytes ++ packed.bytes)
  | _, _ => some (contents ++ Bytes.ofNat 4 (Checksum.crc32c contents).toNat)

/-- What sealing a tagged buffer can come to. -/
inductive Seals (c : Client) (contents : Bytes) :
    Except Failure (Option Bytes) × Client → Prop
  /-- The buffer has no data tag, or there is no session. -/
  | notSealed
      (h : contents.head?.bind sealedChannel? = none ∨ c.session = none)
      (hmade : c.made? contents =
        some (contents ++ Bytes.ofNat 4 (Checksum.crc32c contents).toNat)) :
      Seals c contents (.ok none, c)
  | refused
      (s : Session) (hs : c.session = some s) (hmade : c.made? contents = none)
      (failure : Failure) (h : failure = .encryption ∨ failure = .exhausted) :
      Seals c contents (.error failure, c)
  /-- The number is used up, whether or not the frame is short enough. -/
  | framed
      (s : Session) (hs : c.session = some s)
      (f : Frame) (hf : f.Carries c.setup.suite s contents)
      (hlast : s.nextSend ≠ Session.lastNumber) (hmade : c.made? contents = some f.datagram)
      (tallies : List Tally) :
      Seals c contents
        ((c.checkSize f.datagram.length).map fun _ => some f.datagram,
          ({ c with session := some (s.afterSealing (s.nextSend + 1) f.sealed) }).countAll
            tallies)

theorem checkSize_countAll (c : Client) (tallies : List Tally) (size : Nat) :
    (c.countAll tallies).checkSize size = c.checkSize size := by
  induction tallies generalizing c with
  | nil => rfl
  | cons tally rest ih => exact ih (c.count tally)

theorem seals_sealOutbound (c : Client) (contents : Bytes) :
    c.Seals contents (c.sealOutbound contents) := by
  cases hchannel : contents.head?.bind sealedChannel? with
  | none =>
      simp only [sealOutbound, hchannel]
      exact .notSealed (Or.inl hchannel) (by simp only [made?, hchannel])
  | some channel =>
      cases hs : c.session with
      | none =>
          simp only [sealOutbound, hchannel, hs]
          exact .notSealed (Or.inr hs) (by simp only [made?, hchannel, hs])
      | some s =>
          obtain ⟨tag, htag, hsealed⟩ := Option.bind_eq_some_iff.mp hchannel
          simp only [sealOutbound, hchannel, hs]
          cases hpayload : c.sealPayload s (nextHeader s channel) contents.tail with
          | error failure =>
              exact .refused s hs (by simp only [made?, hchannel, hs, hpayload]) failure
                (sealPayload_error hpayload)
          | ok outcome =>
              obtain ⟨packed, tallies, s'⟩ := outcome
              obtain ⟨sealed, hnext, hpack⟩ := sealPayload_eq_ok_iff.mp hpayload
              obtain ⟨hcipher, hlast, rfl⟩ := Session.sealNext_eq_ok_iff.mp hnext
              dsimp only
              rw [checkSize_countAll]
              refine .framed s hs ⟨_, sealed, packed.bytes⟩ ⟨?_, rfl, rfl, rfl, hcipher, ?_⟩ hlast
                (by simp only [made?, hchannel, hs, hpayload]; rfl) tallies
              · rw [htag]
                exact congrArg some (tagOf_of_sealedChannel hsealed).symm
              · exact payload_of_pack hpack

end Client
end GameLink
