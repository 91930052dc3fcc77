import GameLink.Proofs.Client.Deliveries
import GameLink.Proofs.Client.Sealing
import GameLink.Proofs.Header
import GameLink.Proofs.Packing
import GameLink.Proofs.ReplayWindow

/-!
# Sealed data at the other end

What one end of a channel seals is taken by the other end if it is not packed.  Two guards of
the receiving end concern packed data only: a datagram of the secure channel has room for a
header and a tag, and nothing is unpacked to more than 64 KiB.  The sending end packs without
regard to them.

**Results.**
* `tryOpen_datagram`: what the other end does with a frame.
* `sealed_data_accepted_iff`: data is accepted exactly if it is not packed or within both guards.
* `packed_data_not_always_accepted`: neither of the two guards can be left out.
-/

namespace GameLink

/-- Opening gives back what was sealed, and what is sealed has a tag behind it. -/
structure Suite.Faithful (suite : Suite) : Prop where
  open_seal :
    ∀ {key nonce associated message sealed},
      suite.seal? key nonce associated message = some sealed →
        suite.open? key nonce associated sealed = some message
  length_sealed :
    ∀ {key nonce associated message sealed},
      suite.seal? key nonce associated message = some sealed →
        sealed.length = message.length + Aead.tagSize

namespace Client

/-- What a datagram makes of a client if it belongs to the secure channel. -/
def tryOpen (c : Client) (bytes : Bytes) : Option Client :=
  (c.secureHeader? bytes).map fun (s, header) => c.openSecure s header bytes

/-- A datagram of the secure channel is not looked at further. -/
theorem handleDatagram_of_tryOpen
    {c c' : Client} {bytes : Bytes} (h : c.tryOpen bytes = some c')
    (net : Network) (remote : Address) :
    c.handleDatagram net remote bytes = (.goOn, c') := by
  obtain ⟨⟨s, header⟩, hheader, rfl⟩ := Option.map_eq_some_iff.mp h
  simp only [handleDatagram, hheader]

/-- A client and its session at either end of a channel. -/
structure Facing (c : Client) (s : Session) (peer : Client) (t : Session) : Prop where
  suite : peer.setup.suite = c.setup.suite
  session : c.session = some s
  peerSession : peer.session = some t
  /-- The other end opens with what this end seals with. -/
  key : t.receiveKey = s.sendKey
  connection : t.connectionId = s.connectionId

/-- A client that opened data under a number: the number is marked, the peer was heard, and the
data is raised, once, with the cursor behind the tag. -/
def opened (c : Client) (s : Session) (sequence : UInt64) (contents : Bytes) : Client :=
  ({ c with
    session := some { s with received := s.received.insert sequence } }).heard.raise
      (.data contents 1)

variable {c c' peer : Client} {s t : Session} {contents : Bytes} {f : Frame}

/-- Something is raised. -/
theorem opened_ne (c : Client) (s : Session) (sequence : UInt64) (contents : Bytes) :
    c.opened s sequence contents ≠ c := by
  intro h
  have hjournal := congrArg (List.length ∘ journal) h
  simp [opened, raise, note, heard] at hjournal

theorem contents_of_carries (hf : f.Carries c.setup.suite s contents) :
    tagOf f.header.channel :: contents.tail = contents :=
  List.cons_head?_tail hf.tag

theorem length_contents (hf : f.Carries c.setup.suite s contents) (hsuite : c.setup.suite.Faithful) :
    f.sealed.length = contents.length + 15 := by
  have hsealed := hsuite.length_sealed hf.cipher
  rw [← contents_of_carries hf, List.length_cons]
  simp only [Aead.tagSize] at hsealed
  simpa using hsealed

/-- The header of a frame is found if the frame is long enough. -/
theorem secureHeader_datagram
    (hf : f.Carries c.setup.suite s contents) (hfacing : Facing c s peer t) :
    peer.secureHeader? f.datagram =
      if f.datagram.length < Header.size + Aead.tagSize then none else some (t, f.header) := by
  have htake : f.datagram.take Header.size = f.header.toBytes :=
    List.take_left' (Header.length_toBytes f.header)
  have hparsed : Header.ofBytes (f.datagram.take Header.size) = .ok f.header := by
    rw [htake, ← List.append_nil f.header.toBytes, Header.ofBytes_toBytes]
  have hours : f.header.connectionId = t.connectionId ∧ f.header.flags.encrypted = true :=
    ⟨hf.connection.trans hfacing.connection.symm, hf.encrypted⟩
  simp only [secureHeader?, hfacing.peerSession, hparsed, if_pos hours]

/-- Unpacking the payload of a frame gives what was sealed, up to the limit. -/
theorem unpack_payload (hf : f.Carries c.setup.suite s contents) :
    Packing.unpack ⟨f.payload, f.header.flags.compressed⟩ =
      if f.header.flags.compressed = true ∧ Packing.unpackLimit < f.sealed.length then
        .error .decompression
      else
        .ok f.sealed := by
  rcases hf.payload with ⟨hplain, hpayload⟩ | ⟨hpacked, hcompress⟩
  · simp [Packing.unpack, hplain, hpayload]
  · simp [Packing.unpack, hpacked, Block.decompress_of_compress hcompress]

/-- What the other end does with a frame: a short one is not for the secure channel, one that
would unpack to too much is dropped, and any other is opened. -/
theorem tryOpen_datagram
    (hf : f.Carries c.setup.suite s contents) (hsuite : c.setup.suite.Faithful)
    (hfacing : Facing c s peer t) (hfresh : t.received.isFresh s.nextSend = true) :
    peer.tryOpen f.datagram =
      if f.datagram.length < Header.size + Aead.tagSize then
        none
      else if f.header.flags.compressed = true ∧ Packing.unpackLimit < f.sealed.length then
        some peer
      else
        some (peer.opened t s.nextSend contents) := by
  simp only [tryOpen, secureHeader_datagram hf hfacing]
  by_cases hshort : f.datagram.length < Header.size + Aead.tagSize
  · rw [if_pos hshort, if_pos hshort]
    rfl
  · rw [if_neg hshort, if_neg hshort]
    have hdrop : f.datagram.drop Header.size = f.payload :=
      List.drop_left' (Header.length_toBytes f.header)
    simp only [Option.map_some, openSecure, hdrop]
    by_cases hlarge : f.header.flags.compressed = true ∧ Packing.unpackLimit < f.sealed.length
    · have hfail : t.openPacked peer.setup.suite ⟨f.payload, f.header.flags.compressed⟩
          f.header.associatedData f.header.sequence = .error .decompression := by
        rw [Session.openPacked, unpack_payload hf, if_pos hlarge]
        rfl
      rw [if_pos hlarge, hfail]
      rfl
    · have hnonce : t.nonce f.header.sequence = s.nonce f.header.sequence :=
        (Session.nonce_inj hfacing.connection).mpr rfl
      have hcipher : peer.setup.suite.open? t.receiveKey (t.nonce f.header.sequence)
          f.header.associatedData f.sealed = some contents.tail := by
        rw [hfacing.suite, hfacing.key, hnonce]
        exact hsuite.open_seal hf.cipher
      have hopen : t.openPacked peer.setup.suite ⟨f.payload, f.header.flags.compressed⟩
          f.header.associatedData f.header.sequence =
            .ok (contents.tail, { t with received := t.received.insert f.header.sequence }) := by
        refine Session.openPacked_eq_ok_iff.mpr ⟨f.sealed, ?_, ?_⟩
        · rw [unpack_payload hf, if_neg hlarge]
        · refine Session.openAt_eq_ok_iff.mpr ⟨?_, hcipher, rfl⟩
          rw [hf.sequence]
          exact hfresh
      rw [if_neg hlarge, hopen]
      simp only [contents_of_carries hf, hf.sequence]
      rfl

/-- A frame that is not packed has room for a header and a tag. -/
theorem length_datagram_of_plain
    (hf : f.Carries c.setup.suite s contents) (hsuite : c.setup.suite.Faithful)
    (hplain : f.header.flags.compressed = false) :
    Header.size + Aead.tagSize ≤ f.datagram.length := by
  have hsealed := hsuite.length_sealed hf.cipher
  rcases hf.payload with ⟨-, hpayload⟩ | ⟨hpacked, -⟩
  · rw [Frame.datagram, List.length_append, Header.length_toBytes, hpayload, hsealed]
    omega
  · rw [hplain] at hpacked
    cases hpacked

/-- The guards of the receiving end on packed data. -/
def WithinGuards (contents datagram : Bytes) : Prop :=
  ∀ header, Header.ofBytes datagram = .ok header → header.flags.compressed = true →
    contents.length + 15 ≤ Packing.unpackLimit ∧
      Header.size + Aead.tagSize ≤ datagram.length

theorem withinGuards_datagram_iff :
    WithinGuards contents f.datagram ↔
      (f.header.flags.compressed = true →
        contents.length + 15 ≤ Packing.unpackLimit ∧
          Header.size + Aead.tagSize ≤ f.datagram.length) := by
  have hparsed : Header.ofBytes f.datagram = .ok f.header := Header.ofBytes_toBytes ..
  constructor
  · intro h
    exact h f.header hparsed
  · intro h header hheader
    rw [hparsed] at hheader
    cases hheader
    exact h

/-- A peer that may open a number opens what was sealed under it exactly if that is within the
guards. -/
theorem tryOpen_eq_opened_iff
    {datagram : Bytes}
    (hsuite : c.setup.suite.Faithful) (hfacing : Facing c s peer t)
    (hsend : c.sealOutbound contents = (.ok (some datagram), c'))
    (hfresh : t.received.isFresh s.nextSend = true) :
    peer.tryOpen datagram = some (peer.opened t s.nextSend contents) ↔
      WithinGuards contents datagram := by
  have hseals := seals_sealOutbound c contents
  rw [hsend] at hseals
  generalize houtcome : (Except.ok (some datagram), c') = outcome at hseals
  cases hseals with
  | notSealed => cases houtcome
  | refused => cases houtcome
  | framed s' hs' f hf hlast _ tallies =>
      cases hfacing.session.symm.trans hs'
      obtain rfl : f.datagram = datagram := by
        have hfst := congrArg Prod.fst houtcome
        simp only [checkSize] at hfst
        split at hfst
        · cases hfst
        · cases hfst
          rfl
      rw [tryOpen_datagram hf hsuite hfacing hfresh, withinGuards_datagram_iff,
        ← length_contents hf hsuite]
      by_cases hpacked : f.header.flags.compressed = true
      · by_cases hshort : f.datagram.length < Header.size + Aead.tagSize
        · simp [hpacked, hshort]
        · by_cases hlarge : Packing.unpackLimit < f.sealed.length
          · simp [hpacked, hshort, hlarge, (opened_ne peer t s.nextSend contents).symm]
          · simp [hpacked, hshort, hlarge]
            omega
      · have hplain : f.header.flags.compressed = false := by simpa using hpacked
        have hlong := Nat.not_lt.mpr (length_datagram_of_plain hf hsuite hplain)
        simp [hplain, hlong]

/-- Whatever a client seals, a peer that holds the other end of its session, has not accepted
the number and has it within reach opens and raises, once and as it was, exactly if it is not
packed or is within the guards on packed data. -/
theorem sealed_data_accepted_iff
    {c c' peer : Client} {s t : Session} {contents datagram : Bytes} {accepted : Set UInt64}
    (hsuite : c.setup.suite.Faithful) (hfacing : Facing c s peer t)
    (hsend : c.sealOutbound contents = (.ok (some datagram), c'))
    (hrecords : t.received.Records accepted) (hnew : s.nextSend ∉ accepted)
    (hreach : t.received.highest.toNat < s.nextSend.toNat + 64) :
    peer.tryOpen datagram = some (peer.opened t s.nextSend contents) ↔
      WithinGuards contents datagram :=
  tryOpen_eq_opened_iff hsuite hfacing hsend
    ((hrecords.isFresh_iff s.nextSend).mpr ⟨hnew, hreach⟩)

/-- What is sealed is accepted whenever a guard is met. -/
def AcceptedIf (guard : Bytes → Bytes → Prop) : Prop :=
  ∀ (c c' peer : Client) (s t : Session) (contents datagram : Bytes) (accepted : Set UInt64),
    c.setup.suite.Faithful → Facing c s peer t →
    c.sealOutbound contents = (.ok (some datagram), c') →
    t.received.Records accepted → s.nextSend ∉ accepted →
    t.received.highest.toNat < s.nextSend.toNat + 64 →
    guard contents datagram →
    peer.tryOpen datagram = some (peer.opened t s.nextSend contents)

/-- A cipher that puts sixteen zeros behind a message. -/
def paddingSuite : Suite :=
  { Suite.standard with
    seal? := fun _ _ _ message => some (message ++ List.replicate Aead.tagSize 0)
    open? := fun _ _ _ sealed => some (sealed.take (sealed.length - Aead.tagSize)) }

theorem faithful_paddingSuite : paddingSuite.Faithful where
  open_seal := by
    intro key nonce associated message sealed h
    cases h
    simp [paddingSuite]
  length_sealed := by
    intro key nonce associated message sealed h
    cases h
    simp

/-- One end of a channel with that cipher, which packs whatever gets shorter. -/
def paddingEnd (role : Role) : Session where
  role
  sendKey := Octets.zero 32
  receiveKey := Octets.zero 32
  salt := Octets.zero 16
  connectionId := 7
  keyedAt := .zero
  packingThreshold := 0

def paddingClient (role : Role) : Client :=
  let setup : Setup := { sampleSetup with settings := {}, suite := paddingSuite }
  { create setup (.cyclic []) .zero with session := some (paddingEnd role) }

theorem facing_paddingClient :
    Facing (paddingClient .client) (paddingEnd .client) (paddingClient .server)
      (paddingEnd .server) where
  suite := rfl
  session := rfl
  peerSession := rfl
  key := rfl
  connection := rfl

/-- A reliable buffer of zeros. -/
def zeros (n : Nat) : Bytes :=
  PacketKind.reliable.tag :: List.replicate n 0

theorem length_zeros (n : Nat) : (zeros n).length = n + 1 := by
  simp [zeros]

/-- Zeros and their padding are compressed. -/
theorem compress_padded_zeros
    (n length : Nat)
    (h : (((Block.emit (Block.maxSize (n + Aead.tagSize)) #[] [⟨[0], 1, n + Aead.tagSize - 1⟩]).bind
      fun out => Block.emitTail (Block.maxSize (n + Aead.tagSize)) out []).filter
        fun out => out.length < n + Aead.tagSize).map List.length = some length) :
    ∃ packed, Block.compress (List.replicate (n + Aead.tagSize) 0) = some packed ∧
      packed.length = length := by
  rw [← Block.compress_zeros (by simp only [Aead.tagSize]; omega)] at h
  exact Option.map_eq_some_iff.mp h

/-- The header in front of packed zeros. -/
def paddingHeader : Header where
  connectionId := 7
  channel := .reliableOrdered
  flags := { encrypted := true, chaCha20Poly1305 := true, compressed := true }
  sequence := 0

/-- Zeros are packed after the padding. -/
theorem sealOutbound_zeros
    {n : Nat} {packed : Bytes}
    (hpacked : Block.compress (List.replicate (n + Aead.tagSize) 0) = some packed)
    (hsize : Header.size + packed.length ≤ 1200) :
    ∃ c', (paddingClient .client).sealOutbound (zeros n) =
      (.ok (some (paddingHeader.toBytes ++ packed)), c') := by
  have hsealed : (paddingEnd .client).sealNext paddingSuite (zeros n).tail
      (nextHeader (paddingEnd .client) .reliableOrdered).associatedData =
        .ok (List.replicate (n + Aead.tagSize) 0,
          (paddingEnd .client).afterSealing 1 (List.replicate (n + Aead.tagSize) 0)) := by
    refine Session.sealNext_eq_ok_iff.mpr ⟨?_, by decide, rfl⟩
    simp [paddingSuite, zeros]
  have hlong : ¬ (List.replicate (n + Aead.tagSize) (0 : UInt8)).length ≤ 0 := by
    simp [Aead.tagSize]
  have hpack : Packing.pack 0 (List.replicate (n + Aead.tagSize) 0) =
      (⟨packed, true⟩, [.packingAttempt, .packingSuccess]) := by
    rw [Packing.pack, if_neg hlong, hpacked]
  have hpayload : (paddingClient .client).sealPayload (paddingEnd .client)
      (nextHeader (paddingEnd .client) .reliableOrdered) (zeros n).tail = .ok (_, _, _) :=
    sealPayload_eq_ok_iff.mpr ⟨_, hsealed, hpack.symm⟩
  have hchannel : (zeros n).head?.bind sealedChannel? = some .reliableOrdered := rfl
  have hfits : ¬ 1200 < (paddingHeader.toBytes ++ packed).length := by
    rw [List.length_append, Header.length_toBytes]
    exact Nat.not_lt.mpr hsize
  simp only [sealOutbound, hchannel, facing_paddingClient.session, hpayload, checkSize_countAll]
  exact ⟨_, congrArg (fun result => (Except.map (fun _ => some _) result, _)) (if_neg hfits)⟩

/-- The longest zeros that are accepted when packed. -/
theorem zeros_accepted_at_limit :
    paddingSuite.Faithful ∧
      Facing (paddingClient .client) (paddingEnd .client) (paddingClient .server)
        (paddingEnd .server) ∧
      (paddingEnd .server).received.Records ∅ ∧
      ∃ c' datagram,
        (paddingClient .client).sealOutbound (zeros 65520) = (.ok (some datagram), c') ∧
          (paddingClient .server).tryOpen datagram =
            some ((paddingClient .server).opened (paddingEnd .server) 0 (zeros 65520)) := by
  obtain ⟨packed, hpacked, hlength⟩ := compress_padded_zeros 65520 262 (by decide +kernel)
  obtain ⟨c', hsend⟩ := sealOutbound_zeros hpacked (by rw [hlength]; decide)
  refine ⟨faithful_paddingSuite, facing_paddingClient, ReplayWindow.records_empty, c', _, hsend, ?_⟩
  refine (sealed_data_accepted_iff faithful_paddingSuite facing_paddingClient hsend
    ReplayWindow.records_empty (Set.notMem_empty _) (by decide)).mpr fun header _ _ => ?_
  rw [length_zeros, List.length_append, Header.length_toBytes, hlength]
  decide

/-- Zeros are only accepted within the guards. -/
theorem withinGuards_of_acceptedIf
    {guard : Bytes → Bytes → Prop} {n : Nat} {packed : Bytes} (h : AcceptedIf guard)
    (hpacked : Block.compress (List.replicate (n + Aead.tagSize) 0) = some packed)
    (hsize : Header.size + packed.length ≤ 1200)
    (hguard : guard (zeros n) (paddingHeader.toBytes ++ packed)) :
    n + Aead.tagSize ≤ Packing.unpackLimit ∧ Aead.tagSize ≤ packed.length := by
  obtain ⟨c', hsend⟩ := sealOutbound_zeros hpacked hsize
  have haccepted := h _ _ _ _ _ _ _ ∅ faithful_paddingSuite facing_paddingClient hsend
    ReplayWindow.records_empty (Set.notMem_empty _) (by decide) hguard
  have hwithin := (tryOpen_eq_opened_iff faithful_paddingSuite facing_paddingClient hsend
    (by decide)).mp haccepted
  obtain ⟨hcontents, hdatagram⟩ := hwithin _ (Header.ofBytes_toBytes _ _) rfl
  rw [length_zeros] at hcontents
  rw [List.length_append, Header.length_toBytes] at hdatagram
  simp only [Aead.tagSize] at hdatagram ⊢
  omega

/-- Not everything that is sealed is accepted, and neither guard alone is enough.  A hundred
zeros pack into fewer octets than a tag has, and zeros just above the limit of unpacking into
few enough for a datagram. -/
theorem packed_data_not_always_accepted :
    ¬ AcceptedIf (fun _ _ => True) ∧
      ¬ AcceptedIf (fun contents _ => contents.length + 15 ≤ Packing.unpackLimit) ∧
      ¬ AcceptedIf (fun _ datagram => Header.size + Aead.tagSize ≤ datagram.length) := by
  obtain ⟨few, hfew, hfewLength⟩ := compress_padded_zeros 100 6 (by decide +kernel)
  obtain ⟨many, hmany, hmanyLength⟩ := compress_padded_zeros 65521 262 (by decide +kernel)
  have hsize : Header.size + few.length ≤ 1200 ∧ Header.size + many.length ≤ 1200 := by
    rw [hfewLength, hmanyLength]
    decide
  refine ⟨fun h => ?_, fun h => ?_, fun h => ?_⟩
  · have hwithin := (withinGuards_of_acceptedIf h hfew hsize.1 trivial).2
    rw [hfewLength] at hwithin
    exact absurd hwithin (by decide)
  · have hshort : (zeros 100).length + 15 ≤ Packing.unpackLimit := by decide
    have hwithin := (withinGuards_of_acceptedIf h hfew hsize.1 hshort).2
    rw [hfewLength] at hwithin
    exact absurd hwithin (by decide)
  · have hlong : Header.size + Aead.tagSize ≤ (paddingHeader.toBytes ++ many).length := by
      rw [List.length_append, Header.length_toBytes, hmanyLength]
      decide
    exact absurd (withinGuards_of_acceptedIf h hmany hsize.2 hlong).1 (by decide)

end Client
end GameLink
