import GameLink.Client.Posting
import GameLink.Proofs.Client.Reachable
import GameLink.Proofs.Client.Sealing

/-!
# What a call to send comes to

A call to send makes a datagram of its contents, looks at its size and hands it to the socket.

**Results.**
* `makes_prepare`: what making the datagram can come to.
* `sends_send`: what a call can come to when there is a link and something to send.
* `session_prepare`, `session_send`: the session afterwards is the one after sealing.
* `frame_of_made`: what is sealed is a frame and uses up its number.
-/

namespace GameLink
namespace Client

variable {c : Client} {contents : Bytes}

/-- The datagrams that the socket of a client has taken. -/
def datagrams (c : Client) : List Bytes :=
  c.journal.filterMap Effect.datagram?

@[simp] theorem datagrams_count (c : Client) (tally : Tally) :
    (c.count tally).datagrams = c.datagrams := by
  simp [datagrams, count, note, Effect.datagram?]

@[simp] theorem datagrams_countAll (c : Client) (tallies : List Tally) :
    (c.countAll tallies).datagrams = c.datagrams := by
  induction tallies generalizing c with
  | nil => rfl
  | cons tally rest ih => exact (ih (c.count tally)).trans (datagrams_count c tally)

@[simp] theorem datagrams_raise (c : Client) (event : Event) :
    (c.raise event).datagrams = c.datagrams := by
  simp [datagrams, raise, note, Effect.datagram?]

@[simp] theorem datagrams_noteSent (c : Client) (peer : Address) (datagram : Bytes) :
    (c.noteSent peer datagram).datagrams = c.datagrams ++ [datagram] := by
  simp [datagrams, noteSent, count, note, Effect.datagram?]

/-- There is a link, and something to send on it. -/
structure CanSend (c : Client) (contents : Bytes) : Prop where
  nonempty : contents ≠ []
  connected : c.link.status = .connected
  route : c.route.isSome

theorem CanSend.not_idle (h : c.CanSend contents) :
    ¬ (contents = [] ∨ c.link.status ≠ .connected) := by
  rw [not_or, not_not]
  exact ⟨h.nonempty, h.connected⟩

theorem send_of_not_canSend (h : ¬ c.CanSend contents) (net : Network) :
    c.send net contents = (.ok (), c) := by
  simp only [send]
  split
  · rfl
  · rename_i hready
    rw [not_or, not_not] at hready
    cases hroute : c.route with
    | none => rfl
    | some remote => exact absurd ⟨hready.1, hready.2, by rw [hroute]; rfl⟩ h

/-- A datagram is longer than datagrams may be, or, if it is not sealed, than a pooled buffer. -/
def Oversized (c : Client) (contents datagram : Bytes) : Prop :=
  c.sizeLimit < datagram.length ∨
    (contents.head?.bind sealedChannel? = none ∨ c.session = none) ∧
      c.pool.bufferCapacity < datagram.length

/-- What making the datagram of a tagged buffer can come to. -/
inductive Makes (c : Client) (contents : Bytes) (remote : Address) :
    Except Failure Posting × Client → Prop
  /-- The cipher does not seal the contents, or there is no number left. -/
  | unsealed
      (hmade : c.made? contents = none)
      (failure : Failure) (h : failure = .encryption ∨ failure = .exhausted) :
      Makes c contents remote (.error failure, c)
  | oversized {datagram : Bytes} (hmade : c.made? contents = some datagram)
      (hlarge : c.Oversized contents datagram) (defect : Defect)
      {c' : Client} (hafter : c'.datagrams = c.datagrams) :
      Makes c contents remote (.error (.malformed defect), c')
  | held {parcel : Parcel} (hmade : c.made? contents = some parcel.datagram)
      (hfits : ¬ c.Oversized contents parcel.datagram)
      {c' : Client} (hafter : c'.datagrams = c.datagrams) :
      Makes c contents remote (.ok ⟨.data contents, remote, parcel⟩, c')

/-- What a call to send can come to when there is a link. -/
inductive Sends (c : Client) (contents : Bytes) : Except Failure Unit × Client → Prop
  /-- The cipher does not seal the contents, or there is no number left. -/
  | unsealed
      (hmade : c.made? contents = none)
      (failure : Failure) (h : failure = .encryption ∨ failure = .exhausted) :
      Sends c contents (.error failure, c)
  | oversized {datagram : Bytes} (hmade : c.made? contents = some datagram)
      (hlarge : c.Oversized contents datagram) (defect : Defect)
      {c' : Client} (hafter : c'.datagrams = c.datagrams) :
      Sends c contents (.error (.malformed defect), c')
  | taken {datagram : Bytes} (hmade : c.made? contents = some datagram)
      (hfits : ¬ c.Oversized contents datagram)
      {c' : Client} (hafter : c'.datagrams = c.datagrams ++ [datagram]) :
      Sends c contents (.ok (), c')
  /-- The socket does not take the datagram. -/
  | untaken {datagram : Bytes} (hmade : c.made? contents = some datagram)
      (hfits : ¬ c.Oversized contents datagram)
      {c' : Client} (hafter : c'.datagrams = c.datagrams) :
      Sends c contents (.error .socket, c')

/-- A datagram of the right size is handed to the socket, whatever is done afterwards. -/
theorem sends_transmit
    {datagram : Bytes} (hmade : c.made? contents = some datagram)
    (hfits : ¬ c.Oversized contents datagram) {net : Network} {remote : Address}
    {c' c'' : Client} (hbefore : c'.datagrams = c.datagrams)
    (hafter : c''.datagrams = (c'.transmit net remote datagram).2.datagrams) :
    Sends c contents ((c'.transmit net remote datagram).1, c'') := by
  simp only [transmit] at hafter ⊢
  split
  · rename_i hcarried
    rw [if_pos hcarried, datagrams_noteSent, hbefore] at hafter
    exact .taken hmade hfits hafter
  · rename_i hlost
    rw [if_neg hlost, datagrams_raise, datagrams_count, hbefore] at hafter
    exact .untaken hmade hfits hafter

/-- A signed buffer is the contents and their checksum, unless that is too long. -/
theorem signed_cases (hpool : c.pool.Uniform) (bytes : Bytes) :
    let size := bytes.length + Buffer.signatureSize
    let oversized := c.sizeLimit < size ∨ c.pool.bufferCapacity < size
    (oversized ∧ ∃ (defect : Defect) (pool : Pool),
        c.signed bytes = (.error (.malformed defect), { c with pool })) ∨
      ¬ oversized ∧ ∃ (b : Buffer) (pool : Pool), c.signed bytes = (.ok b, { c with pool }) ∧
        b.contents = bytes ++ Bytes.ofNat 4 (Checksum.crc32c bytes).toNat := by
  have hspare := hpool.spare_acquire thread
  have hposition : (c.pool.acquire thread).1.position = 0 := by
    rw [← hspare.reset]
    rfl
  have hlength : (c.pool.acquire thread).1.length = 0 := by
    rw [← hspare.reset]
    rfl
  simp only [signed, checkSize]
  by_cases hlarge : c.sizeLimit < bytes.length + Buffer.signatureSize
  · rw [if_pos hlarge]
    exact Or.inl ⟨Or.inl hlarge, _, c.pool, rfl⟩
  · rw [if_neg hlarge]
    dsimp only
    rw [hspare.capacity]
    split
    · rename_i hcapacity
      exact Or.inl ⟨Or.inr hcapacity, _, _, rfl⟩
    · rename_i hroom
      refine Or.inr ⟨not_or.mpr ⟨hlarge, hroom⟩, _, _, rfl, ?_⟩
      rw [← hspare.capacity] at hroom
      exact (Buffer.contents_sign_write hposition hlength (Nat.le_of_not_lt hroom)).2

/-- What making a datagram comes to. -/
theorem makes_prepare (hpool : c.pool.Uniform) (contents : Bytes) (remote : Address) :
    Makes c contents remote (c.prepare remote (.data contents)) := by
  have hseals := seals_sealOutbound c contents
  simp only [prepare]
  generalize c.sealOutbound contents = outcome at hseals ⊢
  cases hseals with
  | refused s hs hmade failure hfailure => exact .unsealed hmade failure hfailure
  | notSealed hplain hmade =>
      have hsize : (contents ++ Bytes.ofNat 4 (Checksum.crc32c contents).toNat).length =
          contents.length + Buffer.signatureSize := by
        rw [List.length_append, Bytes.length_ofNat]
        rfl
      dsimp only
      rcases signed_cases hpool contents with
        ⟨hlarge, defect, pool, hsigned⟩ | ⟨hfits, b, pool, hsigned, hb⟩
      · rw [hsigned]
        refine .oversized hmade ?_ defect rfl
        rw [Oversized, hsize]
        exact hlarge.imp_right fun h => ⟨hplain, h⟩
      · rw [← hb] at hmade
        rw [hsigned]
        refine .held hmade ?_ rfl
        rw [Parcel.datagram, hb, Oversized, hsize]
        exact fun h => hfits (h.imp_right And.right)
  | framed s hs f hf hlast hmade tallies =>
      have hafter : (({ c with
          session := some (s.afterSealing (s.nextSend + 1) f.sealed) } : Client).countAll
            tallies).datagrams = c.datagrams :=
        datagrams_countAll _ _
      by_cases hlarge : c.sizeLimit < f.datagram.length
      · simp only [checkSize, if_pos hlarge]
        exact .oversized hmade (Or.inl hlarge) _ hafter
      · simp only [checkSize, if_neg hlarge]
        refine .held hmade ?_ hafter
        rintro (h | ⟨hnone | hnone, -⟩)
        · exact hlarge h
        · rw [hf.tag, Option.bind_some] at hnone
          exact absurd (isSome_sealedChannel_tagOf f.header.channel) (by rw [hnone]; decide)
        · rw [hs] at hnone
          cases hnone

theorem datagrams_unpack (c : Client) (parcel : Parcel) :
    (c.unpack parcel).datagrams = c.datagrams := by
  cases parcel with
  | _ => rfl

theorem CanSend.way? (h : c.CanSend contents) : c.way? (.data contents) = c.route :=
  if_neg h.not_idle

/-- What a call comes to when there is a link and something to send. -/
theorem sends_send (hpool : c.pool.Uniform) (hcan : c.CanSend contents) (net : Network) :
    Sends c contents (c.send net contents) := by
  obtain ⟨remote, hroute⟩ := Option.isSome_iff_exists.mp hcan.route
  have hmakes := makes_prepare hpool contents remote
  rw [← carryOut_data]
  simp only [carryOut, hcan.way?, hroute]
  generalize c.prepare remote (.data contents) = outcome at hmakes ⊢
  cases hmakes with
  | unsealed hmade failure hfailure => exact .unsealed hmade failure hfailure
  | oversized hmade hlarge defect hafter => exact .oversized hmade hlarge defect hafter
  | held hmade hfits hafter => exact sends_transmit hmade hfits hafter (datagrams_unpack _ _)

section Sessions

theorem session_countAll (c : Client) (tallies : List Tally) :
    (c.countAll tallies).session = c.session := by
  induction tallies generalizing c with
  | nil => rfl
  | cons tally rest ih => exact ih (c.count tally)

theorem session_transmit (net : Network) (c : Client) (remote : Address) (datagram : Bytes) :
    (c.transmit net remote datagram).2.session = c.session := by
  simp only [transmit]
  split
  · rfl
  · rfl

theorem session_signed (c : Client) (bytes : Bytes) : (c.signed bytes).2.session = c.session := by
  simp only [signed]
  cases c.checkSize (bytes.length + Buffer.signatureSize) with
  | error failure => rfl
  | ok _ =>
      dsimp only
      split
      · rfl
      · rfl

/-- The session after a datagram was made is the one after sealing. -/
theorem session_prepare (remote : Address) (contents : Bytes) :
    (c.prepare remote (.data contents)).2.session = (c.sealOutbound contents).2.session := by
  simp only [prepare]
  rcases c.sealOutbound contents with ⟨failure | _ | datagram, after⟩
  · rfl
  · have hsigned := session_signed after contents
    dsimp only
    generalize after.signed contents = signing at hsigned ⊢
    rcases signing with ⟨failure | b, last⟩
    · exact hsigned
    · exact hsigned
  · rfl

theorem session_finishSending (net : Network) (c : Client) (posting : Posting) :
    (c.finishSending net posting).2.session = c.session := by
  obtain ⟨message, remote, datagram | b⟩ := posting
  · exact session_transmit net c remote datagram
  · exact session_transmit net c remote b.contents

theorem session_carryOut {message : OutgoingMessage} {remote : Address}
    (hway : c.way? message = some remote) (net : Network) :
    (c.carryOut net message).2.session = (c.prepare remote message).2.session := by
  simp only [carryOut, hway]
  rcases c.prepare remote message with ⟨failure | posting, after⟩
  · rfl
  · exact session_finishSending net after posting

/-- The session after a call is the one after sealing. -/
theorem session_send (hcan : c.CanSend contents) (net : Network) :
    (c.send net contents).2.session = (c.sealOutbound contents).2.session := by
  obtain ⟨remote, hroute⟩ := Option.isSome_iff_exists.mp hcan.route
  rw [← carryOut_data, session_carryOut (hcan.way?.trans hroute), session_prepare]

/-- What is sealed is a frame, and uses up the number in its header. -/
theorem frame_of_made
    (hdata : (contents.head?.bind sealedChannel?).isSome)
    {s : Session} (hs : c.session = some s)
    {datagram : Bytes} (hmade : c.made? contents = some datagram) :
    ∃ f : Frame, f.Carries c.setup.suite s contents ∧ datagram = f.datagram ∧
      s.nextSend ≠ Session.lastNumber ∧
      (c.sealOutbound contents).2.session = some (s.afterSealing (s.nextSend + 1) f.sealed) := by
  have hseals := seals_sealOutbound c contents
  generalize c.sealOutbound contents = outcome at hseals ⊢
  cases hseals with
  | notSealed hplain _ =>
      rcases hplain with hnone | hnone
      · rw [hnone] at hdata
        cases hdata
      · rw [hs] at hnone
        cases hnone
  | refused _ _ hnone =>
      rw [hmade] at hnone
      cases hnone
  | framed s' hs' f hf hlast hframe tallies =>
      cases hs.symm.trans hs'
      cases hmade.symm.trans hframe
      exact ⟨f, hf, rfl, hlast, session_countAll _ tallies⟩

end Sessions

end Client
end GameLink
