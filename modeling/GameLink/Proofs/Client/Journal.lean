import GameLink.Proofs.Client.Counter
import GameLink.Proofs.Client.Postings
import GameLink.Proofs.Metrics

/-!
# What a client writes down

A client writes down what it does: datagrams that the socket took, events, and tallies.  Each
datagram, each acceptance and each failure is written down together with its tally; the other
tallies stand by themselves.

**Results.**
* `Records.append`: what is written down one after the other.
* `Records.post`, `Records.accepted`, `Records.failure`, `Records.notice`, `Records.told`: what can
  be written down.
-/

namespace GameLink

/-- A tally that is not counted together with a datagram or an event. -/
def Tally.isNotice : Tally → Bool
  | .received _ | .checksumFailure | .replayRejection | .decryptFailure | .connectAttempt => true
  | _ => false

/-- An event that no tally is counted with. -/
def Event.isUncounted : Event → Bool
  | .connected _ | .connectionError => false
  | _ => true

section Datagrams

/-- What a datagram is to say. -/
inductive Letter
  | request (publicKey : Option Key) (cookie : Option (Octets cookieSize))
  | sealed (contents : Bytes)
  | signed (contents : Bytes)
  | packet (packet : Packet)
deriving DecidableEq

/-- A datagram and what it is to say. -/
structure Post where
  letter : Letter
  datagram : Bytes
deriving DecidableEq

namespace Post

def request (publicKey : Option Key) (cookie : Option (Octets cookieSize)) : Post where
  letter := .request publicKey cookie
  datagram := Client.request publicKey cookie

/-- A packet that is signed in a buffer of a capacity. -/
def packet (capacity : Nat) (p : Packet) : Post where
  letter := .packet p
  datagram := p.signedIn capacity

end Post

/-- What is sent of a call that waits for the socket. -/
def Posting.post (posting : Posting) : Post where
  letter :=
    match posting.message, posting.parcel with
    | .ack sequence, _ => .packet (.ack sequence)
    | .data contents, .sealed _ => .sealed contents
    | .data contents, .pooled _ => .signed contents
  datagram := posting.parcel.datagram

end Datagrams

section Effects

/-- What is known of effects: which datagrams were sent, which tallies stand by themselves, and
that the others were counted once for each datagram, acceptance and failure. -/
structure Records (posts : List Post) (notices : List Tally) (effects : List Effect) : Prop where
  datagrams : effects.filterMap Effect.datagram? = posts.map Post.datagram
  notices : (effects.filterMap Effect.tally?).filter Tally.isNotice = notices
  sent : (effects.filterMap Effect.tally?).filterMap Tally.sent? =
    (effects.filterMap Effect.datagram?).map List.length
  established : (effects.filterMap Effect.tally?).count .connectionEstablished =
    (effects.filterMap Effect.event?).countP Event.isConnected
  failed : (effects.filterMap Effect.tally?).count .connectionError =
    (effects.filterMap Effect.event?).count .connectionError

namespace Records

theorem nil : Records [] [] [] := by
  constructor <;> rfl

/-- What is written down one after the other. -/
theorem append {posts posts' : List Post} {notices notices' : List Tally}
    {effects effects' : List Effect} (h : Records posts notices effects)
    (h' : Records posts' notices' effects') :
    Records (posts ++ posts') (notices ++ notices') (effects ++ effects') where
  datagrams := by rw [List.filterMap_append, h.datagrams, h'.datagrams, List.map_append]
  notices := by rw [List.filterMap_append, List.filter_append, h.notices, h'.notices]
  sent := by
    rw [List.filterMap_append, List.filterMap_append, List.filterMap_append, List.map_append,
      h.sent, h'.sent]
  established := by
    rw [List.filterMap_append, List.filterMap_append, List.count_append, List.countP_append,
      h.established, h'.established]
  failed := by
    rw [List.filterMap_append, List.filterMap_append, List.count_append, List.count_append,
      h.failed, h'.failed]

/-- A datagram that the socket took. -/
theorem post (peer : Address) (p : Post) :
    Records [p] [] [.sent peer p.datagram, .counted (.sent p.datagram.length)] := by
  constructor <;> rfl

theorem accepted (clientId : Option UInt32) :
    Records [] [] [.counted .connectionEstablished, .raised (.connected clientId)] := by
  constructor <;> rfl

theorem failure : Records [] [] [.counted .connectionError, .raised .connectionError] := by
  constructor <;> rfl

theorem notice {tally : Tally} (h : tally.isNotice = true) :
    Records [] [tally] [.counted tally] := by
  cases tally with
  | received octets => constructor <;> rfl
  | checksumFailure | replayRejection | decryptFailure | connectAttempt => constructor <;> rfl
  | _ => cases h

theorem packing {tally : Tally} (h : tally.isPacking = true) :
    Records [] [] [.counted tally] := by
  cases tally with
  | packingAttempt | packingSuccess => constructor <;> rfl
  | _ => cases h

theorem told {event : Event} (h : event.isUncounted = true) :
    Records [] [] [.raised event] := by
  cases event with
  | connectDenied | disconnected => constructor <;> rfl
  | data contents position => constructor <;> rfl
  | connected clientId => cases h
  | connectionError => cases h

theorem allNotices {tallies : List Tally} (h : ∀ tally ∈ tallies, tally.isNotice = true) :
    Records [] tallies (tallies.map Effect.counted) := by
  induction tallies with
  | nil => exact nil
  | cons tally rest ih =>
      obtain ⟨hfirst, hrest⟩ := List.forall_mem_cons.mp h
      exact (notice hfirst).append (ih hrest)

theorem allPacking {tallies : List Tally} (h : ∀ tally ∈ tallies, tally.isPacking = true) :
    Records [] [] (tallies.map Effect.counted) := by
  induction tallies with
  | nil => exact nil
  | cons tally rest ih =>
      obtain ⟨hfirst, hrest⟩ := List.forall_mem_cons.mp h
      exact (packing hfirst).append (ih hrest)

end Records

end Effects

end GameLink
