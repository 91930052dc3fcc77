import GameLink.Client.Run

/-!
# Sending in parts

A call to send looks for its way to the server, makes a datagram and hands it to the socket.  It
may pause in between, and others go on meanwhile.

**Parts.** The status of the link, the address of the server and the socket are looked at one
after the other.  These looks leave the client as it is.  Only then the datagram is made, sealed
if there is a session at that moment, and held in a parcel.  The last part hands it to the socket
and gives a pooled buffer back.

**Results.** A call that is never paused does what the whole call does (`advanceSendingBy_four`,
`carryOut_data`, `carryOut_ack`).
-/

namespace GameLink

/-- What a call to send is asked to send. -/
inductive OutgoingMessage
  /-- The contents of a tagged buffer. -/
  | data (contents : Bytes)
  | ack (sequence : UInt16)
deriving DecidableEq

/-- What a call answers that finds no way to the server. -/
def OutgoingMessage.unrouted : OutgoingMessage → Except Failure Unit
  | .data _ => .ok ()
  | .ack _ => .error (.invalidState .socketClosed)

/-- What holds a datagram until the socket has answered. -/
inductive Parcel
  | sealed (datagram : Bytes)
  | pooled (b : Buffer)
deriving DecidableEq

def Parcel.datagram : Parcel → Bytes
  | .sealed datagram => datagram
  | .pooled b => b.contents

/-- A datagram that waits for the socket. -/
structure Posting where
  message : OutgoingMessage
  remote : Address
  parcel : Parcel
deriving DecidableEq

/-- How far a call to send has come. -/
inductive SendingProgress
  /-- The link was found up. -/
  | connected (contents : Bytes)
  /-- The address of the server was found. -/
  | addressed (message : OutgoingMessage) (remote : Address)
  /-- The socket was found. -/
  | routed (message : OutgoingMessage) (remote : Address)
  | waiting (posting : Posting)
  | returned (result : Except Failure Unit)

/-- A call after its datagram was made, or not. -/
def SendingProgress.ofPrepared : Except Failure Posting → SendingProgress
  | .error failure => .returned (.error failure)
  | .ok posting => .waiting posting

namespace Client

/-- The look for the address of the server. -/
def findRemote (c : Client) (message : OutgoingMessage) : SendingProgress :=
  match c.link.remote with
  | none => .returned message.unrouted
  | some remote => .addressed message remote

/-- The look for the socket. -/
def findSocket (c : Client) (message : OutgoingMessage) (remote : Address) : SendingProgress :=
  if c.socket.isSome then .routed message remote else .returned message.unrouted

/-- The first part of a call to send. -/
def beginSending (c : Client) : OutgoingMessage → SendingProgress
  | .data contents =>
      if contents = [] ∨ c.link.status ≠ .connected then
        .returned (.ok ())
      else
        .connected contents
  | .ack sequence => c.findRemote (.ack sequence)

/-- Makes the datagram of a call to send. -/
def prepare (c : Client) (remote : Address) :
    OutgoingMessage → Except Failure Posting × Client
  | .data contents =>
      match c.sealOutbound contents with
      | (.error failure, c) => (.error failure, c)
      | (.ok (some datagram), c) => (.ok ⟨.data contents, remote, .sealed datagram⟩, c)
      | (.ok none, c) =>
          match c.signed contents with
          | (.error failure, c) => (.error failure, c)
          | (.ok b, c) => (.ok ⟨.data contents, remote, .pooled b⟩, c)
  | .ack sequence =>
      let (b, pool) := c.pool.acquire thread
      let b := ((Packet.ack sequence).encode b).sign
      (.ok ⟨.ack sequence, remote, .pooled b⟩, { c with pool })

/-- The client after a parcel is not needed any more. -/
def unpack (c : Client) : Parcel → Client
  | .sealed _ => c
  | .pooled b => c.recycle b

/-- The last part of a call to send. -/
def finishSending (net : Network) (c : Client) (posting : Posting) :
    Except Failure Unit × Client :=
  let (result, c) := c.transmit net posting.remote posting.parcel.datagram
  (result, c.unpack posting.parcel)

/-- Takes the next part of a call to send. -/
def advanceSending (net : Network) (c : Client) : SendingProgress → SendingProgress × Client
  | .connected contents => (c.findRemote (.data contents), c)
  | .addressed message remote => (c.findSocket message remote, c)
  | .routed message remote =>
      let (made, c) := c.prepare remote message
      (.ofPrepared made, c)
  | .waiting posting =>
      let (result, c) := c.finishSending net posting
      (.returned result, c)
  | .returned result => (.returned result, c)

/-- Takes a number of parts of a call to send without a pause. -/
def advanceSendingBy (net : Network) :
    Nat → SendingProgress × Client → SendingProgress × Client
  | 0, x => x
  | n + 1, x => advanceSendingBy net n (x.2.advanceSending net x.1)

/-- Where a message goes, if there is a way to the server all the time. -/
def way? (c : Client) : OutgoingMessage → Option Address
  | .data contents => if contents = [] ∨ c.link.status ≠ .connected then none else c.route
  | .ack _ => c.route

/-- A call to send without a pause. -/
def carryOut (net : Network) (c : Client) (message : OutgoingMessage) :
    Except Failure Unit × Client :=
  match c.way? message with
  | none => (message.unrouted, c)
  | some remote =>
      match c.prepare remote message with
      | (.error failure, c) => (.error failure, c)
      | (.ok posting, c) => c.finishSending net posting

variable {net : Network} {c : Client}

theorem advanceSendingBy_returned (n : Nat) (result : Except Failure Unit) :
    advanceSendingBy net n (.returned result, c) = (.returned result, c) := by
  induction n with
  | zero => rfl
  | succ n ih => exact ih

/-- From the look for the address on there are three parts. -/
theorem advanceSendingBy_findRemote {message : OutgoingMessage} (hway : c.way? message = c.route)
    (n : Nat) :
    advanceSendingBy net (n + 3) (c.findRemote message, c) =
      (.returned (c.carryOut net message).1, (c.carryOut net message).2) := by
  simp only [carryOut, hway, findRemote, route]
  cases c.link.remote with
  | none =>
      simp only [ite_self]
      exact advanceSendingBy_returned (n + 3) _
  | some remote =>
      by_cases hsocket : c.socket.isSome = true
      · simp only [if_pos hsocket, advanceSendingBy, advanceSending, findSocket]
        rcases c.prepare remote message with ⟨failure | posting, after⟩
        · exact advanceSendingBy_returned n _
        · exact advanceSendingBy_returned n _
      · simp only [if_neg hsocket, advanceSendingBy, advanceSending, findSocket]
        exact advanceSendingBy_returned n _

/-- A call that is never paused takes all its parts. -/
theorem advanceSendingBy_four (message : OutgoingMessage) :
    advanceSendingBy net 4 (c.beginSending message, c) =
      (.returned (c.carryOut net message).1, (c.carryOut net message).2) := by
  cases message with
  | ack sequence => exact advanceSendingBy_findRemote rfl 1
  | data contents =>
      by_cases hidle : contents = [] ∨ c.link.status ≠ .connected
      · simp only [beginSending, carryOut, way?, if_pos hidle]
        exact advanceSendingBy_returned 4 _
      · have hway : c.way? (.data contents) = c.route := if_neg hidle
        simp only [beginSending, if_neg hidle]
        exact advanceSendingBy_findRemote hway 0

/-- Sending data without a pause is the whole of it. -/
theorem carryOut_data (contents : Bytes) :
    c.carryOut net (.data contents) = c.send net contents := by
  simp only [carryOut, way?, prepare, send]
  by_cases hidle : contents = [] ∨ c.link.status ≠ .connected
  · simp only [if_pos hidle]
    rfl
  · simp only [if_neg hidle]
    cases c.route with
    | none => rfl
    | some remote =>
        dsimp only
        rcases c.sealOutbound contents with ⟨failure | _ | datagram, after⟩
        · rfl
        · dsimp only
          rcases after.signed contents with ⟨failure | b, last⟩
          · rfl
          · rfl
        · rfl

/-- Acknowledging without a pause is the whole of it. -/
theorem carryOut_ack (sequence : UInt16) :
    c.carryOut net (.ack sequence) = c.sendAck net sequence := by
  simp only [carryOut, way?, prepare, sendAck]
  cases c.route with
  | none => rfl
  | some remote => rfl

end Client
end GameLink
