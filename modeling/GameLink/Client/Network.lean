import GameLink.Bytes

/-!
# The network around a client

What a client meets outside itself: addresses, datagrams that arrive, and how the
network answers when it is asked for an address, a socket or the carriage of a
datagram.
-/

namespace GameLink

structure Address where
  host : UInt32
  port : UInt16
deriving DecidableEq, Repr

/-- A datagram that reached a socket. -/
structure Arrival where
  sender : Address
  datagram : Bytes
deriving DecidableEq, Repr

/-- An open socket: the datagrams that wait to be read, the oldest first. -/
structure Socket where
  inbox : List Arrival := []
deriving DecidableEq, Repr

/-- How the network answers. -/
structure Network where
  /-- The address of a host and a port, if the host has one. -/
  resolve : String → UInt16 → Option Address
  /-- Whether a socket towards an address can be opened. -/
  opens : Address → Bool
  /-- Whether a datagram to an address is taken.  The number tells occasions apart: it
  counts what the client did before. -/
  carries : Nat → Address → Bytes → Bool

namespace Network

/-- Whether a host name can be looked up at all. -/
def isHostName (host : String) : Bool :=
  !host.toList.contains '\x00'

/-- A network of one host that has every name and takes every datagram to a port but
port zero. -/
def single (host : UInt32) : Network where
  resolve name port := if isHostName name then some ⟨host, port⟩ else none
  opens _ := true
  carries _ peer _ := peer.port != 0

/-- A network in which names have addresses and nothing is carried. -/
def down (host : UInt32) : Network :=
  { single host with carries := fun _ _ _ => false }

end Network
end GameLink
