import GameLink.Client.Network
import GameLink.Session.Basic
import GameLink.Settings.Basic

/-!
# State of a link

What a client keeps about the link to its server.

**States.** A link is `disconnected`, `connecting` while an attempt waits for its
answer, `connected` after an acceptance, or `connectionFailed` until the next attempt.
-/

namespace GameLink

/-- Where a link stands. -/
inductive LinkStatus
  | disconnected
  | connecting
  | connected
  | connectionFailed
deriving DecidableEq, Repr

structure Link where
  status : LinkStatus := .disconnected
  /-- Grows with every attempt and every teardown; an attempt that finds another number
  than its own was overtaken.  It stands for a counter of 64 bits, which no link runs through. -/
  generation : Nat := 0
  /-- Host and port of the last attempt. -/
  target : Option (String × UInt16) := none
  /-- The address of the server of this attempt. -/
  remote : Option Address := none
  /-- How many retries were issued since the last call to connect.  The count wraps around. -/
  retryCount : UInt32 := 0
  clientId : Option UInt32 := none
  /-- Since when the link is connecting or has failed. -/
  phaseStarted : Moment
  /-- When the peer was last heard. -/
  lastActivity : Moment
  /-- The key pair of this attempt, until its acceptance. -/
  keyPair : Option KeyPair := none
  /-- Whether this attempt has answered a cookie. -/
  cookieAnswered : Bool := false
  connectTimeout : Duration
  retryInterval : Duration
  retryEnabled : Bool
deriving DecidableEq

namespace Link

/-- A link that was never used. -/
def idle (settings : ClientSettings) (now : Moment) : Link where
  phaseStarted := now
  lastActivity := now
  connectTimeout := settings.connectTimeout
  retryInterval := settings.retryInterval
  retryEnabled := settings.retryEnabled

/-- The link in another state from now on. -/
def enter (l : Link) (status : LinkStatus) (now : Moment) : Link :=
  { l with status, phaseStarted := now }

/-- The link at the beginning of an attempt. -/
def begin (l : Link) (host : String) (port : UInt16) (isRetry : Bool) (now : Moment) :
    Link :=
  { l with
    status := .connecting
    phaseStarted := now
    generation := l.generation + 1
    target := some (host, port)
    retryCount := if isRetry then l.retryCount else 0
    clientId := none
    remote := none
    keyPair := none
    cookieAnswered := false
    lastActivity := now }

/-- The link after the socket was given up. -/
def drop (l : Link) (now : Moment) : Link :=
  { l with
    status := .disconnected
    phaseStarted := now
    generation := l.generation + 1
    clientId := none
    remote := none }

/-- Whether an attempt may begin.  A retry only follows a failure, so that it gives way
to a call that came in between. -/
def mayBegin (l : Link) (isRetry : Bool) : Bool :=
  if isRetry then l.status = .connectionFailed
  else l.status = .disconnected ∨ l.status = .connectionFailed

end Link
end GameLink
