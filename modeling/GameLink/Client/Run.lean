import GameLink.Client.Worker

/-!
# Runs of a client

What can happen to a client, one thing after another: calls of the application, turns of
its workers, datagrams that arrive and time that passes.  Each meets the network as it
is at that moment.
-/

namespace GameLink

/-- Something that happens to a client. -/
inductive Action
  | connect (host : String) (port : UInt16)
  /-- Connects to the server of the settings. -/
  | connectConfigured
  | disconnect
  /-- Sends the contents of a tagged buffer. -/
  | send (contents : Bytes)
  | sendAck (sequence : UInt16)
  | renewKeys
  | setConnectTimeout (timeout : Duration)
  | setRetryInterval (interval : Duration)
  | setRetryEnabled (enabled : Bool)
  /-- A datagram reaches the socket. -/
  | deliver (arrival : Arrival)
  /-- Time passes; no worker takes a turn. -/
  | elapse (time : Duration)
  | retryTurn
  /-- A retry that was decided on is carried out. -/
  | reconnect
  | pollTurn

namespace Client

/-- What an action answers and makes of a client. -/
def act (net : Network) (c : Client) : Action → Except Failure Unit × Client
  | .connect host port => c.connect net host port
  | .connectConfigured => c.connectConfigured net
  | .disconnect => (.ok (), c.disconnect)
  | .send contents => c.send net contents
  | .sendAck sequence => c.sendAck net sequence
  | .renewKeys => c.renewKeys
  | .setConnectTimeout timeout => (.ok (), c.setConnectTimeout timeout)
  | .setRetryInterval interval => (.ok (), c.setRetryInterval interval)
  | .setRetryEnabled enabled => (.ok (), c.setRetryEnabled enabled)
  | .deliver arrival => (.ok (), c.deliver arrival)
  | .elapse time => (.ok (), { c with now := c.now + time })
  | .retryTurn => (.ok (), c.retryTurn)
  | .reconnect => (.ok (), c.reconnect net)
  | .pollTurn => (.ok (), c.pollTurn net)

/-- What a list of actions makes of a client. -/
def run (c : Client) (actions : List (Network × Action)) : Client :=
  actions.foldl (fun c action => (c.act action.1 action.2).2) c

@[simp] theorem run_nil (c : Client) : c.run [] = c := by
  rfl

@[simp] theorem run_cons (c : Client) (net : Network) (action : Action)
    (rest : List (Network × Action)) :
    c.run ((net, action) :: rest) = (c.act net action).2.run rest := by
  rfl

theorem run_append (c : Client) (first second : List (Network × Action)) :
    c.run (first ++ second) = (c.run first).run second := by
  simp [run]

end Client
end GameLink
