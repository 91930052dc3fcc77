import GameLink.Failure

/-!
# Settings from the environment

Six settings can be given in variables.  A port that is no port number is an error;
any other value that makes no sense is ignored.
-/

namespace GameLink
namespace Settings

/-- The value of each variable that is set. -/
abbrev Environment := String → Option String

/-- The natural number of 64 bits in a variable, if it holds one. -/
def naturalIn? (env : Environment) (name : String) : Option Nat :=
  match (env name).map (readNumeral UInt64.size) with
  | some (.ok n) => some n
  | _ => none

/-- The yes or no in a variable, if it holds one. -/
def flagIn? (env : Environment) (name : String) : Option Bool :=
  match env name with
  | some text => if text = "true" then some true else if text = "false" then some false else none
  | none => none

/-- The port in the environment, or the one given. -/
def portIn (env : Environment) (port : UInt16) : Except Failure UInt16 :=
  match env "TOS_NET_SERVER_PORT" with
  | none => .ok port
  | some text =>
      match readNumeral UInt16.size text with
      | .ok n => .ok (UInt16.ofNat n)
      | .error fault => .error (.settings (.environmentPort text fault))

/-- The default settings with what the environment sets. -/
def ofEnvironment (env : Environment) : Except Failure Settings := do
  let client : ClientSettings := {}
  let security : SecuritySettings := {}
  let port ← portIn env client.serverPort
  let duration (name : String) (d : Duration) : Duration :=
    ((naturalIn? env name).map Duration.ofMilliseconds).getD d
  .ok
    { client :=
        { client with
          serverAddress := (env "TOS_NET_SERVER_ADDRESS").getD client.serverAddress
          serverPort := port
          connectTimeout := duration "TOS_NET_CONNECT_TIMEOUT_MS" client.connectTimeout
          retryInterval := duration "TOS_NET_RETRY_INTERVAL_MS" client.retryInterval
          retryEnabled :=
            (flagIn? env "TOS_NET_RETRY_ENABLED").getD client.retryEnabled }
      security :=
        { security with
          encryptionEnabled :=
            (flagIn? env "TOS_NET_ENCRYPTION_ENABLED").getD security.encryptionEnabled } }

end Settings
end GameLink
