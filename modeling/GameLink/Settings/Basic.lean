import GameLink.Duration
import GameLink.Settings.Numeral

/-!
# Settings

What can be set about a client link, in four sections, with the values that hold where
nothing is set.
-/

namespace GameLink

/-- How much is logged, the most first. -/
inductive LogLevel
  | trace
  | debug
  | info
  | warn
  | error
deriving DecidableEq, Repr

/-- Timing of a link and the server it leads to. -/
structure ClientSettings where
  serverAddress : String := "127.0.0.1"
  serverPort : UInt16 := 3565
  /-- How long an attempt may take. -/
  connectTimeout : Duration := .ofSeconds 3
  /-- How long after a failed attempt the next one begins. -/
  retryInterval : Duration := .ofSeconds 10
  /-- Whether failed attempts are repeated. -/
  retryEnabled : Bool := false
  /-- How long a silent peer is waited for. -/
  keepaliveTimeout : Duration := .ofSeconds 15
  /-- The period in which timeouts and retries are looked at. -/
  retryTick : Duration := .ofMilliseconds 100
  /-- The pause between two looks at the socket. -/
  pollInterval : Duration := .ofMilliseconds 1
  /-- The receive buffer that the socket is asked for. -/
  receiveBufferSize : UInt64 := 2097152
deriving DecidableEq, Repr

structure SecuritySettings where
  encryptionEnabled : Bool := true
  compressionEnabled : Bool := true
  /-- Sealed payloads longer than this are packed. -/
  compressionThreshold : UInt64 := 512
  /-- Whether integrity challenges are answered. -/
  integrityCheckEnabled : Bool := true
  /-- How many octets are sealed before new keys are due. -/
  rekeyBytesThreshold : UInt64 := 1073741824
  /-- How old keys may become before new ones are due. -/
  rekeyInterval : Duration := .ofSeconds 3600
deriving DecidableEq, Repr

structure PerformanceSettings where
  /-- The largest datagram that is sent. -/
  maxPacketSize : UInt64 := 1200
  /-- How many buffers the pool starts with. -/
  poolPrealloc : UInt64 := 32
  /-- The capacity of a pooled buffer. -/
  bufferCapacity : UInt64 := 1500
deriving DecidableEq, Repr

structure LoggingSettings where
  appName : String := "tos-net"
  logLevel : LogLevel := .info
  jsonFormat : Bool := false
deriving DecidableEq, Repr

structure Settings where
  client : ClientSettings := {}
  security : SecuritySettings := {}
  performance : PerformanceSettings := {}
  logging : LoggingSettings := {}
deriving DecidableEq, Repr

/-- The largest datagram that a socket carries. -/
def maxDatagramSize : Nat := 65507

namespace LogLevel

/-- All levels, the one with number 1 first. -/
def all : List LogLevel :=
  [.error, .warn, .info, .debug, .trace]

def name : LogLevel → String
  | .trace => "trace"
  | .debug => "debug"
  | .info => "info"
  | .warn => "warn"
  | .error => "error"

/-- The level with a number from 1 to 5, or with a name in letters of any case. -/
def ofText? (text : String) : Option LogLevel :=
  match Settings.readNumeral UInt64.size text with
  | .ok number => if number = 0 then none else all[number - 1]?
  | .error _ => all.find? fun level => level.name == text.toLower

theorem ofText?_name (level : LogLevel) : ofText? level.name = some level := by
  cases level <;> decide +kernel

end LogLevel
end GameLink
