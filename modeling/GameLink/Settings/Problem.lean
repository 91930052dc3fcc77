import GameLink.Settings.Basic

/-!
# Questionable settings

What can be found wrong with settings that are well formed, the wording of each finding
and the check that finds them, in the order of the fields.
-/

namespace GameLink
namespace Settings

inductive Problem
  | emptyAddress
  | zeroPort
  | connectTimeoutShort
  | connectTimeoutLong
  | retryIntervalShort
  | keepaliveWithinTick
  | zeroTick
  | tickBeyondTimeout
  | zeroPoll
  | pollLong
  | receiveBufferSmall (octets : UInt64)
  | zeroCompressionThreshold
  | compressionThresholdLarge (octets : UInt64)
  | rekeyBytesSmall
  | rekeyIntervalShort
  | encryptionOff
  | packetsSmall
  | packetsLarge (octets : UInt64)
  | buffersBelowPackets
  | poolLarge (buffers : UInt64)
  | emptyName
  | nameLong (octets : Nat)
deriving DecidableEq, Repr

def Problem.message : Problem → String
  | .emptyAddress => "Server address cannot be empty"
  | .zeroPort => "Server port cannot be 0"
  | .connectTimeoutShort => "Connect timeout too short (minimum: 100ms)"
  | .connectTimeoutLong => "Connect timeout too long (maximum: 300s)"
  | .retryIntervalShort => "Retry interval too short (minimum: 100ms)"
  | .keepaliveWithinTick => "Keep-alive timeout must be longer than the retry tick"
  | .zeroTick => "Retry tick cannot be 0"
  | .tickBeyondTimeout => "Retry tick cannot be longer than the connect timeout"
  | .zeroPoll => "Poll interval cannot be 0"
  | .pollLong => "Poll interval too long (maximum: 100ms)"
  | .receiveBufferSmall octets =>
      "Receive buffer too small: " ++ toString octets.toNat ++ " bytes (minimum: 64 KB)"
  | .zeroCompressionThreshold => "Compression threshold must be greater than 0"
  | .compressionThresholdLarge octets =>
      "Compression threshold " ++ toString octets.toNat
        ++ " exceeds the largest datagram (" ++ toString maxDatagramSize ++ ")"
  | .rekeyBytesSmall => "Rekey byte threshold too small (minimum: 1 MB)"
  | .rekeyIntervalShort => "Rekey interval too short (minimum: 60s)"
  | .encryptionOff => "WARNING: Encryption is disabled - not recommended for production"
  | .packetsSmall => "Max packet size too small (minimum: 64 bytes)"
  | .packetsLarge octets =>
      "Max packet size too large: " ++ toString octets.toNat ++ " bytes (maximum: "
        ++ toString maxDatagramSize ++ ")"
  | .buffersBelowPackets => "Buffer capacity cannot be smaller than max packet size"
  | .poolLarge buffers =>
      "Pool preallocation very high: " ++ toString buffers.toNat
        ++ " buffers (maximum: 4096)"
  | .emptyName => "Application name cannot be empty"
  | .nameLong octets =>
      "Application name too long: " ++ toString octets ++ " characters (maximum: 64)"

end Settings

/-- The first problem of a list of conditions that holds, if any. -/
def firstProblem (cases : List (Bool × Settings.Problem)) : List Settings.Problem :=
  ((cases.find? (·.1)).map (·.2)).toList

def ClientSettings.problems (s : ClientSettings) : List Settings.Problem :=
  firstProblem [(s.serverAddress.isEmpty, .emptyAddress)]
    ++ firstProblem [(s.serverPort == 0, .zeroPort)]
    ++ firstProblem
      [(s.connectTimeout.milliseconds < 100, .connectTimeoutShort),
        (300 < s.connectTimeout.seconds, .connectTimeoutLong)]
    ++ firstProblem
      [(s.retryEnabled && s.retryInterval.milliseconds < 100, .retryIntervalShort)]
    ++ firstProblem [(s.keepaliveTimeout ≤ s.retryTick, .keepaliveWithinTick)]
    ++ firstProblem
      [(s.retryTick == .zero, .zeroTick),
        (s.connectTimeout < s.retryTick, .tickBeyondTimeout)]
    ++ firstProblem
      [(s.pollInterval == .zero, .zeroPoll),
        (100 < s.pollInterval.milliseconds, .pollLong)]
    ++ firstProblem
      [(s.receiveBufferSize < 65536, .receiveBufferSmall s.receiveBufferSize)]

def SecuritySettings.problems (s : SecuritySettings) : List Settings.Problem :=
  firstProblem
    [(s.compressionEnabled && s.compressionThreshold == 0, .zeroCompressionThreshold)]
    ++ firstProblem
      [(maxDatagramSize < s.compressionThreshold.toNat,
        .compressionThresholdLarge s.compressionThreshold)]
    ++ firstProblem [(s.rekeyBytesThreshold < 1048576, .rekeyBytesSmall)]
    ++ firstProblem [(s.rekeyInterval.seconds < 60, .rekeyIntervalShort)]
    ++ firstProblem [(!s.encryptionEnabled, .encryptionOff)]

def PerformanceSettings.problems (s : PerformanceSettings) : List Settings.Problem :=
  firstProblem
    [(s.maxPacketSize < 64, .packetsSmall),
      (maxDatagramSize < s.maxPacketSize.toNat, .packetsLarge s.maxPacketSize)]
    ++ firstProblem [(s.bufferCapacity < s.maxPacketSize, .buffersBelowPackets)]
    ++ firstProblem [(4096 < s.poolPrealloc, .poolLarge s.poolPrealloc)]

/-- The problems of the logging section; the length of a name is counted in octets. -/
def LoggingSettings.problems (s : LoggingSettings) : List Settings.Problem :=
  firstProblem
    [(s.appName.isEmpty, .emptyName),
      (64 < s.appName.utf8ByteSize, .nameLong s.appName.utf8ByteSize)]

namespace Settings

/-- All problems, section by section. -/
def problems (s : Settings) : List Problem :=
  s.client.problems ++ s.security.problems ++ s.performance.problems
    ++ s.logging.problems

end Settings
end GameLink
