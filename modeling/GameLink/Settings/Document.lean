import GameLink.Failure
import GameLink.Settings.Field
import GameLink.Text.Utf8

/-!
# Settings as a document

Settings written as a document of four tables and read back, in a given text format.  A table
that is missing leaves its section at the default; a table that is there must have all its fields.
-/

namespace GameLink

def ClientSettings.fields : List (Settings.Field ClientSettings) :=
  [.of "server_address" .text (·.serverAddress) fun s v => { s with serverAddress := v },
    .of "server_port" .port (·.serverPort) fun s v => { s with serverPort := v },
    .of "connect_timeout" .milliseconds (·.connectTimeout)
      fun s v => { s with connectTimeout := v },
    .of "retry_interval" .milliseconds (·.retryInterval)
      fun s v => { s with retryInterval := v },
    .of "retry_enabled" .flag (·.retryEnabled) fun s v => { s with retryEnabled := v },
    .of "keepalive_timeout" .milliseconds (·.keepaliveTimeout)
      fun s v => { s with keepaliveTimeout := v },
    .of "retry_tick" .milliseconds (·.retryTick) fun s v => { s with retryTick := v },
    .of "poll_interval" .milliseconds (·.pollInterval)
      fun s v => { s with pollInterval := v },
    .of "recv_buffer_size" .size (·.receiveBufferSize)
      fun s v => { s with receiveBufferSize := v }]

def SecuritySettings.fields : List (Settings.Field SecuritySettings) :=
  [.of "encryption_enabled" .flag (·.encryptionEnabled)
      fun s v => { s with encryptionEnabled := v },
    .of "compression_enabled" .flag (·.compressionEnabled)
      fun s v => { s with compressionEnabled := v },
    .of "compression_threshold" .size (·.compressionThreshold)
      fun s v => { s with compressionThreshold := v },
    .of "integrity_check_enabled" .flag (·.integrityCheckEnabled)
      fun s v => { s with integrityCheckEnabled := v },
    .of "rekey_bytes_threshold" .size (·.rekeyBytesThreshold)
      fun s v => { s with rekeyBytesThreshold := v },
    .of "rekey_interval" .milliseconds (·.rekeyInterval)
      fun s v => { s with rekeyInterval := v }]

def PerformanceSettings.fields : List (Settings.Field PerformanceSettings) :=
  [.of "max_packet_size" .size (·.maxPacketSize) fun s v => { s with maxPacketSize := v },
    .of "pool_prealloc" .size (·.poolPrealloc) fun s v => { s with poolPrealloc := v },
    .of "buffer_capacity" .size (·.bufferCapacity)
      fun s v => { s with bufferCapacity := v }]

def LoggingSettings.fields (format : TextFormat) : List (Settings.Field LoggingSettings) :=
  [.of "app_name" .text (·.appName) fun s v => { s with appName := v },
    .of "log_level" (.level format) (·.logLevel) fun s v => { s with logLevel := v },
    .of "json_format" .flag (·.jsonFormat) fun s v => { s with jsonFormat := v }]

namespace Settings

/-- Reads one table of a document; a table that is no section is ignored. -/
def readTable (format : TextFormat) (s : Settings) (entry : String × Toml.Value) :
    Except TextFault Settings :=
  if entry.1 = "client" then
    (readSection ClientSettings.fields {} entry.2).map fun v => { s with client := v }
  else if entry.1 = "security" then
    (readSection SecuritySettings.fields {} entry.2).map fun v => { s with security := v }
  else if entry.1 = "performance" then
    (readSection PerformanceSettings.fields {} entry.2).map
      fun v => { s with performance := v }
  else if entry.1 = "logging" then
    (readSection (LoggingSettings.fields format) {} entry.2).map
      fun v => { s with logging := v }
  else
    .ok s

/-- The settings in the entries of a document. -/
def ofEntries (format : TextFormat) (entries : Toml.Entries) : Except TextFault Settings :=
  entries.foldlM (readTable format) {}

def ofText (format : TextFormat) (text : String) : Except Failure Settings :=
  match format.parse? text with
  | none => .error (.settings (.parse .syntaxError))
  | some entries =>
      match ofEntries format entries with
      | .ok s => .ok s
      | .error fault => .error (.settings (.parse fault))

def tables (format : TextFormat) (s : Settings) : List Toml.NamedTable :=
  [writeSection "client" ClientSettings.fields s.client,
    writeSection "security" SecuritySettings.fields s.security,
    writeSection "performance" PerformanceSettings.fields s.performance,
    writeSection "logging" (LoggingSettings.fields format) s.logging]

def toText (format : TextFormat) (s : Settings) : Except Failure String :=
  match format.print? (s.tables format) with
  | some text => .ok text
  | none => .error (.settings .unprintable)

/-- The settings in a file, given its content if it exists. -/
def load (format : TextFormat) (file : Option Bytes) : Except Failure Settings :=
  match file with
  | none => .error (.settings (.openFile .notFound))
  | some content =>
      match Utf8.decode? content with
      | none => .error (.settings (.readFile .notText))
      | some text => ofText format text

/-- The content of the file that stores settings, in a directory that may be missing. -/
def save (format : TextFormat) (s : Settings) (directoryExists : Bool) :
    Except Failure Bytes := do
  let text ← s.toText format
  if directoryExists then .ok (Utf8.encode text)
  else .error (.settings (.writeFile .notFound))

/-- The settings if nothing is wrong with them. -/
def checked (s : Settings) : Except Failure Settings :=
  if s.problems = [] then .ok s else .error (.settings (.invalid s.problems))

end Settings
end GameLink
