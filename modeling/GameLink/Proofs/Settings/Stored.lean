import GameLink.Proofs.Text.Utf8
import GameLink.Proofs.Toml.Document
import GameLink.Settings.Document
import Mathlib.Algebra.Ring.Nat

/-!
# Stored settings are loaded

Settings that are stored are loaded with every value as it was written.  A duration is written
as a number of milliseconds of which sixty-four bits are kept, so it is loaded without the part
below a millisecond and without what does not fit.

**Text formats.**  Nothing is known of the text but what a faithful format promises: what was
printed is parsed back, a number beyond sixty-three bits is not printed, and the name of a log level
is read as that level.

**Results.**
* `readSection_writtenTable`: a section is read field by field from what was written.
* `isPrintable_of_save`: what is not stored.
* `load_save`: what is loaded.
* `faithful_toml`: there is such a format, and it prints all that may be printed.
-/

namespace GameLink

/-- What is known of a text format. -/
structure TextFormat.Faithful (format : TextFormat) : Prop where
  /-- The parser is the inverse of the printer on every document that is printed. -/
  parse_print : ∀ tables text, (∀ t ∈ tables, t.IsPlain) → (tables.map (·.name)).Nodup →
    format.print? tables = some text → format.parse? text = some (tables.map Toml.NamedTable.entry)
  /-- Numbers beyond sixty-three bits are not printed. -/
  print_fails : ∀ tables, (∃ t ∈ tables, ∃ entry ∈ t.entries, ∃ n : Nat,
    entry.2 = .integer n ∧ 2 ^ 63 - 1 < n) → format.print? tables = none
  readLevel_name : ∀ level : LogLevel, format.readLevel? level.name = some level

namespace Duration

/-- The number of milliseconds that is written. -/
def written (d : Duration) : Nat :=
  d.milliseconds % 2 ^ 64

/-- The duration that is read. -/
def stored (d : Duration) : Duration :=
  .ofMilliseconds d.written

end Duration

namespace Settings

section Sections

variable {S : Type} {fields : List (Field S)}

/-- A field is found by its name. -/
theorem find?_name {field : Field S} (hnames : (fields.map (·.name)).Nodup) (h : field ∈ fields) :
    fields.find? (fun other => other.name == field.name) = some field := by
  induction fields with
  | nil => exact absurd h List.not_mem_nil
  | cons first fields ih =>
      rw [List.map_cons, List.nodup_cons] at hnames
      rcases List.mem_cons.mp h with rfl | hmem
      · exact List.find?_cons_of_pos (beq_self_eq_true _)
      · have hother : (first.name == field.name) = false := by
          rw [beq_eq_false_iff_ne]
          intro heq
          exact hnames.1 (heq ▸ List.mem_map_of_mem hmem)
        simp only [List.find?_cons, hother]
        exact ih hnames.2 hmem

/-- The entries of a written section. -/
def writtenEntries (fields : List (Field S)) (s : S) : Toml.Entries :=
  fields.map fun field => (field.name, .scalar (field.write s))

/-- A written section as it is read. -/
def writtenTable (fields : List (Field S)) (s : S) : Toml.Value :=
  .table .header (writtenEntries fields s)

theorem entry_writeSection (name : String) (s : S) :
    (writeSection name fields s).entry = (name, writtenTable fields s) := by
  rw [Toml.NamedTable.entry, writeSection, List.map_map]
  rfl

/-- Each field of a section is read from what was written for it. -/
def reread (fields : List (Field S)) (start s : S) : Except TextFault S :=
  fields.foldlM (fun loaded field => field.read loaded (field.write s)) start

theorem foldlM_readEntry (hnames : (fields.map (·.name)).Nodup) (start s : S)
    {chosen : List (Field S)} (hchosen : ∀ field ∈ chosen, field ∈ fields) :
    (writtenEntries chosen s).foldlM (readEntry fields) start = reread chosen start s := by
  induction chosen generalizing start with
  | nil => rfl
  | cons field chosen ih =>
      rw [List.forall_mem_cons] at hchosen
      rw [writtenEntries, List.map_cons, List.foldlM_cons, reread, List.foldlM_cons, readEntry,
        find?_name hnames hchosen.1]
      exact congrArg _ (funext fun loaded => ih loaded hchosen.2)

theorem find?_missing (s : S) :
    (fields.find? fun field => ((writtenEntries fields s).lookup field.name).isNone) = none := by
  rw [List.find?_eq_none]
  intro field hmem hnone
  rw [Option.isNone_iff_eq_none, List.lookup_eq_none_iff] at hnone
  have hentry : (field.name, Toml.Value.scalar (field.write s)) ∈ writtenEntries fields s :=
    List.mem_map_of_mem hmem
  have hother := hnone _ hentry
  rw [bne_self_eq_false] at hother
  cases hother

/-- A section is read field by field from what was written. -/
theorem readSection_writtenTable (hnames : (fields.map (·.name)).Nodup) (start s : S) :
    readSection fields start (writtenTable fields s) = reread fields start s := by
  rw [writtenTable, readSection, readEntries, foldlM_readEntry hnames start s fun _ h => h]
  simp only [find?_missing]
  exact bind_pure (reread fields start s)

end Sections

section Values

/-- A field is read as its codec reads what it writes. -/
theorem Field.read_write {S α : Type} {codec : Codec α} {stored : α → α}
    (h : ∀ value, codec.read (codec.write value) = .ok (stored value)) (name : String)
    (get : S → α) (set : S → α → S) (loaded s : S) :
    (Field.of name codec get set).read loaded ((Field.of name codec get set).write s) =
      .ok (set loaded (stored (get s))) := by
  change (codec.read (codec.write (get s))).map (set loaded) = _
  rw [h]
  rfl

namespace Codec

theorem read_text (value : String) : text.read (text.write value) = .ok value :=
  rfl

theorem read_flag (value : Bool) : flag.read (flag.write value) = .ok value :=
  rfl

theorem readNatural_integer {limit n : Nat} (h : n < limit) :
    readNatural limit (.integer n) = .ok n :=
  if_pos ⟨Int.natCast_nonneg n, Int.ofNat_lt.mpr h⟩

theorem port_read (scalar : Toml.Scalar) :
    port.read scalar = (readNatural UInt16.size scalar).map UInt16.ofNat :=
  rfl

theorem port_write (value : UInt16) : port.write value = .integer value.toNat :=
  rfl

theorem read_port (value : UInt16) : port.read (port.write value) = .ok value := by
  rw [port_read, port_write, readNatural_integer (UInt16.toNat_lt_size value)]
  exact congrArg Except.ok UInt16.ofNat_toNat

theorem size_read (scalar : Toml.Scalar) :
    size.read scalar = (readNatural UInt64.size scalar).map UInt64.ofNat :=
  rfl

theorem size_write (value : UInt64) : size.write value = .integer value.toNat :=
  rfl

theorem read_size (value : UInt64) : size.read (size.write value) = .ok value := by
  rw [size_read, size_write, readNatural_integer (UInt64.toNat_lt_size value)]
  exact congrArg Except.ok UInt64.ofNat_toNat

theorem milliseconds_read (scalar : Toml.Scalar) :
    milliseconds.read scalar = (readNatural UInt64.size scalar).map Duration.ofMilliseconds :=
  rfl

theorem milliseconds_write (value : Duration) :
    milliseconds.write value = .integer value.written :=
  congrArg (fun n : Nat => Toml.Scalar.integer n) UInt64.toNat_ofNat'

theorem read_milliseconds (value : Duration) :
    milliseconds.read (milliseconds.write value) = .ok value.stored := by
  have hfits : value.written < UInt64.size := Nat.mod_lt _ (Nat.two_pow_pos 64)
  rw [milliseconds_read, milliseconds_write, readNatural_integer hfits]
  rfl

theorem read_level {format : TextFormat} (hformat : format.Faithful) (value : LogLevel) :
    (level format).read ((level format).write value) = .ok value := by
  simp only [level, hformat.readLevel_name]

end Codec

end Values

section Printable

/-- The settings with each duration changed. -/
def mapDurations (f : Duration → Duration) (s : Settings) : Settings :=
  { s with
    client :=
      { s.client with
        connectTimeout := f s.client.connectTimeout
        retryInterval := f s.client.retryInterval
        keepaliveTimeout := f s.client.keepaliveTimeout
        retryTick := f s.client.retryTick
        pollInterval := f s.client.pollInterval }
    security := { s.security with rekeyInterval := f s.security.rekeyInterval } }

/-- The settings that are loaded where some were stored. -/
def stored (s : Settings) : Settings :=
  s.mapDurations Duration.stored

/-- All numbers that settings are written with. -/
def numbers (s : Settings) : List Nat :=
  [s.client.serverPort.toNat, s.client.connectTimeout.written, s.client.retryInterval.written,
    s.client.keepaliveTimeout.written, s.client.retryTick.written, s.client.pollInterval.written,
    s.client.receiveBufferSize.toNat, s.security.compressionThreshold.toNat,
    s.security.rekeyBytesThreshold.toNat, s.security.rekeyInterval.written,
    s.performance.maxPacketSize.toNat, s.performance.poolPrealloc.toNat,
    s.performance.bufferCapacity.toNat]

/-- Whether all numbers fit the text format. -/
def IsPrintable (s : Settings) : Prop :=
  ∀ n ∈ s.numbers, n < 2 ^ 63

instance (s : Settings) : Decidable s.IsPrintable :=
  inferInstanceAs (Decidable (∀ n ∈ s.numbers, n < 2 ^ 63))

end Printable

section Reading

variable {format : TextFormat}

/-- No section has two fields of one name. -/
theorem names_distinct (format : TextFormat) :
    (ClientSettings.fields.map (·.name)).Nodup ∧ (SecuritySettings.fields.map (·.name)).Nodup ∧
    (PerformanceSettings.fields.map (·.name)).Nodup ∧
    ((LoggingSettings.fields format).map (·.name)).Nodup := by
  have hlogging : (LoggingSettings.fields format).map (·.name) =
      ["app_name", "log_level", "json_format"] := rfl
  rw [hlogging]
  decide

theorem ok_bind {α β : Type} (a : α) (f : α → Except TextFault β) :
    (Except.ok a >>= f) = f a :=
  rfl

theorem readSection_client (s : Settings) :
    readSection ClientSettings.fields {} (writtenTable ClientSettings.fields s.client) =
      .ok s.stored.client := by
  rw [readSection_writtenTable (names_distinct .toml).1]
  simp only [reread, ClientSettings.fields, List.foldlM_cons, List.foldlM_nil,
    Field.read_write Codec.read_text, Field.read_write Codec.read_port,
    Field.read_write Codec.read_milliseconds, Field.read_write Codec.read_flag,
    Field.read_write Codec.read_size, ok_bind]
  rfl

theorem readSection_security (s : Settings) :
    readSection SecuritySettings.fields {} (writtenTable SecuritySettings.fields s.security) =
      .ok s.stored.security := by
  rw [readSection_writtenTable (names_distinct .toml).2.1]
  simp only [reread, SecuritySettings.fields, List.foldlM_cons, List.foldlM_nil,
    Field.read_write Codec.read_milliseconds, Field.read_write Codec.read_flag,
    Field.read_write Codec.read_size, ok_bind]
  rfl

theorem readSection_performance (s : Settings) :
    readSection PerformanceSettings.fields {}
        (writtenTable PerformanceSettings.fields s.performance) =
      .ok s.stored.performance := by
  rw [readSection_writtenTable (names_distinct .toml).2.2.1]
  simp only [reread, PerformanceSettings.fields, List.foldlM_cons, List.foldlM_nil,
    Field.read_write Codec.read_size, ok_bind]
  rfl

theorem readSection_logging (hformat : format.Faithful) (s : Settings) :
    readSection (LoggingSettings.fields format) {}
        (writtenTable (LoggingSettings.fields format) s.logging) =
      .ok s.stored.logging := by
  rw [readSection_writtenTable (names_distinct format).2.2.2]
  simp only [reread, LoggingSettings.fields, List.foldlM_cons, List.foldlM_nil,
    Field.read_write Codec.read_text, Field.read_write (Codec.read_level hformat),
    Field.read_write Codec.read_flag, ok_bind]
  rfl

/-- Each table goes into its section. -/
theorem readTable_named (format : TextFormat) (loaded : Settings) (value : Toml.Value) :
    readTable format loaded ("client", value) =
      (readSection ClientSettings.fields {} value).map (fun v => { loaded with client := v }) ∧
    readTable format loaded ("security", value) =
      (readSection SecuritySettings.fields {} value).map (fun v => { loaded with security := v }) ∧
    readTable format loaded ("performance", value) =
      (readSection PerformanceSettings.fields {} value).map
        (fun v => { loaded with performance := v }) ∧
    readTable format loaded ("logging", value) =
      (readSection (LoggingSettings.fields format) {} value).map
        (fun v => { loaded with logging := v }) :=
  ⟨rfl, rfl, rfl, rfl⟩

theorem readTable_written (hformat : format.Faithful) (s loaded : Settings) :
    readTable format loaded ("client", writtenTable ClientSettings.fields s.client) =
      .ok { loaded with client := s.stored.client } ∧
    readTable format loaded ("security", writtenTable SecuritySettings.fields s.security) =
      .ok { loaded with security := s.stored.security } ∧
    readTable format loaded ("performance", writtenTable PerformanceSettings.fields s.performance) =
      .ok { loaded with performance := s.stored.performance } ∧
    readTable format loaded ("logging", writtenTable (LoggingSettings.fields format) s.logging) =
      .ok { loaded with logging := s.stored.logging } := by
  refine ⟨?client, ?security, ?performance, ?logging⟩
  case client =>
    rw [(readTable_named _ _ _).1, readSection_client]
    rfl
  case security =>
    rw [(readTable_named _ _ _).2.1, readSection_security]
    rfl
  case performance =>
    rw [(readTable_named _ _ _).2.2.1, readSection_performance]
    rfl
  case logging =>
    rw [(readTable_named _ _ _).2.2.2, readSection_logging hformat]
    rfl

theorem ofEntries_tables (hformat : format.Faithful) (s : Settings) :
    ofEntries format ((s.tables format).map Toml.NamedTable.entry) = .ok s.stored := by
  have hread := readTable_written hformat s
  simp only [tables, List.map_cons, List.map_nil, entry_writeSection]
  rw [ofEntries, List.foldlM_cons, (hread _).1, ok_bind, List.foldlM_cons, (hread _).2.1, ok_bind,
    List.foldlM_cons, (hread _).2.2.1, ok_bind, List.foldlM_cons, (hread _).2.2.2, ok_bind]
  rfl

end Reading

section Printing

variable {format : TextFormat}

theorem isPlain_writeSection {S : Type} {name : String} {fields : List (Field S)}
    (hname : Toml.IsBareName name) (hkeys : ∀ key ∈ fields.map (·.name), Toml.IsBareName key)
    (hdistinct : (fields.map (·.name)).Nodup) (s : S) :
    (writeSection name fields s).IsPlain := by
  have hnames : (writeSection name fields s).entries.map (·.1) = fields.map (·.name) := by
    rw [writeSection, List.map_map]
    rfl
  exact ⟨hname, by rwa [hnames], by rwa [hnames]⟩

theorem names_bare (format : TextFormat) :
    (∀ key ∈ ClientSettings.fields.map (·.name), Toml.IsBareName key) ∧
    (∀ key ∈ SecuritySettings.fields.map (·.name), Toml.IsBareName key) ∧
    (∀ key ∈ PerformanceSettings.fields.map (·.name), Toml.IsBareName key) ∧
    (∀ key ∈ (LoggingSettings.fields format).map (·.name), Toml.IsBareName key) := by
  have hlogging : (LoggingSettings.fields format).map (·.name) =
      ["app_name", "log_level", "json_format"] := rfl
  rw [hlogging]
  decide +kernel

theorem isPlain_tables (format : TextFormat) (s : Settings) :
    ∀ t ∈ s.tables format, t.IsPlain := by
  obtain ⟨hclient, hsecurity, hperformance, hlogging⟩ := names_bare format
  obtain ⟨hclient', hsecurity', hperformance', hlogging'⟩ := names_distinct format
  simp only [tables, List.forall_mem_cons, List.not_mem_nil, false_implies, implies_true, and_true]
  exact ⟨isPlain_writeSection (by decide +kernel) hclient hclient' _,
    isPlain_writeSection (by decide +kernel) hsecurity hsecurity' _,
    isPlain_writeSection (by decide +kernel) hperformance hperformance' _,
    isPlain_writeSection (by decide +kernel) hlogging hlogging' _⟩

theorem tables_distinct (format : TextFormat) (s : Settings) :
    ((s.tables format).map (·.name)).Nodup := by
  have hnames : (s.tables format).map (·.name) =
      ["client", "security", "performance", "logging"] := rfl
  rw [hnames]
  decide

theorem ofText_of_entries {s : Settings} {text : String} {entries : Toml.Entries}
    (hparse : format.parse? text = some entries) (h : ofEntries format entries = .ok s) :
    ofText format text = .ok s := by
  simp only [ofText, hparse, h]

/-- The text of settings is read as what was written. -/
theorem ofText_print (hformat : format.Faithful) {s : Settings} {text : String}
    (h : format.print? (s.tables format) = some text) : ofText format text = .ok s.stored :=
  ofText_of_entries
    (hformat.parse_print _ _ (s.isPlain_tables format) (s.tables_distinct format) h)
    (s.ofEntries_tables hformat)

/-- All integers in the tables of settings are among its numbers, and the other way round. -/
theorem integers_tables (format : TextFormat) (s : Settings) (P : Nat → Prop) :
    (∃ t ∈ s.tables format, ∃ entry ∈ t.entries, ∃ n : Nat, entry.2 = .integer n ∧ P n) ↔
      ∃ n ∈ s.numbers, P n := by
  simp only [tables, writeSection, ClientSettings.fields, SecuritySettings.fields,
    PerformanceSettings.fields, LoggingSettings.fields, Field.of, Codec.port_write,
    Codec.size_write, Codec.milliseconds_write, Codec.text, Codec.flag, Codec.level,
    List.map_cons, List.map_nil, List.exists_mem_cons_iff, List.not_mem_nil, false_and,
    exists_false, or_false, Toml.Scalar.integer.injEq, Int.natCast_inj, reduceCtorEq,
    exists_eq_left', false_or, numbers, or_assoc]

/-- Settings with a number that is too large are not stored. -/
theorem isPrintable_of_save (hformat : format.Faithful) {s : Settings} {directoryExists : Bool}
    {content : Bytes} (h : s.save format directoryExists = .ok content) :
    directoryExists = true ∧ s.IsPrintable ∧
      ∃ text, format.print? (s.tables format) = some text ∧ content = Utf8.encode text := by
  rw [save, toText] at h
  cases hprint : format.print? (s.tables format) with
  | none =>
      rw [hprint] at h
      cases h
  | some text =>
      rw [hprint] at h
      cases directoryExists with
      | false => cases h
      | true =>
          cases h
          refine ⟨rfl, fun n hn => Nat.lt_of_not_le fun hle => ?_, text, rfl, rfl⟩
          have hfails := hformat.print_fails _
            ((s.integers_tables format fun n => 2 ^ 63 - 1 < n).mpr ⟨n, hn, by omega⟩)
          rw [hprint] at hfails
          cases hfails

/-- Settings that were stored are loaded as they were written. -/
theorem load_save (hformat : format.Faithful) {s : Settings} {directoryExists : Bool}
    {content : Bytes} (h : s.save format directoryExists = .ok content) :
    load format (some content) = .ok s.stored := by
  obtain ⟨-, -, text, hprint, rfl⟩ := isPrintable_of_save hformat h
  rw [load, Utf8.decode?_encode]
  exact ofText_print hformat hprint

end Printing

end Settings

section FaithfulFormat

namespace Toml

theorem isWritable_natural (n : Nat) : (Scalar.integer n).isWritable = true ↔ n < 2 ^ 63 := by
  have hlow : Int64.minValue.toInt = -2 ^ 63 := by decide
  have hhigh : Int64.maxValue.toInt = 2 ^ 63 - 1 := by decide
  rw [Scalar.isWritable, hlow, hhigh, Bool.and_eq_true, decide_eq_true_eq, decide_eq_true_eq]
  omega

end Toml

theorem TextFormat.faithful_toml : TextFormat.toml.Faithful where
  parse_print _ _ hplain hnames h := Toml.read?_write? hplain hnames h
  print_fails tables := by
    rintro ⟨t, ht, entry, hentry, n, hvalue, hlarge⟩
    refine if_neg fun hall => ?_
    have hwritable := List.all_eq_true.mp (List.all_eq_true.mp hall t ht) entry hentry
    rw [hvalue, Toml.isWritable_natural] at hwritable
    omega
  readLevel_name := LogLevel.ofText?_name

/-- In this format all settings without a number that is too large are stored. -/
theorem Settings.save_toml {s : Settings} (h : s.IsPrintable) :
    ∃ content, s.save .toml true = .ok content := by
  have hwritable : (s.tables .toml).all Toml.NamedTable.isWritable = true := by
    simp only [tables, writeSection, Toml.NamedTable.isWritable, ClientSettings.fields,
      SecuritySettings.fields, PerformanceSettings.fields, LoggingSettings.fields, Field.of,
      Codec.port_write, Codec.size_write, Codec.milliseconds_write, Codec.text, Codec.flag,
      Codec.level, List.map_cons, List.map_nil, List.all_cons, List.all_nil, Bool.and_true,
      Bool.and_eq_true, Toml.isWritable_natural]
    simp only [IsPrintable, numbers, List.forall_mem_cons] at h
    simp only [Toml.Scalar.isWritable, h, and_self]
  have hprint : TextFormat.toml.print? (s.tables .toml) = some _ := if_pos hwritable
  rw [save, toText, hprint]
  exact ⟨_, rfl⟩

end FaithfulFormat

end GameLink
