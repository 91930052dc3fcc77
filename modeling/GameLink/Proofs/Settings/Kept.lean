import GameLink.Proofs.Settings.Stored
import GameLink.Settings.Problem

/-!
# When storing keeps settings

Whether settings are valid is decided on exact durations; stored are whole milliseconds, of which
sixty-four bits are kept.  Valid settings are therefore not always kept.

**What is lost.**  The connect timeout is bounded, and with it the retry tick; so is the poll
interval.  The other three durations can be longer than what is stored of them.  The two that must
not be zero can be shorter than a millisecond, and two that must differ can do so by less than one.

**Results.**
* `ClientSettings.problems_eq_nil_iff`: what the client section asks for.
* `whole_valid_iff`: when valid settings stay valid in whole milliseconds.
* `stored_eq_inMilliseconds_iff`: when valid settings are stored in whole milliseconds.
* `kept_iff`: when valid settings are kept, in any faithful text format, and what is loaded.
-/

namespace GameLink

namespace Duration

/-- A duration without its part below a millisecond. -/
def whole (d : Duration) : Duration :=
  .ofMilliseconds d.milliseconds

theorem whole_stored (d : Duration) : d.stored.whole = d.stored := by
  rw [stored, whole, milliseconds_ofMilliseconds]

theorem milliseconds_whole (d : Duration) : d.whole.milliseconds = d.milliseconds :=
  milliseconds_ofMilliseconds _

theorem seconds_whole (d : Duration) : d.whole.seconds = d.seconds := by
  simp only [whole, seconds, ofMilliseconds, milliseconds]
  omega

/-- All of a duration is stored if its milliseconds fit. -/
theorem stored_eq_whole_iff (d : Duration) : d.stored = d.whole ↔ d.milliseconds < 2 ^ 64 := by
  constructor
  · intro h
    have hsame := congrArg milliseconds h
    rw [stored, milliseconds_ofMilliseconds, milliseconds_whole] at hsame
    rw [← hsame]
    exact Nat.mod_lt _ (Nat.two_pow_pos 64)
  · intro h
    rw [stored, written, Nat.mod_eq_of_lt h, whole]

theorem whole_eq_zero_iff (d : Duration) : d.whole = zero ↔ d.milliseconds = 0 := by
  simp only [whole, ofMilliseconds, zero, mk.injEq]
  omega

theorem whole_le_whole_iff (a b : Duration) :
    a.whole ≤ b.whole ↔ a.milliseconds ≤ b.milliseconds := by
  simp only [le_iff, whole, ofMilliseconds]
  omega

theorem milliseconds_mono {a b : Duration} (h : a ≤ b) : a.milliseconds ≤ b.milliseconds :=
  Nat.div_le_div_right h

end Duration

section ValidSections

theorem firstProblem_eq_nil_iff (cases : List (Bool × Settings.Problem)) :
    firstProblem cases = [] ↔ ∀ case ∈ cases, case.1 = false := by
  rw [firstProblem, Option.toList_eq_nil_iff, Option.map_eq_none_iff, List.find?_eq_none]
  simp only [Bool.not_eq_true]

/-- What the client section asks for. -/
structure ClientSettings.IsValid (s : ClientSettings) : Prop where
  address : s.serverAddress.isEmpty = false
  port : s.serverPort ≠ 0
  connect_long : ¬ s.connectTimeout.milliseconds < 100
  connect_short : ¬ 300 < s.connectTimeout.seconds
  retry : s.retryEnabled = false ∨ ¬ s.retryInterval.milliseconds < 100
  silence : ¬ s.keepaliveTimeout ≤ s.retryTick
  tick_pos : s.retryTick ≠ .zero
  tick_short : ¬ s.connectTimeout < s.retryTick
  poll_pos : s.pollInterval ≠ .zero
  poll_short : ¬ 100 < s.pollInterval.milliseconds
  receive : ¬ s.receiveBufferSize < 65536

theorem ClientSettings.problems_eq_nil_iff (s : ClientSettings) : s.problems = [] ↔ s.IsValid := by
  simp only [problems, List.append_eq_nil_iff, firstProblem_eq_nil_iff, List.forall_mem_cons,
    List.not_mem_nil, false_implies, implies_true, and_true, beq_eq_false_iff_ne,
    decide_eq_false_iff_not, Bool.and_eq_false_iff]
  constructor
  · rintro ⟨⟨⟨⟨⟨⟨⟨haddress, hport⟩, hlong, hshort⟩, hretry⟩, hsilence⟩, htick, hwithin⟩, hpoll,
      hbrief⟩, hreceive⟩
    exact ⟨haddress, hport, hlong, hshort, hretry, hsilence, htick, hwithin, hpoll, hbrief,
      hreceive⟩
  · intro h
    exact ⟨⟨⟨⟨⟨⟨⟨h.address, h.port⟩, h.connect_long, h.connect_short⟩, h.retry⟩, h.silence⟩,
      h.tick_pos, h.tick_short⟩, h.poll_pos, h.poll_short⟩, h.receive⟩

/-- Only the seconds of the one duration of the security section are looked at. -/
theorem SecuritySettings.problems_with_interval (s : SecuritySettings) {d : Duration}
    (h : d.seconds = s.rekeyInterval.seconds) :
    ({ s with rekeyInterval := d } : SecuritySettings).problems = s.problems := by
  simp only [problems, h]

end ValidSections

namespace Settings

theorem problems_eq_nil_iff (s : Settings) :
    s.problems = [] ↔ s.client.problems = [] ∧ s.security.problems = [] ∧
      s.performance.problems = [] ∧ s.logging.problems = [] := by
  simp only [problems, List.append_eq_nil_iff, and_assoc]

section WholeSettings

/-- The settings with each duration in whole milliseconds. -/
def inMilliseconds (s : Settings) : Settings :=
  s.mapDurations Duration.whole

theorem inMilliseconds_stored (s : Settings) : s.stored.inMilliseconds = s.stored := by
  simp only [inMilliseconds, stored, mapDurations, Duration.whole_stored]

/-- What is left of the conditions on the durations where these are whole milliseconds. -/
def StaysValid (s : Settings) : Prop :=
  0 < s.client.retryTick.milliseconds ∧ 0 < s.client.pollInterval.milliseconds ∧
    s.client.retryTick.milliseconds < s.client.keepaliveTimeout.milliseconds

instance (s : Settings) : Decidable s.StaysValid :=
  inferInstanceAs (Decidable (_ ∧ _))

theorem client_valid_iff {s : Settings} (h : s.client.IsValid) :
    s.inMilliseconds.client.IsValid ↔ s.StaysValid := by
  constructor
  · intro hwhole
    have htick : ¬ s.client.retryTick.milliseconds = 0 := fun hzero =>
      hwhole.tick_pos ((Duration.whole_eq_zero_iff _).mpr hzero)
    have hpoll : ¬ s.client.pollInterval.milliseconds = 0 := fun hzero =>
      hwhole.poll_pos ((Duration.whole_eq_zero_iff _).mpr hzero)
    have hsilence : ¬ s.client.keepaliveTimeout.milliseconds ≤ s.client.retryTick.milliseconds :=
      fun hle => hwhole.silence ((Duration.whole_le_whole_iff _ _).mpr hle)
    exact ⟨Nat.pos_of_ne_zero htick, Nat.pos_of_ne_zero hpoll, Nat.lt_of_not_le hsilence⟩
  · rintro ⟨htick, hpoll, hsilence⟩
    -- Cutting keeps an order, only not a strict one: this condition holds as it did.
    have hwithin : s.client.retryTick.milliseconds ≤ s.client.connectTimeout.milliseconds :=
      Duration.milliseconds_mono (Nat.le_of_not_lt h.tick_short)
    exact
      { address := h.address
        port := h.port
        connect_long := by
          rw [inMilliseconds, mapDurations, Duration.milliseconds_whole]
          exact h.connect_long
        connect_short := by
          rw [inMilliseconds, mapDurations, Duration.seconds_whole]
          exact h.connect_short
        retry := by
          rw [inMilliseconds, mapDurations, Duration.milliseconds_whole]
          exact h.retry
        silence := fun hle =>
          Nat.not_le_of_lt hsilence ((Duration.whole_le_whole_iff _ _).mp hle)
        tick_pos := fun hzero => Nat.ne_of_gt htick ((Duration.whole_eq_zero_iff _).mp hzero)
        tick_short := fun hlt =>
          Nat.not_le_of_lt hlt ((Duration.whole_le_whole_iff _ _).mpr hwithin)
        poll_pos := fun hzero => Nat.ne_of_gt hpoll ((Duration.whole_eq_zero_iff _).mp hzero)
        poll_short := by
          rw [inMilliseconds, mapDurations, Duration.milliseconds_whole]
          exact h.poll_short
        receive := h.receive }

/-- When valid settings stay valid in whole milliseconds. -/
theorem whole_valid_iff {s : Settings} (h : s.problems = []) :
    s.inMilliseconds.problems = [] ↔ s.StaysValid := by
  obtain ⟨hclient, hsecurity, hperformance, hlogging⟩ := s.problems_eq_nil_iff.mp h
  rw [← client_valid_iff (s.client.problems_eq_nil_iff.mp hclient),
    ← ClientSettings.problems_eq_nil_iff, problems_eq_nil_iff]
  have hsecurity' : s.inMilliseconds.security.problems = [] :=
    (s.security.problems_with_interval (Duration.seconds_whole _)).trans hsecurity
  exact ⟨fun hwhole => hwhole.1, fun hwhole => ⟨hwhole, hsecurity', hperformance, hlogging⟩⟩

/-- Whether the durations that are not bounded fit what is stored of them. -/
def FitsStored (s : Settings) : Prop :=
  s.client.retryInterval.milliseconds < 2 ^ 64 ∧ s.client.keepaliveTimeout.milliseconds < 2 ^ 64 ∧
    s.security.rekeyInterval.milliseconds < 2 ^ 64

instance (s : Settings) : Decidable s.FitsStored :=
  inferInstanceAs (Decidable (_ ∧ _))

/-- When valid settings are stored in whole milliseconds. -/
theorem stored_eq_inMilliseconds_iff {s : Settings} (h : s.problems = []) :
    s.stored = s.inMilliseconds ↔ s.FitsStored := by
  have hvalid := s.client.problems_eq_nil_iff.mp (s.problems_eq_nil_iff.mp h).1
  -- The other three durations are bounded by the conditions.
  have hconnect : s.client.connectTimeout.milliseconds < 2 ^ 64 := by
    have hseconds := hvalid.connect_short
    simp only [Duration.seconds, Duration.milliseconds] at hseconds ⊢
    omega
  have htick : s.client.retryTick.milliseconds < 2 ^ 64 :=
    Nat.lt_of_le_of_lt (Duration.milliseconds_mono (Nat.le_of_not_lt hvalid.tick_short)) hconnect
  have hpoll : s.client.pollInterval.milliseconds < 2 ^ 64 := by
    have hshort := hvalid.poll_short
    omega
  constructor
  · intro heq
    have hclient := congrArg Settings.client heq
    have hsecurity := congrArg Settings.security heq
    exact ⟨(Duration.stored_eq_whole_iff _).mp (congrArg ClientSettings.retryInterval hclient),
      (Duration.stored_eq_whole_iff _).mp (congrArg ClientSettings.keepaliveTimeout hclient),
      (Duration.stored_eq_whole_iff _).mp (congrArg SecuritySettings.rekeyInterval hsecurity)⟩
  · rintro ⟨hretry, hsilence, hrekey⟩
    simp only [stored, inMilliseconds, mapDurations, (Duration.stored_eq_whole_iff _).mpr hconnect,
      (Duration.stored_eq_whole_iff _).mpr htick, (Duration.stored_eq_whole_iff _).mpr hpoll,
      (Duration.stored_eq_whole_iff _).mpr hretry, (Duration.stored_eq_whole_iff _).mpr hsilence,
      (Duration.stored_eq_whole_iff _).mpr hrekey]

end WholeSettings

section Storing

/-- Storing settings in a text format and loading them changes nothing unnoticed: storing fails, or
what is loaded has no problems and is, in whole milliseconds, what was stored. -/
def IsKept (format : TextFormat) (s : Settings) (directoryExists : Bool) : Prop :=
  (∃ fault, s.save format directoryExists = .error (.settings fault)) ∨
    ∃ content loaded, s.save format directoryExists = .ok content ∧
      load format (some content) = .ok loaded ∧
        loaded.problems = [] ∧ loaded.inMilliseconds = s.inMilliseconds

variable {format : TextFormat}

/-- Storing fails with a fault of the settings, if it fails. -/
theorem save_cases (format : TextFormat) (s : Settings) (directoryExists : Bool) :
    (∃ fault, s.save format directoryExists = .error (.settings fault)) ∨
      ∃ content, s.save format directoryExists = .ok content := by
  rw [save, toText]
  cases format.print? (s.tables format) with
  | none => exact Or.inl ⟨_, rfl⟩
  | some text =>
      cases directoryExists with
      | false => exact Or.inl ⟨_, rfl⟩
      | true => exact Or.inr ⟨_, rfl⟩

theorem saved_kept_iff (hformat : format.Faithful) {s : Settings} (h : s.problems = [])
    {directoryExists : Bool} {content : Bytes}
    (hsave : s.save format directoryExists = .ok content) :
    s.IsKept format directoryExists ↔ s.FitsStored ∧ s.StaysValid := by
  have hload := load_save hformat hsave
  rw [← stored_eq_inMilliseconds_iff h, ← whole_valid_iff h]
  constructor
  · rintro (⟨fault, hfault⟩ | ⟨other, loaded, hcontent, hloaded, hproblems, hsame⟩)
    · rw [hsave] at hfault
      cases hfault
    · obtain rfl := Except.ok.inj (hsave.symm.trans hcontent)
      obtain rfl := Except.ok.inj (hload.symm.trans hloaded)
      rw [inMilliseconds_stored] at hsame
      exact ⟨hsame, hsame ▸ hproblems⟩
  · rintro ⟨hsame, hproblems⟩
    refine Or.inr ⟨_, s.stored, hsave, hload, ?_, ?_⟩
    · rw [hsame]
      exact hproblems
    · rw [inMilliseconds_stored, hsame]

/-- In a faithful text format, valid settings are not stored if the directory is missing or a number
is too large, and what is stored is loaded with each duration in those milliseconds that are stored
of it.  The settings are kept if storing fails, and otherwise exactly if their durations fit and
their conditions are met in whole milliseconds. -/
theorem kept_iff (format : TextFormat) (hformat : format.Faithful) {s : Settings}
    (h : s.problems = []) (directoryExists : Bool) :
    (∀ content, s.save format directoryExists = .ok content →
      directoryExists = true ∧ s.IsPrintable ∧ load format (some content) = .ok s.stored) ∧
    (s.IsKept format directoryExists ↔
      (∃ fault, s.save format directoryExists = .error (.settings fault)) ∨
        s.FitsStored ∧ s.StaysValid) := by
  refine ⟨fun content hsave => ?_, ?_⟩
  · obtain ⟨hdirectory, hprintable, -⟩ := isPrintable_of_save hformat hsave
    exact ⟨hdirectory, hprintable, load_save hformat hsave⟩
  · rcases s.save_cases format directoryExists with hfails | ⟨content, hsave⟩
    · exact ⟨fun _ => Or.inl hfails, fun _ => Or.inl hfails⟩
    · rw [saved_kept_iff hformat h hsave, hsave]
      simp

/-- Retries that begin ten seconds after the milliseconds have run over. -/
def endlessRetry : Settings :=
  { client := { retryInterval := .ofMilliseconds (2 ^ 64 + 10000) } }

/-- Two looks at the socket in a millisecond. -/
def quickPoll : Settings :=
  { client := { pollInterval := ⟨500000⟩ } }

/-- The one is loaded as the default settings, the other as settings that are not valid. -/
theorem unkept_settings :
    TextFormat.toml.Faithful ∧
    (endlessRetry.problems = [] ∧ ¬ endlessRetry.IsKept .toml true ∧
      ∃ content, endlessRetry.save .toml true = .ok content ∧
        load .toml (some content) = .ok {}) ∧
    (quickPoll.problems = [] ∧ ¬ quickPoll.IsKept .toml true) := by
  have hformat := TextFormat.faithful_toml
  have hendless : endlessRetry.problems = [] := by decide +kernel
  have hquick : quickPoll.problems = [] := by decide +kernel
  obtain ⟨hloaded, hkept⟩ := kept_iff .toml hformat hendless true
  obtain ⟨content, hcontent⟩ := save_toml (s := endlessRetry) (by decide)
  obtain ⟨other, hother⟩ := save_toml (s := quickPoll) (by decide)
  have hdefault : endlessRetry.stored = {} := by decide +kernel
  refine ⟨hformat, ⟨hendless, ?_, content, hcontent, hdefault ▸ (hloaded content hcontent).2.2⟩,
    hquick, ?_⟩
  · rw [hkept, hcontent]
    rintro (⟨fault, hfault⟩ | hfits)
    · cases hfault
    · exact absurd hfits (by decide)
  · rw [(kept_iff .toml hformat hquick true).2, hother]
    rintro (⟨fault, hfault⟩ | hfits)
    · cases hfault
    · exact absurd hfits (by decide)

end Storing

end Settings
end GameLink
