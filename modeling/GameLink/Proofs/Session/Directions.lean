import GameLink.Proofs.Crypto.SealedLength
import GameLink.Proofs.Session.Renewal
import Mathlib.Data.List.DropRight

/-!
# The two directions of a session

Sealing moves the counter and the octets sealed, and reads neither the window nor the key of
the other end; opening moves the window, and reads neither counter nor octets.  So seals and
opens may change places: what each call gives and where the session ends depend on the order
of the seals and on the order of the opens, not on how the two are mixed.

**Results.**
* `perform_withReceived`, `perform_withSent`: each direction is blind to the other.
* `run_of_interleaves`: any mixture gives what the seals and then the opens give.
* `octetsSealed_run`: the octets sealed, from what was sealed since the last renewal.
* `directions_independent`: all of it, and that opens do not bring a renewal forward.
-/

namespace GameLink

namespace SealCall

def message : SealCall → Bytes
  | .next _ message _ => message
  | .given message _ _ => message

/-- What a call gives: the payload, what is counted, and the session after it. -/
def outcome (suite : Suite) (s : Session) :
    SealCall → Except Failure (Packed × List Tally × Session)
  | .next true message associated => s.sealPacked suite message associated
  | .next false message associated =>
      (s.sealNext suite message associated).map fun (sealed, after) =>
        (⟨sealed, false⟩, [], after)
  | .given message associated sequence =>
      (s.sealAt suite message associated sequence).map fun (sealed, after) =>
        (⟨sealed, false⟩, [], after)

variable {suite : Suite} {s : Session}

theorem result_eq_map_outcome (suite : Suite) (s : Session) (call : SealCall) :
    call.result suite s = (call.outcome suite s).map fun given => given.2.2 := by
  cases call with
  | next packs message associated =>
      cases packs with
      | true =>
          simp only [result, outcome, Session.sealFor, if_true]
          cases s.sealPacked suite message associated <;> rfl
      | false =>
          simp only [result, outcome, Session.sealFor, Bool.false_eq_true, if_false]
          cases s.sealNext suite message associated <;> rfl
  | given message associated sequence =>
      simp only [result, outcome]
      cases s.sealAt suite message associated sequence <;> rfl

/-- A call that succeeds has sealed its message and moved the counter. -/
theorem afterSealing_of_outcome
    {call : SealCall} {packed : Packed} {tallies : List Tally} {next : Session}
    (h : call.outcome suite s = .ok (packed, tallies, next)) :
    ∃ number nonce associated sealed,
      suite.seal? s.sendKey nonce associated call.message = some sealed ∧
        next = s.afterSealing number sealed := by
  have hresult : call.result suite s = .ok next := by
    rw [result_eq_map_outcome, h]
    rfl
  cases call with
  | next packs message associated =>
      obtain ⟨sealed, hnext⟩ := result_next_eq_ok_iff.mp hresult
      obtain ⟨hcipher, -, hafter⟩ := Session.sealNext_eq_ok_iff.mp hnext
      exact ⟨_, _, _, sealed, hcipher, hafter⟩
  | given message associated sequence =>
      obtain ⟨sealed, hat⟩ := result_given_eq_ok_iff.mp hresult
      obtain ⟨hcipher, hafter⟩ := Session.sealAt_eq_ok_iff.mp hat
      exact ⟨_, _, _, sealed, hcipher, hafter⟩

end SealCall

/-- What a call gives back, and what it counts. -/
inductive Reply
  | sealed (outcome : Except Failure Packed) (tallies : List Tally)
  | opened (outcome : Except Failure Bytes) (tallies : List Tally)
  | renewed

namespace SessionCall

def isSealing : SessionCall → Bool
  | .sealing _ => true
  | _ => false

def isOpening : SessionCall → Bool
  | .opening .. | .openingPacked .. => true
  | _ => false

def settleSealing (s : Session) :
    Except Failure (Packed × List Tally × Session) → Reply × Session
  | .ok (packed, tallies, next) => (.sealed (.ok packed) tallies, next)
  | .error failure => (.sealed (.error failure) [], s)

def settleOpening (s : Session) : Except Failure (Bytes × Session) → Reply × Session
  | .ok (message, next) => (.opened (.ok message) [], next)
  | .error failure => (.opened (.error failure) (Session.openingTallies failure), s)

/-- What a call gives back and the session after it. -/
def perform (suite : Suite) (s : Session) : SessionCall → Reply × Session
  | .sealing call => settleSealing s (call.outcome suite s)
  | .opening sealed associated sequence =>
      settleOpening s (s.openAt suite sealed associated sequence)
  | .openingPacked payload associated sequence =>
      settleOpening s (s.openPacked suite payload associated sequence)
  | .renewing now => (.renewed, s.renew suite now)

theorem perform_snd (suite : Suite) (s : Session) (call : SessionCall) :
    (call.perform suite s).2 = call.apply suite s := by
  cases call with
  | sealing call =>
      simp only [perform, apply, SealCall.result_eq_map_outcome]
      cases call.outcome suite s <;> rfl
  | opening sealed associated sequence =>
      simp only [perform, apply]
      cases s.openAt suite sealed associated sequence <;> rfl
  | openingPacked payload associated sequence =>
      simp only [perform, apply]
      cases s.openPacked suite payload associated sequence <;> rfl
  | renewing now => rfl

end SessionCall

namespace Session

/-- The session with another window. -/
def withReceived (s : Session) (window : ReplayWindow) : Session :=
  { s with received := window }

/-- The session with another counter and other octets sealed. -/
def withSent (s : Session) (next : UInt64) (octets : Nat) : Session :=
  { s with nextSend := next, octetsSealed := octets }

section Blindness

variable (suite : Suite) (s : Session)

theorem sealUnder_withReceived
    (window : ReplayWindow) (sequence : UInt64) (message associated : Bytes) :
    (s.withReceived window).sealUnder suite sequence message associated =
      s.sealUnder suite sequence message associated :=
  rfl

theorem sealNext_withReceived (window : ReplayWindow) (message associated : Bytes) :
    (s.withReceived window).sealNext suite message associated =
      (s.sealNext suite message associated).map fun (sealed, next) =>
        (sealed, next.withReceived window) := by
  have hnext : (s.withReceived window).nextSend = s.nextSend := rfl
  simp only [sealNext, sealUnder_withReceived, hnext]
  cases s.sealUnder suite s.nextSend message associated with
  | error failure => rfl
  | ok sealed =>
      simp only [bind, Except.bind]
      split <;> rfl

theorem sealAt_withReceived
    (window : ReplayWindow) (message associated : Bytes) (sequence : UInt64) :
    (s.withReceived window).sealAt suite message associated sequence =
      (s.sealAt suite message associated sequence).map fun (sealed, next) =>
        (sealed, next.withReceived window) := by
  simp only [sealAt, sealUnder_withReceived]
  cases s.sealUnder suite sequence message associated <;> rfl

/-- No seal looks at the window. -/
theorem outcome_withReceived (window : ReplayWindow) (call : SealCall) :
    call.outcome suite (s.withReceived window) =
      (call.outcome suite s).map fun (packed, tallies, next) =>
        (packed, tallies, next.withReceived window) := by
  cases call with
  | next packs message associated =>
      cases packs with
      | true =>
          simp only [SealCall.outcome, sealPacked, sealNext_withReceived]
          cases s.sealNext suite message associated <;> rfl
      | false =>
          simp only [SealCall.outcome, sealNext_withReceived]
          cases s.sealNext suite message associated <;> rfl
  | given message associated sequence =>
      simp only [SealCall.outcome, sealAt_withReceived]
      cases s.sealAt suite message associated sequence <;> rfl

/-- No open looks at the counter or at the octets sealed. -/
theorem openAt_withSent
    (next : UInt64) (octets : Nat) (sealed associated : Bytes) (sequence : UInt64) :
    (s.withSent next octets).openAt suite sealed associated sequence =
      (s.openAt suite sealed associated sequence).map fun (message, after) =>
        (message, after.withSent next octets) := by
  have hreceived : (s.withSent next octets).received = s.received := rfl
  have hcipher : suite.open? (s.withSent next octets).receiveKey
      ((s.withSent next octets).nonce sequence) associated sealed =
        suite.open? s.receiveKey (s.nonce sequence) associated sealed := rfl
  simp only [openAt, hreceived, hcipher]
  split
  · cases suite.open? s.receiveKey (s.nonce sequence) associated sealed <;> rfl
  · rfl

variable {suite s}

/-- A seal gives the same whatever the window, and leaves the window alone. -/
theorem perform_withReceived
    {call : SessionCall} (h : call.isSealing = true) (window : ReplayWindow) :
    call.perform suite (s.withReceived window) =
      ((call.perform suite s).1, (call.perform suite s).2.withReceived window) := by
  cases call with
  | sealing call =>
      simp only [SessionCall.perform, outcome_withReceived]
      cases call.outcome suite s <;> rfl
  | opening | openingPacked | renewing => cases h

/-- An open gives the same whatever the counter and the octets sealed, and leaves both alone. -/
theorem perform_withSent
    {call : SessionCall} (h : call.isOpening = true) (next : UInt64) (octets : Nat) :
    call.perform suite (s.withSent next octets) =
      ((call.perform suite s).1, (call.perform suite s).2.withSent next octets) := by
  cases call with
  | opening sealed associated sequence =>
      simp only [SessionCall.perform, openAt_withSent]
      cases s.openAt suite sealed associated sequence <;> rfl
  | openingPacked payload associated sequence =>
      simp only [SessionCall.perform, openPacked]
      cases Packing.unpack payload with
      | error failure => rfl
      | ok sealed =>
          simp only [bind, Except.bind, openAt_withSent]
          cases s.openAt suite sealed associated sequence <;> rfl
  | sealing | renewing => cases h

/-- A seal moves the counter and the octets sealed at most. -/
theorem exists_withSent_of_isSealing
    (suite : Suite) (s : Session) {call : SessionCall} (h : call.isSealing = true) :
    ∃ next octets, (call.perform suite s).2 = s.withSent next octets := by
  cases call with
  | sealing call =>
      simp only [SessionCall.perform]
      cases houtcome : call.outcome suite s with
      | error failure => exact ⟨s.nextSend, s.octetsSealed, rfl⟩
      | ok given =>
          obtain ⟨packed, tallies, next⟩ := given
          obtain ⟨number, _, _, sealed, -, hafter⟩ := SealCall.afterSealing_of_outcome houtcome
          exact ⟨number, s.octetsSealed + sealed.length, hafter⟩
  | opening | openingPacked | renewing => cases h

/-- An open moves the window at most. -/
theorem exists_withReceived_of_isOpening
    (suite : Suite) (s : Session) {call : SessionCall} (h : call.isOpening = true) :
    ∃ window, (call.perform suite s).2 = s.withReceived window := by
  have hsettled {outcome : Except Failure (Bytes × Session)}
      (hok : ∀ message next, outcome = .ok (message, next) →
        ∃ window, next = s.withReceived window) :
      ∃ window, (SessionCall.settleOpening s outcome).2 = s.withReceived window := by
    cases outcome with
    | error failure => exact ⟨s.received, rfl⟩
    | ok given => exact hok given.1 given.2 rfl
  cases call with
  | opening sealed associated sequence =>
      refine hsettled fun message next hopen => ?_
      obtain ⟨-, -, hafter⟩ := openAt_eq_ok_iff.mp hopen
      exact ⟨_, hafter⟩
  | openingPacked payload associated sequence =>
      refine hsettled fun message next hopen => ?_
      obtain ⟨sealed, -, hat⟩ := openPacked_eq_ok_iff.mp hopen
      obtain ⟨-, -, hafter⟩ := openAt_eq_ok_iff.mp hat
      exact ⟨_, hafter⟩
  | sealing | renewing => cases h

end Blindness

/-- The calls of a run, each with what it gave. -/
def journal (suite : Suite) (s : Session) : List SessionCall → List (SessionCall × Reply)
  | [] => []
  | call :: rest =>
      (call, (call.perform suite s).1) :: journal suite (call.perform suite s).2 rest

/-- Some calls are a mixture of seals and opens, each in their order. -/
structure Interleaves (seals opens calls : List SessionCall) : Prop where
  seals_eq : calls.filter SessionCall.isSealing = seals
  opens_eq : calls.filter SessionCall.isOpening = opens
  noRenewal : ∀ call ∈ calls, call.isRenewal = false

variable {suite : Suite} {s : Session}

theorem run_cons (suite : Suite) (s : Session) (call : SessionCall) (rest : List SessionCall) :
    s.run suite (call :: rest) = (call.perform suite s).2.run suite rest := by
  rw [SessionCall.perform_snd]
  rfl

theorem run_append (s : Session) (before after : List SessionCall) :
    s.run suite (before ++ after) = (s.run suite before).run suite after :=
  List.foldl_append

theorem journal_append (s : Session) (before after : List SessionCall) :
    s.journal suite (before ++ after) =
      s.journal suite before ++ (s.run suite before).journal suite after := by
  induction before generalizing s with
  | nil => rfl
  | cons call rest ih =>
      rw [List.cons_append, journal, journal, ih, run_cons, List.cons_append]

/-- A run of seals is blind to the window. -/
theorem seals_withReceived
    {seals : List SessionCall} (h : ∀ call ∈ seals, call.isSealing = true)
    (window : ReplayWindow) :
    (s.withReceived window).journal suite seals = s.journal suite seals ∧
      (s.withReceived window).run suite seals = (s.run suite seals).withReceived window := by
  induction seals generalizing s with
  | nil => exact ⟨rfl, rfl⟩
  | cons call rest ih =>
      obtain ⟨hcall, hrest⟩ := List.forall_mem_cons.mp h
      obtain ⟨hjournal, hrun⟩ := ih (s := (call.perform suite s).2) hrest
      simp only [journal, run_cons, perform_withReceived hcall]
      exact ⟨congrArg _ hjournal, hrun⟩

/-- A run of opens is blind to the counter and to the octets sealed. -/
theorem opens_withSent
    {opens : List SessionCall} (h : ∀ call ∈ opens, call.isOpening = true)
    (next : UInt64) (octets : Nat) :
    (s.withSent next octets).journal suite opens = s.journal suite opens := by
  induction opens generalizing s with
  | nil => rfl
  | cons call rest ih =>
      obtain ⟨hcall, hrest⟩ := List.forall_mem_cons.mp h
      simp only [journal, perform_withSent hcall]
      exact congrArg _ (ih hrest)

theorem exists_withSent_of_seals
    (suite : Suite) (s : Session) {seals : List SessionCall} (h : ∀ call ∈ seals, call.isSealing = true) :
    ∃ next octets, s.run suite seals = s.withSent next octets := by
  induction seals generalizing s with
  | nil => exact ⟨s.nextSend, s.octetsSealed, rfl⟩
  | cons call rest ih =>
      obtain ⟨hcall, hrest⟩ := List.forall_mem_cons.mp h
      obtain ⟨next, octets, hstep⟩ := exists_withSent_of_isSealing suite s hcall
      obtain ⟨last, total, hrun⟩ := ih (call.perform suite s).2 hrest
      refine ⟨last, total, ?_⟩
      rw [run_cons, hrun, hstep]
      rfl

/-- An open may be moved in front of the seals before it. -/
theorem perform_after_seals
    {seals : List SessionCall} (hseals : ∀ call ∈ seals, call.isSealing = true)
    {call : SessionCall} (hcall : call.isOpening = true) :
    (call.perform suite (s.run suite seals)).2 = (call.perform suite s).2.run suite seals := by
  obtain ⟨window, hopen⟩ := exists_withReceived_of_isOpening suite s hcall
  obtain ⟨next, octets, hrun⟩ := exists_withSent_of_seals suite s hseals
  rw [hopen, (seals_withReceived hseals window).2, hrun, perform_withSent hcall, hopen]
  rfl

/-- A mixture of seals and opens gives each call what it gives in the sequence of its own kind,
and ends where the seals and then the opens end. -/
theorem run_of_interleaves
    {seals opens calls : List SessionCall} (h : Interleaves seals opens calls) :
    (s.journal suite calls).filter (fun entry => entry.1.isSealing) = s.journal suite seals ∧
      (s.journal suite calls).filter (fun entry => entry.1.isOpening) = s.journal suite opens ∧
      s.run suite calls = (s.run suite seals).run suite opens := by
  obtain ⟨rfl, rfl, hnone⟩ := h
  induction calls generalizing s with
  | nil => exact ⟨rfl, rfl, rfl⟩
  | cons call rest ih =>
      obtain ⟨hcall, hrest⟩ := List.forall_mem_cons.mp hnone
      obtain ⟨hseals, hopens, hrun⟩ := ih (s := (call.perform suite s).2) hrest
      have hallSeals : ∀ c ∈ rest.filter SessionCall.isSealing, c.isSealing = true :=
        fun c hc => (List.mem_filter.mp hc).2
      have hallOpens : ∀ c ∈ rest.filter SessionCall.isOpening, c.isOpening = true :=
        fun c hc => (List.mem_filter.mp hc).2
      have hkind : call.isSealing = true ∧ call.isOpening = false ∨
          call.isSealing = false ∧ call.isOpening = true := by
        cases call with
        | sealing => exact .inl ⟨rfl, rfl⟩
        | opening | openingPacked => exact .inr ⟨rfl, rfl⟩
        | renewing => cases hcall
      rcases hkind with ⟨hseal, hopen⟩ | ⟨hseal, hopen⟩
      · obtain ⟨next, octets, hstep⟩ :=
          exists_withSent_of_isSealing suite s hseal
        simp only [journal, List.filter_cons, hseal, hopen, if_true, Bool.false_eq_true, if_false,
          run_cons]
        refine ⟨congrArg _ hseals, ?_, hrun⟩
        rw [hopens, hstep, opens_withSent hallOpens]
      · obtain ⟨window, hstep⟩ :=
          exists_withReceived_of_isOpening suite s hopen
        simp only [journal, List.filter_cons, hseal, hopen, if_true, Bool.false_eq_true, if_false,
          run_cons]
        refine ⟨?_, congrArg _ hopens, ?_⟩
        · rw [hseals, hstep, (seals_withReceived hallSeals window).1]
        · rw [hrun, perform_after_seals hallSeals hopen]

/-- How long the sealed form of an entry's message is, if it was sealed. -/
def sealedLength : SessionCall × Reply → Nat
  | (.sealing call, .sealed (.ok _) _) => call.message.length + Aead.tagSize
  | _ => 0

/-- What one call adds to the octets sealed. -/
theorem octetsSealed_perform
    (htag : suite.AddsTag) {call : SessionCall} (h : call.isRenewal = false) :
    (call.perform suite s).2.octetsSealed =
      s.octetsSealed + sealedLength (call, (call.perform suite s).1) := by
  cases call with
  | sealing call =>
      simp only [SessionCall.perform]
      cases houtcome : call.outcome suite s with
      | error failure => rfl
      | ok given =>
          obtain ⟨packed, tallies, next⟩ := given
          obtain ⟨_, _, _, sealed, hcipher, hafter⟩ := SealCall.afterSealing_of_outcome houtcome
          have hlength := htag hcipher
          simp only [SessionCall.settleSealing, hafter, afterSealing, sealedLength, hlength]
  | opening sealed associated sequence =>
      obtain ⟨window, hstep⟩ := exists_withReceived_of_isOpening suite s
        (show SessionCall.isOpening (.opening sealed associated sequence) = true from rfl)
      rw [hstep]
      rfl
  | openingPacked payload associated sequence =>
      obtain ⟨window, hstep⟩ := exists_withReceived_of_isOpening suite s
        (show SessionCall.isOpening (.openingPacked payload associated sequence) = true from rfl)
      rw [hstep]
      rfl
  | renewing now => cases h

/-- What was sealed since the last renewal; without one, on top of what the session began
with. -/
theorem octetsSealed_run
    (htag : suite.AddsTag) (s : Session) (calls : List SessionCall) :
    (s.run suite calls).octetsSealed =
      (if calls.any SessionCall.isRenewal then 0 else s.octetsSealed) +
        (((s.journal suite calls).rtakeWhile fun entry => !entry.1.isRenewal).map
          sealedLength).sum := by
  induction calls using List.reverseRecOn with
  | nil => rfl
  | append_singleton calls call ih =>
      have hlast : s.journal suite (calls ++ [call]) =
          s.journal suite calls ++ [(call, (call.perform suite (s.run suite calls)).1)] := by
        rw [journal_append]
        rfl
      rw [run_append, run_cons, hlast]
      cases hrenewal : call.isRenewal with
      | true =>
          cases call with
          | renewing now =>
              rw [List.rtakeWhile_concat_neg _ _ _ (by simp [SessionCall.isRenewal])]
              simp [SessionCall.isRenewal, SessionCall.perform, run, renew]
          | sealing | opening | openingPacked => cases hrenewal
      | false =>
          have hstep := octetsSealed_perform (s := s.run suite calls) htag hrenewal
          rw [List.rtakeWhile_concat_pos _ _ _ (by simp [hrenewal]), List.map_append,
            List.sum_append, List.any_append, ← Nat.add_assoc]
          simp only [List.any_cons, List.any_nil, hrenewal, Bool.or_false]
          rw [← ih]
          exact hstep

/-- Sessions as they are created: by a handshake, then set up. -/
inductive Created (suite : Suite) : Session → Prop
  | client {now privateKey serverPublic salt connectionId} {s : Session}
      (h : asClient suite now privateKey serverPublic salt connectionId = .ok s) :
      Created suite s
  | server {now clientPublic connectionId e answer} {s : Session}
      (h : (asServer suite now clientPublic connectionId e).1 = .ok (answer, s)) :
      Created suite s
  | withRenewal {s : Session} (h : Created suite s) (policy : RenewalPolicy) :
      Created suite (s.withRenewal policy)
  | withPackingThreshold {s : Session} (h : Created suite s) (threshold : Nat) :
      Created suite (s.withPackingThreshold threshold)

theorem ofSecret_of_asClient
    {now : Moment} {privateKey serverPublic salt : Bytes} {connectionId : UInt32}
    (h : asClient suite now privateKey serverPublic salt connectionId = .ok s) :
    ∃ secret salt, s = ofSecret suite now .client secret salt connectionId := by
  simp only [asClient] at h
  cases hprivate : keyMaterial 32 privateKey with
  | error failure =>
      rw [hprivate] at h
      cases h
  | ok ownKey =>
      cases hpublic : keyMaterial 32 serverPublic with
      | error failure =>
          rw [hprivate, hpublic] at h
          cases h
      | ok peerKey =>
          cases hsalt : keyMaterial 16 salt with
          | error failure =>
              rw [hprivate, hpublic, hsalt] at h
              cases h
          | ok saltKey =>
              cases hsecret : sharedSecret suite ownKey peerKey with
              | error failure =>
                  rw [hprivate, hpublic, hsalt] at h
                  simp only [bind, Except.bind, hsecret] at h
                  cases h
              | ok secret =>
                  rw [hprivate, hpublic, hsalt] at h
                  simp only [bind, Except.bind, hsecret] at h
                  cases h
                  exact ⟨secret, saltKey, rfl⟩

theorem ofSecret_of_asServer
    {now : Moment} {clientPublic : Bytes} {connectionId : UInt32} {e : Entropy}
    {answer : HandshakeKeys}
    (h : (asServer suite now clientPublic connectionId e).1 = .ok (answer, s)) :
    ∃ secret salt, s = ofSecret suite now .server secret salt connectionId := by
  simp only [asServer] at h
  cases hpublic : keyMaterial 32 clientPublic with
  | error failure =>
      rw [hpublic] at h
      cases h
  | ok peerKey =>
      cases hsecret : sharedSecret suite (KeyPair.generate suite e).1.privateKey peerKey with
      | error failure =>
          simp only [hpublic, hsecret] at h
          cases h
      | ok secret =>
          simp only [hpublic, hsecret] at h
          cases h
          exact ⟨secret, _, rfl⟩

theorem Created.octetsSealed_eq (h : Created suite s) : s.octetsSealed = 0 := by
  induction h with
  | client h =>
      obtain ⟨_, _, rfl⟩ := ofSecret_of_asClient h
      rfl
  | server h =>
      obtain ⟨_, _, rfl⟩ := ofSecret_of_asServer h
      rfl
  | withRenewal _ _ ih => exact ih
  | withPackingThreshold _ _ ih => exact ih

/-- Without its opens, a run ends in the same session up to the window. -/
theorem run_without_opens
    (suite : Suite) (s : Session) (window : ReplayWindow) (calls : List SessionCall) :
    ∃ after, (s.withReceived window).run suite (calls.filter fun call => !call.isOpening) =
      (s.run suite calls).withReceived after := by
  induction calls generalizing s window with
  | nil => exact ⟨window, rfl⟩
  | cons call rest ih =>
      cases hopen : call.isOpening with
      | true =>
          obtain ⟨next, hstep⟩ :=
            exists_withReceived_of_isOpening suite s hopen
          obtain ⟨after, hrun⟩ := ih (s.withReceived next) window
          refine ⟨after, ?_⟩
          rw [List.filter_cons_of_neg (by simp [hopen]), run_cons, hstep, ← hrun]
          rfl
      | false =>
          rw [List.filter_cons_of_pos (by simp [hopen]), run_cons, run_cons]
          cases call with
          | sealing call =>
              rw [perform_withReceived rfl]
              exact ih _ window
          | renewing now => exact ih (s.renew suite now) .empty
          | opening | openingPacked => cases hopen

/-- If sealing adds a tag: however seals and opens are mixed, each call gives what it gives in
the sequence of its own kind, and the session ends where the seals and then the opens end.  The
octets sealed are the messages sealed since the last renewal, or since the session was created,
with a tag each; and whether a renewal is due does not depend on the opens. -/
theorem directions_independent (suite : Suite) (htag : suite.AddsTag) (s : Session) :
    (∀ seals opens calls, Interleaves seals opens calls →
      (s.journal suite calls).filter (fun entry => entry.1.isSealing) = s.journal suite seals ∧
      (s.journal suite calls).filter (fun entry => entry.1.isOpening) = s.journal suite opens ∧
      s.run suite calls = (s.run suite seals).run suite opens) ∧
    (∀ calls, (s.run suite calls).octetsSealed =
      (if calls.any SessionCall.isRenewal then 0 else s.octetsSealed) +
        (((s.journal suite calls).rtakeWhile fun entry => !entry.1.isRenewal).map
          sealedLength).sum) ∧
    (Created suite s → s.octetsSealed = 0) ∧
    ∀ calls now, (s.run suite calls).renewalDue now =
      (s.run suite (calls.filter fun call => !call.isOpening)).renewalDue now := by
  refine ⟨fun _ _ _ => run_of_interleaves, octetsSealed_run htag s, Created.octetsSealed_eq, ?_⟩
  intro calls now
  obtain ⟨after, hrun⟩ := run_without_opens suite s s.received calls
  have hsame : s.withReceived s.received = s := rfl
  rw [← hsame, hrun]
  rfl

/-- A client that sealed two messages while it was given two forged payloads. -/
def sampleMixture : List SessionCall :=
  [.opening [104, 105] [] 3, .sealing (.next true [104, 105] []), .openingPacked ⟨[7], true⟩ [] 3,
    .sealing (.given [104] [] 9)]

/-- The seals first, and the forged payloads then, come to the same. -/
theorem sampleMixture_run :
    ∃ client, asClient .standard .zero samplePrivateKey.bytes samplePrivateKey.bytes
        (Octets.zero 16).bytes 7 = .ok client ∧
      client.run .standard sampleMixture =
        (client.run .standard
            [.sealing (.next true [104, 105] []), .sealing (.given [104] [] 9)]).run .standard
          [.opening [104, 105] [] 3, .openingPacked ⟨[7], true⟩ [] 3] ∧
      (client.run .standard sampleMixture).octetsSealed = 18 + 17 := by
  have hsecret : sharedSecret .standard samplePrivateKey samplePrivateKey =
      .ok (Suite.standard.agree samplePrivateKey samplePrivateKey) :=
    sharedSecret_eq_ok_iff.mpr ⟨rfl, by decide +kernel⟩
  have hclient := asClient_of_sharedSecret hsecret .zero (Octets.zero 16) 7
  refine ⟨_, hclient, ?_⟩
  obtain ⟨hmixture, hoctets, hcreated, -⟩ := directions_independent .standard
    Suite.addsTag_standard (ofSecret .standard .zero .client
      (Suite.standard.agree samplePrivateKey samplePrivateKey) (Octets.zero 16) 7)
  obtain ⟨-, -, hrun⟩ := hmixture _ _ sampleMixture
    ⟨rfl, rfl, by simp [sampleMixture, SessionCall.isRenewal]⟩
  refine ⟨hrun, ?_⟩
  rw [hoctets, hcreated (.client hclient)]
  decide +kernel

end Session
end GameLink
