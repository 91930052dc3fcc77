import GameLink.Proofs.Session.Operations

/-!
# The counter of the sender

A session seals under the next number of its counter or under a number that it is given,
which moves the counter past that number.  The last number of all has none after it: once
it is used, the counter stays there.

**Results.**
* `step_of_not_sealed`, `step_nextSend_of_sealed`: what one call does to the counter.
* `Ahead.run`: over a run, the counter stays above all numbers used but the last.
* `next_number_used_iff`: the counter never moves back, and a number that it gives was used
  before exactly if the last number was.
-/

namespace GameLink

/-- A call that seals a message: under the next number, with or without packing, or under
a given number. -/
inductive SealCall
  | next (packs : Bool) (message associated : Bytes)
  | given (message associated : Bytes) (sequence : UInt64)

namespace SealCall

/-- The number that a call seals under. -/
def number (s : Session) : SealCall → UInt64
  | .next .. => s.nextSend
  | .given _ _ sequence => sequence

/-- The session after a call that succeeds. -/
def result (suite : Suite) (s : Session) : SealCall → Except Failure Session
  | .next packs message associated =>
      (s.sealFor suite packs message associated).map Prod.snd
  | .given message associated sequence =>
      (s.sealAt suite message associated sequence).map Prod.snd

/-- Whether the cipher seals the message of a call. -/
def isSealed (suite : Suite) (s : Session) (call : SealCall) : Bool :=
  match call with
  | .next _ message associated =>
      (suite.seal? s.sendKey (s.nonce s.nextSend) associated message).isSome
  | .given message associated sequence =>
      (suite.seal? s.sendKey (s.nonce sequence) associated message).isSome

/-- A call for the next number succeeds if the cipher seals and the number is not the
last. -/
theorem result_next_eq_ok_iff
    {suite : Suite} {s s' : Session} {packs : Bool} {message associated : Bytes} :
    (next packs message associated).result suite s = .ok s' ↔
      ∃ sealed, s.sealNext suite message associated = .ok (sealed, s') := by
  simp only [result]
  constructor
  · intro h
    cases hfor : s.sealFor suite packs message associated with
    | error failure =>
        simp only [hfor] at h
        cases h
    | ok outcome =>
        simp only [hfor] at h
        cases h
        obtain ⟨sealed, hsealed, -⟩ := Session.sealFor_ok hfor
        exact ⟨sealed, hsealed⟩
  · rintro ⟨sealed, hsealed⟩
    obtain ⟨packed, hfor⟩ := Session.sealFor_of_sealNext packs hsealed
    simp only [hfor]
    rfl

theorem result_given_eq_ok_iff
    {suite : Suite} {s s' : Session} {message associated : Bytes} {sequence : UInt64} :
    (given message associated sequence).result suite s = .ok s' ↔
      ∃ sealed, s.sealAt suite message associated sequence = .ok (sealed, s') := by
  unfold result
  cases hat : s.sealAt suite message associated sequence with
  | error failure => simp [hat, Except.map]
  | ok outcome => simp [hat, Except.map, Prod.ext_iff]

end SealCall

/-- A session and the numbers that the cipher sealed under since its keys are in use. -/
structure SealingRun where
  session : Session
  used : List UInt64 := []

namespace SealingRun

/-- One call.  A call that fails leaves the session as it is, but the cipher may have
sealed already. -/
def step (suite : Suite) (x : SealingRun) (call : SealCall) : SealingRun where
  session :=
    match call.result suite x.session with
    | .ok next => next
    | .error _ => x.session
  used :=
    if call.isSealed suite x.session then
      x.used ++ [call.number x.session]
    else
      x.used

/-- Calls one after the other. -/
def run (suite : Suite) (x : SealingRun) (calls : List SealCall) : SealingRun :=
  calls.foldl (step suite) x

variable {suite : Suite} {x : SealingRun}

theorem toNat_lastNumber : Session.lastNumber.toNat = 18446744073709551615 := by
  decide

theorem eq_lastNumber_iff (n : UInt64) :
    n = Session.lastNumber ↔ n.toNat = 18446744073709551615 := by
  rw [← UInt64.toNat_inj, toNat_lastNumber]

/-- The successor is one more, except that the last number is its own. -/
theorem toNat_successor (n : UInt64) :
    (Session.successor n).toNat = min (n.toNat + 1) 18446744073709551615 := by
  simp only [Session.successor]
  have hlt := n.toNat_lt
  split
  · rename_i hlast
    rw [eq_lastNumber_iff] at hlast
    omega
  · rename_i hlast
    rw [eq_lastNumber_iff] at hlast
    rw [UInt64.toNat_add, UInt64.toNat_one]
    omega

theorem step_session_of_ok
    {call : SealCall} {s' : Session} (h : call.result suite x.session = .ok s') :
    (x.step suite call).session = s' := by
  simp only [step, h]

theorem step_session_of_not_ok
    {call : SealCall} (h : ∀ s', call.result suite x.session ≠ .ok s') :
    (x.step suite call).session = x.session := by
  cases hresult : call.result suite x.session with
  | error failure => simp only [step, hresult]
  | ok s' => exact absurd hresult (h s')

theorem step_used_of_sealed
    {call : SealCall} (h : call.isSealed suite x.session = true) :
    (x.step suite call).used = x.used ++ [call.number x.session] := by
  simp only [step, h, if_true]

theorem step_used_of_not_sealed
    {call : SealCall} (h : call.isSealed suite x.session = false) :
    (x.step suite call).used = x.used := by
  simp only [step, h, Bool.false_eq_true, if_false]

/-- What fails to seal changes nothing. -/
theorem step_of_not_sealed
    {call : SealCall} (h : call.isSealed suite x.session = false) :
    x.step suite call = x := by
  have hfail : ∀ s', call.result suite x.session ≠ .ok s' := by
    intro s' hok
    cases call with
    | next packs message associated =>
        obtain ⟨sealed, hnext⟩ := SealCall.result_next_eq_ok_iff.mp hok
        obtain ⟨hcipher, -, -⟩ := Session.sealNext_eq_ok_iff.mp hnext
        simp [SealCall.isSealed, hcipher] at h
    | given message associated sequence =>
        obtain ⟨sealed, hat⟩ := SealCall.result_given_eq_ok_iff.mp hok
        obtain ⟨hcipher, -⟩ := Session.sealAt_eq_ok_iff.mp hat
        simp [SealCall.isSealed, hcipher] at h
  have hsession := step_session_of_not_ok hfail
  have hused := step_used_of_not_sealed h
  cases hstep : x.step suite call with
  | mk session used =>
      rw [hstep] at hsession hused
      cases hsession
      cases hused
      rfl

/-- A call that seals does not move the counter back and leaves it above the number
used, unless that is the last number. -/
theorem step_nextSend_of_sealed
    {call : SealCall} (h : call.isSealed suite x.session = true) :
    x.session.nextSend.toNat ≤ (x.step suite call).session.nextSend.toNat ∧
      min ((call.number x.session).toNat + 1) 18446744073709551615 ≤
        (x.step suite call).session.nextSend.toNat := by
  cases call with
  | next packs message associated =>
      obtain ⟨sealed, hcipher⟩ := Option.isSome_iff_exists.mp h
      by_cases hlast : x.session.nextSend = Session.lastNumber
      · -- The call fails and the counter stays at the last number.
        have hfail (s' : Session) :
            (SealCall.next packs message associated).result suite x.session ≠ .ok s' := by
          intro hok
          obtain ⟨other, hnext⟩ := SealCall.result_next_eq_ok_iff.mp hok
          exact (Session.sealNext_eq_ok_iff.mp hnext).2.1 hlast
        rw [step_session_of_not_ok hfail, SealCall.number, hlast, toNat_lastNumber]
        omega
      · have hmove := step_session_of_ok (x := x) (SealCall.result_next_eq_ok_iff.mpr
          ⟨sealed, Session.sealNext_eq_ok_iff.mpr ⟨hcipher, hlast, rfl⟩⟩ :
            (SealCall.next packs message associated).result suite x.session = _)
        have hlt := x.session.nextSend.toNat_lt
        rw [eq_lastNumber_iff] at hlast
        rw [hmove, SealCall.number, Session.afterSealing, UInt64.toNat_add, UInt64.toNat_one]
        omega
  | given message associated sequence =>
      obtain ⟨sealed, hcipher⟩ := Option.isSome_iff_exists.mp h
      have hmove := step_session_of_ok (x := x) (SealCall.result_given_eq_ok_iff.mpr
        ⟨sealed, Session.sealAt_eq_ok_iff.mpr ⟨hcipher, rfl⟩⟩ :
          (SealCall.given message associated sequence).result suite x.session = _)
      rw [hmove, SealCall.number, Session.afterSealing, UInt64.toNat_max, toNat_successor]
      omega

/-- The counter is above every number used, or at the last number. -/
def Ahead (x : SealingRun) : Prop :=
  ∀ n ∈ x.used, min (n.toNat + 1) 18446744073709551615 ≤ x.session.nextSend.toNat

theorem nextSend_le_step (suite : Suite) (x : SealingRun) (call : SealCall) :
    x.session.nextSend.toNat ≤ (x.step suite call).session.nextSend.toNat := by
  cases h : call.isSealed suite x.session with
  | false => rw [step_of_not_sealed h]
  | true => exact (step_nextSend_of_sealed h).1

/-- No run moves the counter back. -/
theorem nextSend_le_run (suite : Suite) (x : SealingRun) (calls : List SealCall) :
    x.session.nextSend.toNat ≤ (x.run suite calls).session.nextSend.toNat := by
  induction calls generalizing x with
  | nil => exact Nat.le_refl _
  | cons call rest ih => exact (nextSend_le_step suite x call).trans (ih _)

namespace Ahead

theorem step (h : x.Ahead) (suite : Suite) (call : SealCall) :
    (x.step suite call).Ahead := by
  cases hsealed : call.isSealed suite x.session with
  | false =>
      rw [step_of_not_sealed hsealed]
      exact h
  | true =>
      obtain ⟨hback, hpast⟩ := step_nextSend_of_sealed hsealed
      intro n hn
      rw [step_used_of_sealed hsealed, List.mem_append, List.mem_singleton] at hn
      rcases hn with hold | rfl
      · exact (h n hold).trans hback
      · exact hpast

/-- A run keeps the counter ahead. -/
theorem run (h : x.Ahead) (suite : Suite) (calls : List SealCall) :
    (x.run suite calls).Ahead := by
  induction calls generalizing x with
  | nil => exact h
  | cons call rest ih => exact ih (h.step suite call)

/-- The counter is at a number used exactly if it is at the last and that was used. -/
theorem nextSend_mem_iff (h : x.Ahead) :
    x.session.nextSend ∈ x.used ↔ Session.lastNumber ∈ x.used := by
  have hlt := x.session.nextSend.toNat_lt
  constructor
  · intro hmem
    have hmin := h _ hmem
    have hlast : x.session.nextSend = Session.lastNumber := by
      rw [eq_lastNumber_iff]
      omega
    rw [← hlast]
    exact hmem
  · intro hmem
    have hmin := h _ hmem
    rw [toNat_lastNumber] at hmin
    have hlast : x.session.nextSend = Session.lastNumber := by
      rw [eq_lastNumber_iff]
      omega
    rw [hlast]
    exact hmem

end Ahead

theorem run_append (x : SealingRun) (before after : List SealCall) :
    x.run suite (before ++ after) = (x.run suite before).run suite after :=
  List.foldl_append

/-- Over any run of calls the counter never moves back.  A call for the next number
reuses a number exactly if the last number was used before; what it seals under a number
used before, it does not give out. -/
theorem next_number_used_iff (suite : Suite) (s : Session) (before : List SealCall) :
    (∀ after, (run suite { session := s } before).session.nextSend ≤
      (run suite { session := s } (before ++ after)).session.nextSend) ∧
    (∀ packs message associated,
      (SealCall.next packs message associated).number (run suite { session := s } before).session
        ∈ (run suite { session := s } before).used ↔
      Session.lastNumber ∈ (run suite { session := s } before).used) ∧
    (∀ packs message associated payload next,
      (run suite { session := s } before).session.sealFor suite packs message associated =
        .ok (payload, next) →
      (run suite { session := s } before).session.nextSend ∉
        (run suite { session := s } before).used) := by
  have hahead : (run suite { session := s } before).Ahead :=
    Ahead.run (by intro n hn; cases hn) suite before
  refine ⟨?_, fun _ _ _ => hahead.nextSend_mem_iff, ?_⟩
  · intro after
    rw [UInt64.le_iff_toNat_le, run_append]
    exact nextSend_le_run suite _ after
  · intro packs message associated payload next hok hmem
    obtain ⟨sealed, hnext, -⟩ := Session.sealFor_ok hok
    have hlast := (Session.sealNext_eq_ok_iff.mp hnext).2.1
    have hmin := hahead _ hmem
    have hlt := (run suite { session := s } before).session.nextSend.toNat_lt
    rw [ne_eq, eq_lastNumber_iff] at hlast
    omega

def sampleSession : Session where
  role := .client
  sendKey := Octets.zero 32
  receiveKey := Octets.zero 32
  salt := Octets.zero 16
  connectionId := 7
  keyedAt := .zero

/-- After a message under the last number, the cipher seals the next one under that number
again. -/
theorem next_number_used_after_last :
    let x := run .standard { session := sampleSession }
      [.given [101, 110, 100] [] Session.lastNumber]
    (SealCall.next false [120] []).isSealed .standard x.session = true ∧
      (SealCall.next false [120] []).number x.session ∈ x.used := by
  intro x
  have hlast : Session.lastNumber ∈ x.used := by
    decide +kernel
  have hnumber := next_number_used_iff .standard sampleSession
    [.given [101, 110, 100] [] Session.lastNumber]
  exact ⟨by decide +kernel, (hnumber.2.1 false [120] []).mpr hlast⟩

end SealingRun
end GameLink
