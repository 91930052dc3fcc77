import GameLink.Header
import GameLink.Proofs.Packing
import GameLink.Proofs.ReplayWindow
import GameLink.Proofs.Session.Operations
import Mathlib.Data.List.MinMax
import Mathlib.Order.Nat

/-!
# A secure channel over a hostile network

One session seals messages, the other opens what arrives, and the network in between
does as it likes: datagrams are lost, repeated, reordered, altered and made up.

The cipher is ideal in this sense: whatever arrives, opening yields exactly the messages
that the sender has sealed so far under the same key, nonce and associated data and
whose sealed form it is.  Nothing is asked of what does not arrive.

**Results.**
* `Coherent.run`: what a run of sealings and arrivals keeps.
* `secure_delivery`: each opened message is the one sealed under its number, no number
  is opened twice, and an unaltered datagram is opened exactly if its number was not
  opened before and is less than 64 below the highest opened one.
-/

namespace GameLink

/-- A datagram of the secure channel. -/
structure Datagram where
  header : Header
  payload : Bytes
deriving DecidableEq

/-- The payload with what the header says of its packing. -/
def Datagram.packed (d : Datagram) : Packed :=
  ⟨d.payload, d.header.flags.compressed⟩

/-- One use of the cipher for sealing. -/
structure Sealing where
  key : Key
  nonce : Nonce
  associated : Bytes
  message : Bytes
deriving DecidableEq

/-- The sealed form that the cipher gives. -/
def Sealing.sealed? (suite : Suite) (s : Sealing) : Option Bytes :=
  suite.seal? s.key s.nonce s.associated s.message

/-- A message sent: how it was sealed and what went onto the network. -/
structure Sent where
  sealing : Sealing
  datagram : Datagram
deriving DecidableEq

/-- A message opened: its number, its text and its associated data. -/
structure Opened where
  sequence : UInt64
  message : Bytes
  associated : Bytes
deriving DecidableEq

/-- Two sessions, and what went from one to the other so far. -/
structure Exchange where
  sender : Session
  receiver : Session
  sent : List Sent := []
  opened : List Opened := []

/-- What happens in an exchange: the sender seals a message, with or without packing,
for a header whose number and packing it fills in; or some datagram arrives. -/
inductive ExchangeEvent
  | send (message : Bytes) (header : Header) (packs : Bool)
  | arrive (datagram : Datagram)

namespace Session

/-- Seals a message for a header, of which the number and the packing are filled in. -/
def emit (suite : Suite) (s : Session) (message : Bytes) (header : Header) (packs : Bool) :
    Except Failure (Sent × Session) :=
  let header := { header with sequence := s.nextSend }
  let sealing := ⟨s.sendKey, s.nonce s.nextSend, header.associatedData, message⟩
  (s.sealFor suite packs message header.associatedData).map fun (packed, next) =>
    let flags := { header.flags with compressed := packed.compressed }
    (⟨sealing, ⟨{ header with flags }, packed.bytes⟩⟩, next)

end Session

namespace Exchange

/-- One event.  What fails leaves everything as it is. -/
def step (suite : Suite) (x : Exchange) : ExchangeEvent → Exchange
  | .send message header packs =>
      match x.sender.emit suite message header packs with
      | .ok (item, next) => { x with sender := next, sent := x.sent ++ [item] }
      | .error _ => x
  | .arrive d =>
      match x.receiver.openPacked suite d.packed d.header.associatedData d.header.sequence with
      | .ok (message, next) =>
          let item := ⟨d.header.sequence, message, d.header.associatedData⟩
          { x with receiver := next, opened := x.opened ++ [item] }
      | .error _ => x

/-- Events one after the other. -/
def run (suite : Suite) (x : Exchange) (events : List ExchangeEvent) : Exchange :=
  events.foldl (step suite) x

/-- Whether the receiver opens a datagram. -/
def Opens (suite : Suite) (x : Exchange) (d : Datagram) : Prop :=
  ∃ message next,
    x.receiver.openPacked suite d.packed d.header.associatedData d.header.sequence =
      .ok (message, next)

/-- The highest number opened, zero at the start. -/
def highestOpened (x : Exchange) : Nat :=
  (x.opened.map fun o => o.sequence.toNat).foldr max 0

/-- The cipher opens an arriving payload exactly if it is the sealed form of a message
sealed so far under the same key, nonce and associated data. -/
def Unforged (suite : Suite) (x : Exchange) (d : Datagram) : Prop :=
  ∀ sealed, Packing.unpack d.packed = .ok sealed → ∀ message,
    let sealing : Sealing :=
      ⟨x.receiver.receiveKey, x.receiver.nonce d.header.sequence, d.header.associatedData,
        message⟩
    suite.open? sealing.key sealing.nonce sealing.associated sealed = some message ↔
      sealing ∈ x.sent.map Sent.sealing ∧ sealing.sealed? suite = some sealed

/-- The messages sealed so far with a given sealed form, under what a datagram is opened
with. -/
def candidates (suite : Suite) (x : Exchange) (d : Datagram) (sealed : Bytes) :
    List Bytes :=
  (x.sent.map fun item => item.sealing.message).filter fun message =>
    let sealing : Sealing :=
      ⟨x.receiver.receiveKey, x.receiver.nonce d.header.sequence, d.header.associatedData,
        message⟩
    sealing ∈ x.sent.map Sent.sealing ∧ sealing.sealed? suite = some sealed

/-- Whether opening a datagram gives the candidates and nothing else. -/
def opensCandidates (suite : Suite) (x : Exchange) (d : Datagram) : Bool :=
  match Packing.unpack d.packed with
  | .error _ => true
  | .ok sealed =>
      let outcome := suite.open? x.receiver.receiveKey (x.receiver.nonce d.header.sequence)
        d.header.associatedData sealed
      outcome.all (x.candidates suite d sealed).contains &&
        (x.candidates suite d sealed).all fun message => outcome = some message

theorem message_mem_of_sealing_mem
    {x : Exchange} {sealing : Sealing} (h : sealing ∈ x.sent.map Sent.sealing) :
    sealing.message ∈ x.sent.map fun item => item.sealing.message := by
  obtain ⟨item, hitem, rfl⟩ := List.mem_map.mp h
  exact List.mem_map.mpr ⟨item, hitem, rfl⟩

theorem opensCandidates_iff (suite : Suite) (x : Exchange) (d : Datagram) :
    x.opensCandidates suite d = true ↔ x.Unforged suite d := by
  simp only [opensCandidates, Unforged]
  cases Packing.unpack d.packed with
  | error failure => simp
  | ok sealed =>
      simp only [Bool.and_eq_true, Option.all_eq_true, List.all_eq_true, decide_eq_true_eq,
        List.contains_iff_mem, candidates, List.mem_filter, Except.ok.injEq, forall_eq']
      constructor
      · rintro ⟨hsome, hall⟩ message
        constructor
        · intro hopen
          exact (hsome message hopen).2
        · rintro ⟨hmem, hsealed⟩
          exact hall message ⟨message_mem_of_sealing_mem hmem, hmem, hsealed⟩
      · intro h
        refine ⟨?_, fun message hmessage => (h message).mpr hmessage.2⟩
        intro message hopen
        obtain ⟨hmem, hsealed⟩ := (h message).mp hopen
        exact ⟨message_mem_of_sealing_mem hmem, hmem, hsealed⟩

instance (suite : Suite) (x : Exchange) (d : Datagram) : Decidable (x.Unforged suite d) :=
  decidable_of_iff _ (opensCandidates_iff suite x d)

/-- The cipher behaves ideally on everything that arrives during a run. -/
def Ideal (suite : Suite) (x : Exchange) : List ExchangeEvent → Prop
  | [] => True
  | .send message header packs :: rest =>
      Ideal suite (x.step suite (.send message header packs)) rest
  | .arrive d :: rest => x.Unforged suite d ∧ Ideal suite (x.step suite (.arrive d)) rest

instance instDecidableIdeal (suite : Suite) :
    (x : Exchange) → (events : List ExchangeEvent) → Decidable (x.Ideal suite events)
  | _, [] => isTrue trivial
  | x, .send message header packs :: rest =>
      instDecidableIdeal suite (x.step suite (.send message header packs)) rest
  | x, .arrive d :: rest =>
      have := instDecidableIdeal suite (x.step suite (.arrive d)) rest
      inferInstanceAs (Decidable (_ ∧ _))

variable {suite : Suite} {x : Exchange}

/-- What a sent item owes to the session that sealed it: key, nonce and associated data
are those of the session and the header, and the payload unpacks to the sealed form unless
it was compressed from too long a one. -/
structure Carries (suite : Suite) (s : Session) (item : Sent) : Prop where
  key : item.sealing.key = s.sendKey
  nonce : item.sealing.nonce = s.nonce item.datagram.header.sequence
  associated : item.sealing.associated = item.datagram.header.associatedData
  payload :
    ∃ sealed, item.sealing.sealed? suite = some sealed ∧
      Packing.unpack item.datagram.packed =
        if item.datagram.packed.compressed ∧ Packing.unpackLimit < sealed.length then
          .error .decompression
        else
          .ok sealed

/-- What sealing a message for a header gives. -/
theorem emit_ok
    {s next : Session} {message : Bytes} {header : Header} {packs : Bool} {item : Sent}
    (h : s.emit suite message header packs = .ok (item, next)) :
    Carries suite s item ∧ item.datagram.header.sequence = s.nextSend ∧
      s.nextSend ≠ Session.lastNumber ∧
      ∃ sealed, next = s.afterSealing (s.nextSend + 1) sealed := by
  simp only [Session.emit] at h
  cases hfor : s.sealFor suite packs message
      { header with sequence := s.nextSend }.associatedData with
  | error failure =>
      simp only [hfor] at h
      cases h
  | ok result =>
      simp only [hfor] at h
      cases h
      obtain ⟨sealed, hsealed, hunpack⟩ := Session.sealFor_ok hfor
      obtain ⟨hcipher, hlast, hafter⟩ := Session.sealNext_eq_ok_iff.mp hsealed
      exact ⟨⟨rfl, rfl, rfl, sealed, hcipher, hunpack⟩, rfl, hlast, sealed, hafter⟩

theorem step_send_of_ok
    {message : Bytes} {header : Header} {packs : Bool} {item : Sent} {next : Session}
    (h : x.sender.emit suite message header packs = .ok (item, next)) :
    x.step suite (.send message header packs) =
      { x with sender := next, sent := x.sent ++ [item] } := by
  simp only [step, h]

theorem step_send_of_error
    {message : Bytes} {header : Header} {packs : Bool} {failure : Failure}
    (h : x.sender.emit suite message header packs = .error failure) :
    x.step suite (.send message header packs) = x := by
  simp only [step, h]

theorem step_arrive_of_ok
    {d : Datagram} {message : Bytes} {next : Session}
    (h : x.receiver.openPacked suite d.packed d.header.associatedData d.header.sequence =
      .ok (message, next)) :
    x.step suite (.arrive d) =
      { x with
        receiver := next
        opened := x.opened ++ [⟨d.header.sequence, message, d.header.associatedData⟩] } := by
  simp only [step, h]

theorem step_arrive_of_error
    {d : Datagram} {failure : Failure}
    (h : x.receiver.openPacked suite d.packed d.header.associatedData d.header.sequence =
      .error failure) :
    x.step suite (.arrive d) = x := by
  simp only [step, h]

/-- What holds of an exchange at all times. -/
structure Coherent (suite : Suite) (x : Exchange) : Prop where
  /-- The receiver opens with the key that the sender seals with. -/
  keys : x.receiver.receiveKey = x.sender.sendKey
  /-- Both count the same connection into the nonces. -/
  connection : x.receiver.connectionId = x.sender.connectionId
  /-- The next number is the number of messages sent. -/
  count : x.sender.nextSend.toNat = x.sent.length
  /-- Each message has its place as its number. -/
  numbered : ∀ n (item : Sent), x.sent[n]? = some item → item.datagram.header.sequence.toNat = n
  carried : ∀ item ∈ x.sent, Carries suite x.sender item
  /-- The window holds the numbers opened. -/
  window : x.receiver.received.Records {seq | seq ∈ x.opened.map Opened.sequence}
  /-- What was opened is what was sent under its number. -/
  delivered :
    ∀ o ∈ x.opened, ∃ item, x.sent[o.sequence.toNat]? = some item ∧
      item.sealing.message = o.message ∧ item.sealing.associated = o.associated
  once : (x.opened.map Opened.sequence).Nodup

namespace Coherent

theorem start
    (hkeys : x.receiver.receiveKey = x.sender.sendKey)
    (hconnection : x.receiver.connectionId = x.sender.connectionId)
    (hnext : x.sender.nextSend = 0)
    (hreceived : x.receiver.received = .empty)
    (hsent : x.sent = [])
    (hopened : x.opened = []) :
    Coherent suite x where
  keys := hkeys
  connection := hconnection
  count := by simp [hnext, hsent]
  numbered := by simp [hsent]
  carried := by simp [hsent]
  window := by
    have hset : {seq | seq ∈ x.opened.map Opened.sequence} = ∅ := by simp [hopened]
    rw [hreceived, hset]
    exact ReplayWindow.records_empty
  delivered := by simp [hopened]
  once := by simp [hopened]

/-- The message sealed under a number that some opened one was sealed under. -/
theorem sent_of_mem_sealing
    (h : Coherent suite x) {seq : UInt64} {sealing : Sealing}
    (hmem : sealing ∈ x.sent.map Sent.sealing)
    (hnonce : sealing.nonce = x.receiver.nonce seq) :
    ∃ item, x.sent[seq.toNat]? = some item ∧ item.sealing = sealing := by
  obtain ⟨item, hitem, rfl⟩ := List.mem_map.mp hmem
  obtain ⟨n, hn⟩ := List.mem_iff_getElem?.mp hitem
  have hplace := h.numbered n item hn
  have hsame : item.datagram.header.sequence = seq := by
    apply (Session.nonce_inj h.connection.symm).mp
    rw [← (h.carried item hitem).nonce, hnonce]
  refine ⟨item, ?_, rfl⟩
  rw [← hsame, hplace]
  exact hn

theorem step_send
    (h : Coherent suite x) (message : Bytes) (header : Header) (packs : Bool) :
    Coherent suite (x.step suite (.send message header packs)) := by
  cases hemit : x.sender.emit suite message header packs with
  | error failure =>
      rw [step_send_of_error hemit]
      exact h
  | ok result =>
      obtain ⟨item, next⟩ := result
      rw [step_send_of_ok hemit]
      obtain ⟨hcarries, hseq, hlast, sealed, rfl⟩ := emit_ok hemit
      refine ⟨h.keys, h.connection, ?_, ?_, ?_, h.window, ?_, h.once⟩
      · -- The number is not the last one, so adding one does not wrap.
        have hne : x.sender.nextSend.toNat ≠ 18446744073709551615 := fun heq =>
          hlast (UInt64.toNat_inj.mp heq)
        have hlt := x.sender.nextSend.toNat_lt
        simp only [Session.afterSealing, List.length_append, List.length_singleton,
          UInt64.toNat_add, UInt64.toNat_one, ← h.count]
        omega
      · intro n other hn
        rcases Nat.lt_trichotomy n x.sent.length with hlt | heq | hgt
        · rw [List.getElem?_append_left hlt] at hn
          exact h.numbered n other hn
        · rw [heq, List.getElem?_concat_length] at hn
          cases hn
          rw [hseq, h.count, heq]
        · rw [List.getElem?_eq_none (by simp; omega)] at hn
          cases hn
      · intro other hother
        rcases List.mem_append.mp hother with hold | hnew
        · exact ⟨(h.carried other hold).key, (h.carried other hold).nonce,
            (h.carried other hold).associated, (h.carried other hold).payload⟩
        · rw [List.mem_singleton.mp hnew]
          exact ⟨hcarries.key, hcarries.nonce, hcarries.associated, hcarries.payload⟩
      · intro o ho
        obtain ⟨old, hold, hsame⟩ := h.delivered o ho
        exact ⟨old, List.getElem?_append_left (List.getElem?_eq_some_iff.mp hold).1 ▸ hold,
          hsame⟩

theorem step_arrive
    (h : Coherent suite x) {d : Datagram} (hd : x.Unforged suite d) :
    Coherent suite (x.step suite (.arrive d)) := by
  cases hopen : x.receiver.openPacked suite d.packed d.header.associatedData
      d.header.sequence with
  | error failure =>
      rw [step_arrive_of_error hopen]
      exact h
  | ok result =>
      obtain ⟨message, next⟩ := result
      rw [step_arrive_of_ok hopen]
      obtain ⟨sealed, hunpack, hat⟩ := Session.openPacked_eq_ok_iff.mp hopen
      obtain ⟨hfresh, hcipher, rfl⟩ := Session.openAt_eq_ok_iff.mp hat
      obtain ⟨hnew, -⟩ := (h.window.isFresh_iff _).mp hfresh
      obtain ⟨hmem, -⟩ := (hd sealed hunpack message).mp hcipher
      obtain ⟨item, hitem, hsealing⟩ := h.sent_of_mem_sealing hmem rfl
      refine ⟨h.keys, h.connection, h.count, h.numbered, h.carried, ?_, ?_, ?_⟩
      · have hset :
            {seq | seq ∈ (x.opened ++ [(⟨d.header.sequence, message,
              d.header.associatedData⟩ : Opened)]).map Opened.sequence} =
              insert d.header.sequence {seq | seq ∈ x.opened.map Opened.sequence} := by
          ext seq
          simp [or_comm]
        rw [hset]
        exact h.window.insert _
      · intro o ho
        rcases List.mem_append.mp ho with hold | hlast
        · exact h.delivered o hold
        · rw [List.mem_singleton.mp hlast]
          exact ⟨item, hitem, by rw [hsealing], by rw [hsealing]⟩
      · rw [List.map_append, List.nodup_append]
        refine ⟨h.once, by simp, ?_⟩
        intro seq hseq other hother heq
        rw [List.map_singleton, List.mem_singleton] at hother
        rw [heq, hother] at hseq
        exact hnew hseq

/-- A run keeps an exchange coherent. -/
theorem run
    (h : Coherent suite x) {events : List ExchangeEvent} (hideal : x.Ideal suite events) :
    Coherent suite (x.run suite events) := by
  induction events generalizing x with
  | nil => exact h
  | cons event rest ih =>
      cases event with
      | send message header packs => exact ih (h.step_send message header packs) hideal
      | arrive d => exact ih (h.step_arrive hideal.1) hideal.2

theorem highestOpened_eq (h : Coherent suite x) :
    x.highestOpened = x.receiver.received.highest.toNat := by
  apply Nat.le_antisymm
  · apply List.max_le_of_forall_le
    intro n hn
    obtain ⟨o, ho, rfl⟩ := List.mem_map.mp hn
    exact UInt64.le_iff_toNat_le.mp
      (h.window.le_highest o.sequence (List.mem_map_of_mem ho))
  · rcases h.window.highest_mem with hmem | ⟨-, hzero⟩
    · obtain ⟨o, ho, heq⟩ := List.mem_map.mp hmem
      rw [← heq]
      exact List.le_max_of_le (List.mem_map.mpr ⟨o, ho, rfl⟩) (Nat.le_refl _)
    · rw [hzero]
      exact Nat.zero_le _

/-- An unaltered datagram is opened exactly if its number is fresh. -/
theorem opens_iff
    (h : Coherent suite x) {n : Nat} {item : Sent}
    (hitem : x.sent[n]? = some item)
    (hd : x.Unforged suite item.datagram)
    (hsize : ∀ sealed ∈ item.sealing.sealed? suite,
      sealed.length ≤ Packing.unpackLimit) :
    x.Opens suite item.datagram ↔
      (∀ o ∈ x.opened, o.sequence.toNat ≠ n) ∧ x.highestOpened < n + 64 := by
  have hcarries := h.carried item (List.mem_of_getElem? hitem)
  obtain ⟨sealed, hsealed, hunpack⟩ := hcarries.payload
  rw [if_neg (by have := hsize sealed hsealed; omega)] at hunpack
  have hplace := h.numbered n item hitem
  -- The receiver's key, nonce and associated data are the sealing's own.
  have hsealing :
      (⟨x.receiver.receiveKey, x.receiver.nonce item.datagram.header.sequence,
        item.datagram.header.associatedData, item.sealing.message⟩ : Sealing) =
        item.sealing := by
    have hnonce := (Session.nonce_inj h.connection (m := item.datagram.header.sequence)).mpr rfl
    rw [h.keys, hnonce, ← hcarries.key, ← hcarries.nonce, ← hcarries.associated]
  have hcipher :
      suite.open? x.receiver.receiveKey (x.receiver.nonce item.datagram.header.sequence)
        item.datagram.header.associatedData sealed = some item.sealing.message := by
    refine (hd sealed hunpack item.sealing.message).mpr ?_
    rw [hsealing]
    exact ⟨List.mem_map_of_mem (List.mem_of_getElem? hitem), hsealed⟩
  have hfresh := h.window.isFresh_iff item.datagram.header.sequence
  rw [hplace, ← h.highestOpened_eq] at hfresh
  have hnew :
      (∀ o ∈ x.opened, o.sequence.toNat ≠ n) ↔
        item.datagram.header.sequence ∉ {seq | seq ∈ x.opened.map Opened.sequence} := by
    simp only [Set.mem_ofPred_eq, List.mem_map, not_exists, not_and]
    constructor
    · intro hall o ho heq
      exact hall o ho (heq ▸ hplace)
    · intro hall o ho heq
      exact hall o ho (UInt64.toNat_inj.mp (heq.trans hplace.symm))
  rw [hnew, ← hfresh]
  constructor
  · rintro ⟨message, next, hopen⟩
    obtain ⟨other, -, hat⟩ := Session.openPacked_eq_ok_iff.mp hopen
    exact (Session.openAt_eq_ok_iff.mp hat).1
  · intro hwindow
    exact ⟨item.sealing.message, _, Session.openPacked_eq_ok_iff.mpr
      ⟨sealed, hunpack, Session.openAt_eq_ok_iff.mpr ⟨hwindow, hcipher, rfl⟩⟩⟩

end Coherent

theorem run_append (x : Exchange) (before after : List ExchangeEvent) :
    x.run suite (before ++ after) = (x.run suite before).run suite after :=
  List.foldl_append

/-- What is sent stays sent. -/
theorem sent_step (x : Exchange) (event : ExchangeEvent) :
    x.sent <+: (x.step suite event).sent := by
  simp only [step]
  split
  · split
    · exact List.prefix_append _ _
    · exact List.prefix_refl _
  · split
    · exact List.prefix_refl _
    · exact List.prefix_refl _

theorem sent_run (x : Exchange) (events : List ExchangeEvent) :
    x.sent <+: (x.run suite events).sent := by
  induction events generalizing x with
  | nil => exact List.prefix_refl _
  | cons event rest ih => exact (sent_step x event).trans (ih _)

/-- A cipher that is ideal on a run is so on its parts. -/
theorem ideal_append
    {before after : List ExchangeEvent} (h : x.Ideal suite (before ++ after)) :
    x.Ideal suite before ∧ (x.run suite before).Ideal suite after := by
  induction before generalizing x with
  | nil => exact ⟨trivial, h⟩
  | cons event rest ih =>
      cases event with
      | send message header packs => exact ih h
      | arrive d => exact ⟨⟨h.1, (ih h.2).1⟩, (ih h.2).2⟩

/-- The secure channel over a hostile network.  Each opened message is the one sealed
under its number, with the same associated data; no number is opened twice; and an
unaltered datagram is opened exactly if its number was not opened before and is less than
64 below the highest number opened. -/
theorem secure_delivery
    (suite : Suite) (x : Exchange) (events : List ExchangeEvent)
    (hkeys : x.receiver.receiveKey = x.sender.sendKey)
    (hconnection : x.receiver.connectionId = x.sender.connectionId)
    (hnext : x.sender.nextSend = 0)
    (hreceived : x.receiver.received = .empty)
    (hsent : x.sent = [])
    (hopened : x.opened = [])
    (hideal : x.Ideal suite events)
    (hsize : ∀ item ∈ (x.run suite events).sent,
      ∀ sealed ∈ item.sealing.sealed? suite, sealed.length ≤ Packing.unpackLimit) :
    (∀ o ∈ (x.run suite events).opened,
      ∃ item, (x.run suite events).sent[o.sequence.toNat]? = some item ∧
        item.sealing.message = o.message ∧ item.sealing.associated = o.associated) ∧
    ((x.run suite events).opened.map Opened.sequence).Nodup ∧
    (∀ before after n item, events = before ++ .arrive item.datagram :: after →
      (x.run suite before).sent[n]? = some item →
      ((x.run suite before).Opens suite item.datagram ↔
        (∀ o ∈ (x.run suite before).opened, o.sequence.toNat ≠ n) ∧
          (x.run suite before).highestOpened < n + 64)) := by
  have hstart : Coherent suite x :=
    .start hkeys hconnection hnext hreceived hsent hopened
  have hend := hstart.run hideal
  refine ⟨hend.delivered, hend.once, ?_⟩
  rintro before after n item rfl hitem
  obtain ⟨hbefore, hafter⟩ := ideal_append hideal
  refine (hstart.run hbefore).opens_iff hitem hafter.1 (hsize item ?_)
  rw [run_append]
  exact (sent_run _ _).subset (List.mem_of_getElem? hitem)

/-- One end of a channel whose directions have the same key. -/
def sampleEnd (role : Role) : Session where
  role
  sendKey := Octets.zero 32
  receiveKey := Octets.zero 32
  salt := Octets.zero 16
  connectionId := 7
  keyedAt := .zero

/-- Both ends of that channel, before anything is sent. -/
def sampleStart : Exchange where
  sender := sampleEnd .client
  receiver := sampleEnd .server

/-- The header of a payload sealed on that channel. -/
def sampleHeader (sequence : UInt64) : Header where
  connectionId := 7
  channel := .reliableOrdered
  flags := { encrypted := true, chaCha20Poly1305 := true }
  sequence

/-- The first payload sealed on that channel, with a given first octet. -/
def sampleFirst (octet : UInt8) : Datagram where
  header := sampleHeader 0
  payload := octet ::
    [71, 112, 33, 203, 188, 30, 37, 82, 16, 106, 188, 115, 152, 113, 32, 96, 210]

/-- The second payload sealed on that channel. -/
def sampleSecond : Datagram where
  header := sampleHeader 1
  payload := [253, 237, 238, 5, 122, 65, 178, 224, 17, 131, 228, 132, 50, 166, 113, 163]

/-- How the first payload was sealed. -/
def sampleSent : Sent where
  sealing := ⟨Octets.zero 32, sampleStart.sender.nonce 0, (sampleHeader 0).associatedData,
    [104, 105]⟩
  datagram := sampleFirst 7

/-- Two messages are sealed; the second arrives, then the first, altered. -/
def sampleEvents : List ExchangeEvent :=
  [.send [104, 105] (sampleHeader 0) true, .send [] (sampleHeader 0) false,
    .arrive sampleSecond, .arrive (sampleFirst 8)]

/-- The first message is still opened when it arrives unaltered after all that. -/
theorem secure_delivery_reordered :
    sampleStart.Ideal .standard (sampleEvents ++ [.arrive sampleSent.datagram]) ∧
    (∀ item ∈ (sampleStart.run .standard (sampleEvents ++ [.arrive sampleSent.datagram])).sent,
      ∀ sealed ∈ item.sealing.sealed? .standard, sealed.length ≤ Packing.unpackLimit) ∧
    (sampleStart.run .standard sampleEvents).Opens .standard sampleSent.datagram := by
  have hfacts :
      (sampleStart.Ideal .standard (sampleEvents ++ [.arrive sampleSent.datagram]) ∧
        ∀ item ∈ (sampleStart.run .standard
            (sampleEvents ++ [.arrive sampleSent.datagram])).sent,
          ∀ sealed ∈ item.sealing.sealed? .standard, sealed.length ≤ Packing.unpackLimit) ∧
      (sampleStart.run .standard sampleEvents).sent[0]? = some sampleSent ∧
      (∀ o ∈ (sampleStart.run .standard sampleEvents).opened, o.sequence.toNat ≠ 0) ∧
        (sampleStart.run .standard sampleEvents).highestOpened < 0 + 64 := by
    decide +kernel
  obtain ⟨⟨hideal, hsize⟩, hsent, hnew⟩ := hfacts
  obtain ⟨-, -, hopens⟩ := secure_delivery .standard sampleStart
    (sampleEvents ++ [.arrive sampleSent.datagram]) rfl rfl rfl rfl rfl rfl hideal hsize
  exact ⟨hideal, hsize, (hopens sampleEvents [] 0 sampleSent rfl hsent).mpr hnew⟩

end Exchange
end GameLink
