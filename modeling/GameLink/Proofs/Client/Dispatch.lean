import GameLink.Proofs.Client.Counter
import GameLink.Proofs.Client.Framing

/-!
# What goes out in whole calls

Application data goes out in calls to send, one after another.  Here each call is one step, so
that nothing comes between its looks at the link and at the session.

**Results.**
* `datagrams_cases`: what goes out in a call is the datagram that is made of the contents, and
  it passed the check of its size.
* `numbers_cases`: the number in front of application data is the counter of the session, which
  moves past it.
* `sealsWhole_sendings`: in every run of whole calls, what goes out is short enough, and data on
  an encrypted link is sealed under growing numbers.
-/

namespace GameLink

/-- A tagged buffer holds application data. -/
def Client.isData (contents : Bytes) : Bool :=
  match contents.head?.bind PacketKind.ofTag? with
  | some .reliable | some .unreliable => true
  | _ => false

/-- Application data is what has a channel on which it is sealed. -/
theorem Client.isData_eq (contents : Bytes) :
    Client.isData contents = (contents.head?.bind sealedChannel?).isSome := by
  simp only [Client.isData]
  cases contents.head? with
  | none => rfl
  | some tag =>
      simp only [Option.bind_some, sealedChannel?]
      cases PacketKind.ofTag? tag with
      | none => rfl
      | some kind => cases kind <;> rfl

section SendCalls

/-- A call to send, and the client that is asked.  The call is given the contents of the buffer
and not the buffer. -/
structure Sending where
  net : Network
  client : Client
  contents : Bytes
  /-- How often the application asked for new keys before. -/
  renewals : Nat

namespace Sending

open Client

def result (s : Sending) : Except Failure Unit :=
  (s.client.send s.net s.contents).1

def after (s : Sending) : Client :=
  (s.client.send s.net s.contents).2

/-- The datagrams that go out in the call. -/
def datagrams (s : Sending) : List Bytes :=
  s.after.datagrams.drop s.client.datagrams.length

/-- The numbers in the headers of these datagrams. -/
def numbers (s : Sending) : List UInt64 :=
  s.datagrams.filterMap fun datagram => (Header.ofBytes datagram).toOption.map Header.sequence

/-- The contents are application data. -/
def isData (s : Sending) : Bool :=
  Client.isData s.contents

/-- What tells the keys of a session from those of others in a run: how often the link came up,
and how often the application asked for new keys. -/
def keying (s : Sending) : Nat × Nat :=
  (s.client.connections, s.renewals)

/-- There is a datagram to be sent, and it does not pass the check of its size. -/
def TooLarge (s : Sending) : Prop :=
  s.client.CanSend s.contents ∧
    ∃ datagram, s.client.made? s.contents = some datagram ∧
      s.client.Oversized s.contents datagram

/-- What goes out is a frame of the session that carries the contents. -/
def Sealed (s : Sending) : Prop :=
  ∀ datagram ∈ s.datagrams, ∃ (session : Session) (f : Frame),
    s.client.session = some session ∧ f.Carries s.client.setup.suite session s.contents ∧
      datagram = f.datagram ∧ Header.ofBytes datagram = .ok f.header

variable {s : Sending}

/-- What a call comes to when there is a link and something to send. -/
theorem sends (hpool : s.client.pool.Uniform) (hcan : s.client.CanSend s.contents) :
    s.client.Sends s.contents (s.result, s.after) :=
  sends_send hpool hcan s.net

/-- What the socket takes in a call goes out in it. -/
theorem datagrams_eq {sent : List Bytes} (h : s.after.datagrams = s.client.datagrams ++ sent) :
    s.datagrams = sent := by
  rw [datagrams, h, List.drop_left]

theorem datagrams_eq_nil (h : s.after.datagrams = s.client.datagrams) : s.datagrams = [] :=
  datagrams_eq (by rw [h, List.append_nil])

/-- What goes out in a call is the datagram that is made of the contents, and it passed the check
of its size. -/
theorem datagrams_cases (hpool : s.client.pool.Uniform) :
    s.datagrams = [] ∨
      ∃ datagram, s.datagrams = [datagram] ∧ s.client.CanSend s.contents ∧
        s.client.made? s.contents = some datagram ∧
          ¬ s.client.Oversized s.contents datagram := by
  by_cases hcan : s.client.CanSend s.contents
  · have hsends := s.sends hpool hcan
    generalize s.result = result, hsame : s.after = after at hsends
    cases hsends with
    | unsealed => exact Or.inl (datagrams_eq_nil (congrArg Client.datagrams hsame))
    | oversized _ _ _ hafter => exact Or.inl (datagrams_eq_nil (by rw [hsame, hafter]))
    | untaken _ _ hafter => exact Or.inl (datagrams_eq_nil (by rw [hsame, hafter]))
    | @taken datagram hmade hfits c' hafter =>
        exact Or.inr ⟨datagram, datagrams_eq (by rw [hsame, hafter]), hcan, hmade, hfits⟩
  · refine Or.inl (datagrams_eq_nil ?_)
    rw [after, send_of_not_canSend hcan]

/-- A call that succeeds on a link has sent the datagram that is made of the contents. -/
theorem datagrams_of_ok
    (hpool : s.client.pool.Uniform) (hcan : s.client.CanSend s.contents)
    (hok : s.result = .ok ()) :
    ∃ datagram, s.datagrams = [datagram] ∧ s.client.made? s.contents = some datagram := by
  have hsends := s.sends hpool hcan
  rw [hok] at hsends
  generalize hsame : s.after = after at hsends
  cases hsends with
  | @taken datagram hmade _ _ hafter =>
      exact ⟨datagram, datagrams_eq (by rw [hsame, hafter]), hmade⟩

theorem not_tooLarge
    {datagram : Bytes} (hmade : s.client.made? s.contents = some datagram)
    (hfits : ¬ s.client.Oversized s.contents datagram) : ¬ s.TooLarge := by
  rintro ⟨-, other, hother, hlarge⟩
  cases hmade.symm.trans hother
  exact hfits hlarge

/-- A call fails for a malformed packet exactly if the check of the size fails. -/
theorem tooLarge_iff (hpool : s.client.pool.Uniform) :
    s.TooLarge ↔ ∃ defect, s.result = .error (.malformed defect) := by
  by_cases hcan : s.client.CanSend s.contents
  · have hsends := s.sends hpool hcan
    generalize s.result = result, s.after = after at hsends ⊢
    cases hsends with
    | unsealed hmade failure hfailure =>
        constructor
        · rintro ⟨-, datagram, hdatagram, -⟩
          rw [hmade] at hdatagram
          cases hdatagram
        · rintro ⟨defect, h⟩
          cases h
          rcases hfailure with h | h <;> cases h
    | oversized hmade hlarge defect _ =>
        exact ⟨fun _ => ⟨defect, rfl⟩, fun _ => ⟨hcan, _, hmade, hlarge⟩⟩
    | taken hmade hfits _ => exact ⟨fun h => absurd h (not_tooLarge hmade hfits), nofun⟩
    | untaken hmade hfits _ => exact ⟨fun h => absurd h (not_tooLarge hmade hfits), nofun⟩
  · constructor
    · exact fun h => absurd h.1 hcan
    · rintro ⟨defect, h⟩
      rw [result, send_of_not_canSend hcan] at h
      cases h

theorem datagrams_of_tooLarge (hpool : s.client.pool.Uniform) (h : s.TooLarge) :
    s.datagrams = [] := by
  rcases datagrams_cases hpool with hnone | ⟨_, -, -, hmade, hfits⟩
  · exact hnone
  · exact absurd h (not_tooLarge hmade hfits)

theorem length_le_of_mem_datagrams (hpool : s.client.pool.Uniform) :
    ∀ datagram ∈ s.datagrams, datagram.length ≤ s.client.sizeLimit := by
  intro datagram hmem
  rcases datagrams_cases hpool with hnone | ⟨other, hone, -, -, hfits⟩
  · rw [hnone] at hmem
    cases hmem
  · rw [hone, List.mem_singleton] at hmem
    rw [hmem]
    exact Nat.le_of_not_lt fun hlarge => hfits (Or.inl hlarge)

/-- What goes out of application data on an encrypted link is a frame, and uses up the number of
its header. -/
theorem frame_of_mem_datagrams
    (hready : s.client.Ready)
    (hencrypted : s.client.setup.settings.security.encryptionEnabled = true)
    (hdata : s.isData = true) :
    ∀ datagram ∈ s.datagrams, ∃ (session : Session) (f : Frame),
      s.datagrams = [f.datagram] ∧ datagram = f.datagram ∧ s.client.session = some session ∧
        f.Carries s.client.setup.suite session s.contents ∧
          ∃ later, s.after.session = some later ∧ session.nextSend < later.nextSend := by
  intro datagram hmem
  rcases datagrams_cases hready.uniform with hnone | ⟨other, hone, hcan, hmade, -⟩
  · rw [hnone] at hmem
    cases hmem
  · have hsome := ((consistent_of_sound hready.sound).session_iff hcan.connected).mpr hencrypted
    obtain ⟨session, hsession⟩ := Option.isSome_iff_exists.mp hsome
    obtain ⟨f, hf, rfl, hlast, hlater⟩ :=
      frame_of_made (by rw [← Client.isData_eq]; exact hdata) hsession hmade
    rw [← session_send hcan s.net] at hlater
    rw [hone, List.mem_singleton] at hmem
    exact ⟨session, f, hone, hmem, hsession, hf, _, hlater,
      Session.nextSend_lt_afterSealing hlast f.sealed⟩

theorem sealed_of_isData
    (hready : s.client.Ready)
    (hencrypted : s.client.setup.settings.security.encryptionEnabled = true)
    (hdata : s.isData = true) : s.Sealed := by
  intro datagram hmem
  obtain ⟨session, f, -, rfl, hsession, hf, -⟩ :=
    frame_of_mem_datagrams hready hencrypted hdata datagram hmem
  exact ⟨session, f, hsession, hf, rfl, Header.ofBytes_toBytes f.header f.payload⟩

/-- The number that goes out with application data is the counter of the session, which moves
past it. -/
theorem numbers_cases
    (hready : s.client.Ready)
    (hencrypted : s.client.setup.settings.security.encryptionEnabled = true)
    (hdata : s.isData = true) :
    s.numbers = [] ∨
      ∃ session later, s.client.session = some session ∧ s.numbers = [session.nextSend] ∧
        s.after.session = some later ∧ session.nextSend < later.nextSend := by
  cases hsent : s.datagrams with
  | nil => exact Or.inl (by rw [numbers, hsent]; rfl)
  | cons datagram rest =>
      obtain ⟨session, f, hone, -, hsession, hf, later, hlater, hlt⟩ :=
        frame_of_mem_datagrams hready hencrypted hdata datagram (by rw [hsent]; simp)
      refine Or.inr ⟨session, later, hsession, ?_, hlater, hlt⟩
      have hread : Header.ofBytes f.datagram = .ok f.header := Header.ofBytes_toBytes _ _
      rw [numbers, hone, List.filterMap_cons_some (b := f.header.sequence) (by rw [hread]; rfl),
        List.filterMap_nil, hf.sequence]

end Sending

end SendCalls

section Runs

namespace Client

variable {c : Client}

/-- The calls to send in a run, after a number of renewals. -/
def sendings (c : Client) (renewals : Nat) : List (Network × Action) → List Sending
  | [] => []
  | (net, action) :: rest =>
      let later := (c.act net action).2
      match action with
      | .send contents => ⟨net, c, contents, renewals⟩ :: later.sendings renewals rest
      | .renewKeys => later.sendings (renewals + 1) rest
      | _ => later.sendings renewals rest

theorem ready_sendings
    (hc : c.Ready) (renewals : Nat) (actions : List (Network × Action)) :
    ∀ s ∈ c.sendings renewals actions, s.client.Ready ∧ s.client.setup = c.setup := by
  induction actions generalizing c renewals with
  | nil => simp [sendings]
  | cons taken rest ih =>
      obtain ⟨net, action⟩ := taken
      have hlater (renewals : Nat) :
          ∀ s ∈ (c.act net action).2.sendings renewals rest,
            s.client.Ready ∧ s.client.setup = c.setup := by
        intro s hs
        obtain ⟨hready, hsetup⟩ := ih (hc.act net action) renewals s hs
        exact ⟨hready, hsetup.trans (passes_act net c action).reaches.setup_eq⟩
      cases action with
      | send contents => exact List.forall_mem_cons.mpr ⟨⟨hc, rfl⟩, hlater renewals⟩
      | renewKeys => exact hlater (renewals + 1)
      | _ => exact hlater renewals

/-- The client of a call is a later one than the client before, unless the application asked for
new keys in between. -/
theorem advances_sendings
    (hc : c.Ready) (renewals : Nat) (actions : List (Network × Action)) :
    ∀ s ∈ c.sendings renewals actions,
      renewals ≤ s.renewals ∧ (s.renewals = renewals → Advances c s.client) := by
  induction actions generalizing c renewals with
  | nil => simp [sendings]
  | cons taken rest ih =>
      obtain ⟨net, action⟩ := taken
      have hlater (hkept : action ≠ .renewKeys) :
          ∀ s ∈ (c.act net action).2.sendings renewals rest,
            renewals ≤ s.renewals ∧ (s.renewals = renewals → Advances c s.client) := by
        intro s hs
        obtain ⟨hle, hadvances⟩ := ih (hc.act net action) renewals s hs
        exact ⟨hle, fun heq => (advances_act net hc hkept).trans (hadvances heq)⟩
      cases action with
      | send contents =>
          exact List.forall_mem_cons.mpr ⟨⟨Nat.le_refl _, fun _ => .refl c⟩, hlater nofun⟩
      | renewKeys =>
          intro s hs
          have hle := (ih (hc.act net .renewKeys) (renewals + 1) s hs).1
          exact ⟨by omega, fun heq => by omega⟩
      | _ => exact hlater nofun

/-- Of two calls between two renewals, the client of the second is a later one than the client
after the first. -/
theorem pairwise_sendings
    (hc : c.Ready) (renewals : Nat) (actions : List (Network × Action)) :
    (c.sendings renewals actions).Pairwise fun s s' =>
      s.renewals = s'.renewals → Advances s.after s'.client := by
  induction actions generalizing c renewals with
  | nil => exact .nil
  | cons taken rest ih =>
      obtain ⟨net, action⟩ := taken
      cases action with
      | send contents =>
          refine List.pairwise_cons.mpr ⟨fun s' hs' heq => ?_, ih (hc.act net _) renewals⟩
          exact (advances_sendings (hc.act net (.send contents)) renewals rest s' hs').2 heq.symm
      | renewKeys => exact ih (hc.act net _) (renewals + 1)
      | _ => exact ih (hc.act net _) renewals

end Client

/-- Numbers that go out under the same keys grow from call to call. -/
theorem Sending.numbers_lt
    {s s' : Sending} (hready : s.client.Ready) (hready' : s'.client.Ready)
    (hencrypted : s.client.setup.settings.security.encryptionEnabled = true)
    (hencrypted' : s'.client.setup.settings.security.encryptionEnabled = true)
    (hdata : s.isData = true) (hdata' : s'.isData = true) (hkeying : s.keying = s'.keying)
    (hadvances : Client.Advances s.after s'.client) :
    ∀ n ∈ s.numbers, ∀ n' ∈ s'.numbers, n < n' := by
  intro n hn n' hn'
  rcases numbers_cases hready hencrypted hdata with
    hnone | ⟨session, later, -, hnumbers, hlater, hlt⟩
  · rw [hnone] at hn
    cases hn
  · rcases numbers_cases hready' hencrypted' hdata' with
      hnone | ⟨session', _, hsession', hnumbers', -, -⟩
    · rw [hnone] at hn'
      cases hn'
    · have hsame : s.client.connections = s'.client.connections := congrArg Prod.fst hkeying
      have hcall : Client.Advances s.client (s.client.act s.net (.send s.contents)).2 :=
        Client.advances_act s.net hready nofun
      have hfirst : s.client.connections ≤ s.after.connections := hcall.connections_le
      have hsecond := hadvances.connections_le
      obtain ⟨_, hafter, hle⟩ := hadvances.session (by omega) session' hsession'
      cases hlater.symm.trans hafter
      rw [hnumbers, List.mem_singleton] at hn
      rw [hnumbers', List.mem_singleton] at hn'
      rw [hn, hn']
      exact UInt64.lt_of_lt_of_le hlt hle

namespace Client

/-- What is known of calls to send, each of them whole.  A call that succeeds on a link has sent its
datagram; what goes out is short enough; a datagram that is too long does not go out, and the call
says so.  On an encrypted link application data goes out sealed, in frames whose headers tell the
numbers they are sealed under; between two renewals of the keys of a session these numbers grow. -/
structure SealsWhole (setup : Setup) (sendings : List Sending) : Prop where
  sent : ∀ s ∈ sendings, s.client.CanSend s.contents → s.result = .ok () →
    ∃ datagram, s.datagrams = [datagram] ∧ s.client.made? s.contents = some datagram
  short : ∀ s ∈ sendings, ∀ datagram ∈ s.datagrams,
    datagram.length ≤ min setup.settings.performance.maxPacketSize.toNat maxDatagramSize
  malformed_iff : ∀ s ∈ sendings, s.TooLarge ↔ ∃ defect, s.result = .error (.malformed defect)
  unsent : ∀ s ∈ sendings, s.TooLarge → s.datagrams = []
  sealed : setup.settings.security.encryptionEnabled = true →
    ∀ s ∈ sendings, s.isData = true → s.Sealed
  increasing : setup.settings.security.encryptionEnabled = true → ∀ keying,
    ((sendings.filter fun s => s.isData && s.keying = keying).flatMap
      Sending.numbers).Pairwise (· < ·)

theorem sealsWhole_sendings (setup : Setup) (entropy : Entropy) (now : Moment)
    (actions : List (Network × Action)) :
    SealsWhole setup ((create setup entropy now).sendings 0 actions) := by
  let sendings := (create setup entropy now).sendings 0 actions
  have hstart : (create setup entropy now).Ready := .create setup entropy now
  have hready : ∀ s ∈ sendings, s.client.Ready ∧ s.client.setup = setup :=
    ready_sendings hstart 0 actions
  refine ⟨fun s hs => Sending.datagrams_of_ok (hready s hs).1.uniform, fun s hs => ?_,
    fun s hs => Sending.tooLarge_iff (hready s hs).1.uniform,
    fun s hs => Sending.datagrams_of_tooLarge (hready s hs).1.uniform,
    fun hencrypted s hs => ?_, fun hencrypted keying => ?_⟩
  · obtain ⟨hclient, rfl⟩ := hready s hs
    exact Sending.length_le_of_mem_datagrams hclient.uniform
  · obtain ⟨hclient, rfl⟩ := hready s hs
    exact Sending.sealed_of_isData hclient hencrypted
  · have hpairs := (pairwise_sendings hstart 0 actions).filter
      fun s => s.isData && s.keying = keying
    have hmem {s : Sending}
        (hs : s ∈ sendings.filter fun s => s.isData && s.keying = keying) :
        s.client.Ready ∧ s.client.setup.settings.security.encryptionEnabled = true ∧
          s.isData = true ∧ s.keying = keying := by
      rw [List.mem_filter, Bool.and_eq_true, decide_eq_true_eq] at hs
      obtain ⟨hclient, rfl⟩ := hready s hs.1
      exact ⟨hclient, hencrypted, hs.2⟩
    refine List.pairwise_flatMap.mpr ⟨fun s hs => ?_, hpairs.imp_of_mem ?_⟩
    · obtain ⟨hclient, hsecure, hdata, -⟩ := hmem hs
      rcases Sending.numbers_cases hclient hsecure hdata with hnone | ⟨_, _, -, hone, -⟩
      · rw [hnone]
        exact .nil
      · rw [hone]
        exact List.pairwise_singleton _ _
    · intro s s' hs hs' hadvances
      obtain ⟨hclient, hsecure, hdata, hkeying⟩ := hmem hs
      obtain ⟨hclient', hsecure', hdata', hkeying'⟩ := hmem hs'
      have hsame : s.keying = s'.keying := hkeying.trans hkeying'.symm
      exact Sending.numbers_lt hclient hclient' hsecure hsecure' hdata hdata' hsame
        (hadvances (congrArg Prod.snd hsame))

/-- A client that sends at most forty octets at once. -/
def narrowSetup : Setup :=
  { sampleSetup with
    settings := { performance := { poolPrealloc := 0, bufferCapacity := 64, maxPacketSize := 40 } }
    suite := paddingSuite }

/-- The client connects and sends three times; what it sends second is too long. -/
def narrowActions : List (Network × Action) :=
  [(.single 1, .connectConfigured),
    (.single 1, .deliver ⟨⟨1, 3565⟩, sampleAcceptance⟩),
    (.single 1, .pollTurn),
    (.single 1, .send (zeros 5)),
    (.single 1, .send (zeros 20)),
    (.single 1, .send (zeros 10))]

/-- What is too long does not go out, and uses up a number all the same. -/
example :
    ((create narrowSetup (.cyclic []) .zero).sendings 0 narrowActions).map
        (fun s => (s.result.toOption.isSome, s.numbers)) =
      [(true, [0]), (false, []), (true, [2])] := by
  decide +kernel

end Client

end Runs

end GameLink
