import GameLink.Proofs.Client.Transitions

/-!
# What a client holds in each state of its link

Status, address, socket, session, client number and keys of a client are kept in
different places and change at different times.  They agree all the same.

**Results.**
* `Standing.Sound.transition`: every transition keeps the agreement.
* `consistent_run`: whatever happens to a new client, its parts agree, also between two
  datagrams of a burst.
-/

namespace GameLink
namespace Standing

/-- The agreement of status, address, socket, session, client number and keys. -/
structure Sound (s : Standing) : Prop where
  disconnected :
    s.status = .disconnected →
      s.remote = none ∧ s.clientId = none ∧ s.hasSocket = false ∧ s.sessionId = none
  connectionFailed :
    s.status = .connectionFailed → s.clientId = none ∧ s.sessionId = none
  connecting :
    s.status = .connecting →
      s.remote.isSome ∧ s.hasSocket = true ∧ s.clientId = none ∧ s.sessionId = none ∧
        s.keyPair.isSome = s.isEncrypting
  connected :
    s.status = .connected →
      s.remote.isSome ∧ s.hasSocket = true ∧ s.sessionId.isSome = s.isEncrypting ∧
        (s.sessionId.isSome → s.sessionId = s.clientId)

namespace Sound

variable {s t : Standing}

theorem transition (h : s.Sound) (hst : Transition s t) : t.Sound := by
  cases hst with
  | attemptFailed hstatus => constructor <;> simp
  | attemptBegun hstatus remote keyPair hkeys =>
      constructor <;> simp [hkeys, isEncrypting]
  | givenUp hstatus =>
      obtain ⟨-, -, hid, hsession, -⟩ := h.connecting hstatus
      constructor <;> simp [hid, hsession]
  | refused hstatus hkeys =>
      obtain ⟨-, -, hid, hsession, -⟩ := h.connecting hstatus
      constructor <;> simp [hid, hsession]
  | acceptedPlain hstatus hkeys clientId =>
      obtain ⟨hremote, hsocket, -, hsession, hencrypting⟩ := h.connecting hstatus
      have hplain : s.isEncrypting = false := by simpa [hkeys] using hencrypting.symm
      rw [isEncrypting] at hplain
      constructor <;> simp [hremote, hsocket, hsession, isEncrypting, hplain]
  | acceptedSecure hstatus hkeys clientId =>
      obtain ⟨hremote, hsocket, -, -, hencrypting⟩ := h.connecting hstatus
      have hsecure : s.isEncrypting = true := by simpa [hkeys] using hencrypting.symm
      rw [isEncrypting] at hsecure
      constructor <;> simp [hremote, hsocket, isEncrypting, hsecure]
  | dropped hstatus => constructor <;> simp
  | disconnected => constructor <;> simp

theorem reaches (h : s.Sound) (hst : Reaches s t) : t.Sound := by
  induction hst with
  | refl => exact h
  | tail _ hlast ih => exact ih.transition hlast

end Sound
end Standing

namespace Client

open Standing

/-- The parts of a client agree. -/
structure Consistent (c : Client) : Prop where
  /-- There is no session without a link. -/
  session_eq_none :
    c.link.status = .disconnected ∨ c.link.status = .connectionFailed → c.session = none
  /-- A link that was given up holds nothing. -/
  disconnected :
    c.link.status = .disconnected →
      c.socket = none ∧ c.link.remote = none ∧ c.link.clientId = none
  /-- Sessions and client numbers belong to links that are up. -/
  connected_of_isSome :
    c.session.isSome ∨ c.link.clientId.isSome → c.link.status = .connected
  /-- A link that is up has a socket and a server. -/
  connected :
    c.link.status = .connected → c.socket.isSome ∧ c.link.remote.isSome
  /-- A link that is up has a session exactly if it is to be encrypted. -/
  session_iff :
    c.link.status = .connected →
      (c.session.isSome ↔ c.setup.settings.security.encryptionEnabled = true)
  /-- The session counts the client number into its nonces. -/
  connectionId :
    ∀ s, c.session = some s → c.link.clientId = some s.connectionId
  /-- An attempt on an encrypted link has its keys until it is decided. -/
  keyPair :
    c.link.status = .connecting → c.link.remote.isSome →
      c.setup.settings.security.encryptionEnabled = true → c.link.keyPair.isSome

variable {c : Client}

theorem consistent_of_sound (h : c.standing.Sound) : c.Consistent := by
  have hsession (hnone : c.standing.sessionId = none) : c.session = none := by
    simpa [standing] using hnone
  have hsocket (hnone : c.standing.hasSocket = false) : c.socket = none := by
    simpa [standing] using hnone
  have hup : c.session.isSome ∨ c.link.clientId.isSome → c.link.status = .connected := by
    intro hsome
    cases hstatus : c.link.status with
    | disconnected =>
        obtain ⟨-, hid, -, hnone⟩ := h.disconnected hstatus
        have hid' : c.link.clientId = none := hid
        simp [hsession hnone, hid'] at hsome
    | connecting =>
        obtain ⟨-, -, hid, hnone, -⟩ := h.connecting hstatus
        have hid' : c.link.clientId = none := hid
        simp [hsession hnone, hid'] at hsome
    | connected => rfl
    | connectionFailed =>
        obtain ⟨hid, hnone⟩ := h.connectionFailed hstatus
        have hid' : c.link.clientId = none := hid
        simp [hsession hnone, hid'] at hsome
  refine ⟨?_, ?_, hup, ?_, ?_, ?_, ?_⟩
  · rintro (hstatus | hstatus)
    · exact hsession (h.disconnected hstatus).2.2.2
    · exact hsession (h.connectionFailed hstatus).2
  · intro hstatus
    obtain ⟨hremote, hid, hnone, -⟩ := h.disconnected hstatus
    exact ⟨hsocket hnone, hremote, hid⟩
  · intro hstatus
    obtain ⟨hremote, hsome, -, -⟩ := h.connected hstatus
    exact ⟨hsome, hremote⟩
  · intro hstatus
    obtain ⟨-, -, hiff, -⟩ := h.connected hstatus
    simp only [standing, Option.isSome_map] at hiff
    rw [hiff]
    rfl
  · intro s hs
    obtain ⟨-, -, -, hid⟩ := h.connected (hup (Or.inl (by rw [hs]; rfl)))
    simp only [standing, hs, Option.map_some, Option.isSome_some, true_implies] at hid
    exact hid.symm
  · intro hstatus _ henabled
    obtain ⟨-, -, -, -, hkeys⟩ := h.connecting hstatus
    exact hkeys.trans henabled

/-- Whatever happens to a new client, its setup stays and its parts agree: after every run,
and whenever a datagram is handled in one. -/
theorem consistent_run
    (setup : Setup) (entropy : Entropy) (now : Moment)
    (actions : List (Network × Action)) :
    let c := create setup entropy now
    ((c.run actions).setup = setup ∧ (c.run actions).Consistent) ∧
      ∀ h ∈ c.handlings actions, h.client.setup = setup ∧ h.client.Consistent := by
  intro c
  have hstart : c.standing.Sound := by
    constructor <;> simp [c, create, standing, Link.idle]
  have hkept {c' : Client} (h : Reaches c.standing c'.standing) :
      c'.setup = setup ∧ c'.Consistent :=
    ⟨h.setup_eq, consistent_of_sound (hstart.reaches h)⟩
  have hrun := passes_run c actions
  exact ⟨hkept hrun.reaches, fun h hmem => hkept (hrun.handled h hmem)⟩

end Client
end GameLink
