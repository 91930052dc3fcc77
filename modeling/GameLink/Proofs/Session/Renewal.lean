import GameLink.Proofs.Session.SendCounter

/-!
# Both ends renew in step

The keys of a channel follow a schedule that is given by the shared secret and the salt
alone.  Each end holds the keys of its epoch, one for each direction, whatever it has
sealed and opened; so two ends with the same secret that renewed equally often hold each
other's keys.

**Results.**
* `SameKeys.of_seal`, `SameKeys.of_open`: sealing and opening leave the keys alone.
* `OnSchedule.run`: after any calls, the keys are those of the epoch, and the epoch counts
  the renewals.
* `mirrored_after_renewals`: after a handshake the ends stay in step.
-/

namespace GameLink

/-- A call on a session. -/
inductive SessionCall
  | sealing (call : SealCall)
  | opening (sealed associated : Bytes) (sequence : UInt64)
  | openingPacked (payload : Packed) (associated : Bytes) (sequence : UInt64)
  | renewing (now : Moment)

namespace SessionCall

/-- The session after a call; one that fails leaves it as it is. -/
def apply (suite : Suite) (s : Session) : SessionCall → Session
  | .sealing call =>
      match call.result suite s with
      | .ok next => next
      | .error _ => s
  | .opening sealed associated sequence =>
      match s.openAt suite sealed associated sequence with
      | .ok (_, next) => next
      | .error _ => s
  | .openingPacked payload associated sequence =>
      match s.openPacked suite payload associated sequence with
      | .ok (_, next) => next
      | .error _ => s
  | .renewing now => s.renew suite now

def isRenewal : SessionCall → Bool
  | .renewing _ => true
  | _ => false

end SessionCall

namespace Session

/-- The session after some calls. -/
def run (suite : Suite) (s : Session) (calls : List SessionCall) : Session :=
  calls.foldl (SessionCall.apply suite) s

/-- How often the keys are renewed. -/
def renewals (calls : List SessionCall) : Nat :=
  calls.countP SessionCall.isRenewal

/-- Two sessions of one end with the same keys. -/
structure SameKeys (s t : Session) : Prop where
  role : t.role = s.role
  sendKey : t.sendKey = s.sendKey
  receiveKey : t.receiveKey = s.receiveKey
  salt : t.salt = s.salt
  epoch : t.epoch = s.epoch

namespace SameKeys

variable {suite : Suite} {s t : Session}

theorem refl (s : Session) : SameKeys s s :=
  ⟨rfl, rfl, rfl, rfl, rfl⟩

theorem of_seal
    {call : SealCall} (h : call.result suite s = .ok t) :
    SameKeys s t := by
  cases call with
  | next packs message associated =>
      obtain ⟨sealed, hnext⟩ := SealCall.result_next_eq_ok_iff.mp h
      obtain ⟨-, -, rfl⟩ := sealNext_eq_ok_iff.mp hnext
      exact ⟨rfl, rfl, rfl, rfl, rfl⟩
  | given message associated sequence =>
      obtain ⟨sealed, hat⟩ := SealCall.result_given_eq_ok_iff.mp h
      obtain ⟨-, rfl⟩ := sealAt_eq_ok_iff.mp hat
      exact ⟨rfl, rfl, rfl, rfl, rfl⟩

theorem of_open
    {sealed associated message : Bytes} {sequence : UInt64}
    (h : s.openAt suite sealed associated sequence = .ok (message, t)) :
    SameKeys s t := by
  obtain ⟨-, -, rfl⟩ := openAt_eq_ok_iff.mp h
  exact ⟨rfl, rfl, rfl, rfl, rfl⟩

/-- A call that does not renew leaves the keys alone. -/
theorem of_apply
    {call : SessionCall} (h : call.isRenewal = false) :
    SameKeys s (call.apply suite s) := by
  cases call with
  | sealing call =>
      simp only [SessionCall.apply]
      split
      · rename_i next hnext
        exact of_seal hnext
      · exact refl s
  | opening sealed associated sequence =>
      simp only [SessionCall.apply]
      split
      · rename_i message next hnext
        exact of_open hnext
      · exact refl s
  | openingPacked payload associated sequence =>
      simp only [SessionCall.apply]
      split
      · rename_i message next hnext
        obtain ⟨sealed, -, hat⟩ := openPacked_eq_ok_iff.mp hnext
        exact of_open hat
      · exact refl s
  | renewing now => cases h

end SameKeys

/-- The keys of each epoch of a channel. -/
def schedule (suite : Suite) (secret : Key) (salt : Salt) : Nat → ChannelKeys
  | 0 => suite.derive salt secret.bytes firstLabel
  | n + 1 =>
      let current := schedule suite secret salt n
      suite.derive salt (current.toClient.bytes ++ current.toServer.bytes) (renewalLabel (n + 1))

/-- A session of an end of a channel with the keys of some epoch. -/
structure OnSchedule
    (suite : Suite) (role : Role) (secret : Key) (salt : Salt) (epoch : Nat) (s : Session) :
    Prop where
  role_eq : s.role = role
  salt_eq : s.salt = salt
  epoch_eq : s.epoch = epoch
  sendKey_eq : s.sendKey = sendKeyOf role (schedule suite secret salt epoch)
  receiveKey_eq : s.receiveKey = receiveKeyOf role (schedule suite secret salt epoch)

namespace OnSchedule

variable {suite : Suite} {role : Role} {secret : Key} {salt : Salt} {n : Nat} {s : Session}

theorem start
    (suite : Suite) (now : Moment) (role : Role) (secret : Key) (salt : Salt)
    (connectionId : UInt32) :
    (ofSecret suite now role secret salt connectionId).OnSchedule suite role secret salt 0 :=
  ⟨rfl, rfl, rfl, rfl, rfl⟩

/-- Either end derives the next keys from the same octets. -/
theorem keys_eq (h : s.OnSchedule suite role secret salt n) :
    s.keys = schedule suite secret salt n := by
  cases role with
  | client => simp only [keys, h.role_eq, h.sendKey_eq, h.receiveKey_eq, sendKeyOf, receiveKeyOf]
  | server => simp only [keys, h.role_eq, h.sendKey_eq, h.receiveKey_eq, sendKeyOf, receiveKeyOf]

theorem renew
    (h : s.OnSchedule suite role secret salt n) (now : Moment) :
    (s.renew suite now).OnSchedule suite role secret salt (n + 1) where
  role_eq := h.role_eq
  salt_eq := h.salt_eq
  epoch_eq := by simp only [Session.renew, h.epoch_eq]
  sendKey_eq := by
    simp only [Session.renew, h.keys_eq, h.role_eq, h.salt_eq, h.epoch_eq,
      schedule]
  receiveKey_eq := by
    simp only [Session.renew, h.keys_eq, h.role_eq, h.salt_eq, h.epoch_eq,
      schedule]

theorem of_sameKeys
    {t : Session} (h : s.OnSchedule suite role secret salt n) (hsame : SameKeys s t) :
    t.OnSchedule suite role secret salt n where
  role_eq := hsame.role.trans h.role_eq
  salt_eq := hsame.salt.trans h.salt_eq
  epoch_eq := hsame.epoch.trans h.epoch_eq
  sendKey_eq := hsame.sendKey.trans h.sendKey_eq
  receiveKey_eq := hsame.receiveKey.trans h.receiveKey_eq

/-- After any calls the keys are those of the epoch, which counts the renewals. -/
theorem run
    (h : s.OnSchedule suite role secret salt n) (calls : List SessionCall) :
    (s.run suite calls).OnSchedule suite role secret salt (n + renewals calls) := by
  induction calls generalizing s n with
  | nil => exact h
  | cons call rest ih =>
      cases hrenewal : call.isRenewal with
      | false =>
          have hcount : renewals (call :: rest) = renewals rest :=
            List.countP_cons_of_neg (by simp [hrenewal])
          rw [hcount]
          exact ih (h.of_sameKeys (.of_apply hrenewal))
      | true =>
          have hcount : renewals (call :: rest) = renewals rest + 1 :=
            List.countP_cons_of_pos hrenewal
          cases call with
          | renewing now =>
              rw [hcount, Nat.add_comm (renewals rest), ← Nat.add_assoc]
              exact ih (h.renew now)
          | sealing call => cases hrenewal
          | opening sealed associated sequence => cases hrenewal
          | openingPacked payload associated sequence => cases hrenewal

/-- Two ends of a channel in the same epoch hold each other's keys. -/
theorem mirrored
    {client server : Session}
    (hclient : client.OnSchedule suite .client secret salt n)
    (hserver : server.OnSchedule suite .server secret salt n) :
    client.sendKey = server.receiveKey ∧ client.receiveKey = server.sendKey ∧
      client.salt = server.salt ∧ client.epoch = n ∧ server.epoch = n := by
  refine ⟨?_, ?_, ?_, hclient.epoch_eq, hserver.epoch_eq⟩
  · rw [hclient.sendKey_eq, hserver.receiveKey_eq]
    rfl
  · rw [hclient.receiveKey_eq, hserver.sendKey_eq]
    rfl
  · rw [hclient.salt_eq, hserver.salt_eq]

end OnSchedule

theorem keyMaterial_bytes {n : Nat} (o : Octets n) : keyMaterial n o.bytes = .ok o := by
  simp only [keyMaterial, Octets.ofBytes?_bytes]

theorem sharedSecret_eq_ok_iff {suite : Suite} {privateKey peerKey secret : Key} :
    sharedSecret suite privateKey peerKey = .ok secret ↔
      suite.agree privateKey peerKey = secret ∧ secret ≠ Octets.zero 32 := by
  simp only [sharedSecret]
  split
  · rename_i hzero
    rw [hzero]
    constructor
    · intro h
      cases h
    · rintro ⟨rfl, hne⟩
      exact absurd rfl hne
  · rename_i hne
    rw [Except.ok.injEq]
    constructor
    · rintro rfl
      exact ⟨rfl, hne⟩
    · exact And.left

/-- What the server answers: its public key, the salt, and the session of their secret. -/
theorem asServer_eq_ok
    {suite : Suite} {now : Moment} {clientPublic : Key} {connectionId : UInt32}
    {e rest : Entropy} {answer : HandshakeKeys} {server : Session}
    (h : asServer suite now clientPublic.bytes connectionId e = (.ok (answer, server), rest)) :
    ∃ (secret : Key) (salt : Salt),
      sharedSecret suite (e.draw 32).1 clientPublic = .ok secret ∧
        answer = ⟨suite.publicKey (e.draw 32).1, salt⟩ ∧
        server = ofSecret suite now .server secret salt connectionId := by
  have hfst := congrArg Prod.fst h
  simp only [asServer, keyMaterial_bytes, KeyPair.generate] at hfst
  cases hsecret : sharedSecret suite (e.draw 32).1 clientPublic with
  | error failure =>
      rw [hsecret] at hfst
      cases hfst
  | ok secret =>
      rw [hsecret] at hfst
      cases hfst
      exact ⟨secret, _, rfl, rfl, rfl⟩

theorem asClient_of_sharedSecret
    {suite : Suite} {privateKey serverPublic secret : Key}
    (h : sharedSecret suite privateKey serverPublic = .ok secret)
    (now : Moment) (salt : Salt) (connectionId : UInt32) :
    asClient suite now privateKey.bytes serverPublic.bytes salt.bytes connectionId =
      .ok (ofSecret suite now .client secret salt connectionId) := by
  simp only [asClient, keyMaterial_bytes, h, bind, Except.bind]

/-- If the server answers a client and key agreement is symmetric in their keys, the client
accepts the answer.  From then on, whatever each end seals and opens, after equally many
renewals each holds the other's keys, with the same salt and the same epoch; and each
renewal takes the counters back to where they were at the start. -/
theorem mirrored_after_renewals
    (suite : Suite) (e rest : Entropy) (serverTime clientTime : Moment)
    (privateKey : Key) (connectionId : UInt32) (answer : HandshakeKeys) (server : Session)
    (hagree : suite.agree privateKey (suite.publicKey (e.draw 32).1) =
      suite.agree (e.draw 32).1 (suite.publicKey privateKey))
    (hserver : asServer suite serverTime (suite.publicKey privateKey).bytes connectionId e =
      (.ok (answer, server), rest)) :
    ∃ client,
      asClient suite clientTime privateKey.bytes answer.serverPublic.bytes answer.salt.bytes
        connectionId = .ok client ∧
      (∀ n clientCalls serverCalls, renewals clientCalls = n → renewals serverCalls = n →
        (client.run suite clientCalls).sendKey = (server.run suite serverCalls).receiveKey ∧
        (client.run suite clientCalls).receiveKey = (server.run suite serverCalls).sendKey ∧
        (client.run suite clientCalls).salt = (server.run suite serverCalls).salt ∧
        (client.run suite clientCalls).epoch = n ∧
        (server.run suite serverCalls).epoch = n) ∧
      ∀ start ∈ [client, server], ∀ calls now,
        let renewed := start.run suite (calls ++ [.renewing now])
        renewed.nextSend = start.nextSend ∧ renewed.octetsSealed = start.octetsSealed ∧
          renewed.received = start.received := by
  obtain ⟨secret, salt, hsecret, rfl, rfl⟩ := asServer_eq_ok hserver
  have hshared : sharedSecret suite privateKey (suite.publicKey (e.draw 32).1) = .ok secret := by
    rw [sharedSecret_eq_ok_iff] at hsecret ⊢
    rw [hagree]
    exact hsecret
  refine ⟨_, asClient_of_sharedSecret hshared clientTime salt connectionId, ?_, ?_⟩
  · intro n clientCalls serverCalls hclient hserver
    have honClient := (OnSchedule.start suite clientTime .client secret salt
      connectionId).run clientCalls
    have honServer := (OnSchedule.start suite serverTime .server secret salt
      connectionId).run serverCalls
    rw [hclient, Nat.zero_add] at honClient
    rw [hserver, Nat.zero_add] at honServer
    exact honClient.mirrored honServer
  · intro start hstart calls now renewed
    have hrenewed : renewed = (start.run suite calls).renew suite now :=
      List.foldl_append
    obtain ⟨hnext, hreceived, hsealed⟩ := renew_counters suite (start.run suite calls) now
    rw [hrenewed, hnext, hreceived, hsealed]
    simp only [List.mem_cons, List.not_mem_nil, or_false] at hstart
    rcases hstart with rfl | rfl
    · exact ⟨rfl, rfl, rfl⟩
    · exact ⟨rfl, rfl, rfl⟩

def samplePrivateKey : Key := Octets.ofNat 32 7

def sampleEntropy : Entropy := .cyclic [3, 1, 4, 1, 5, 9, 2, 6]

/-- A client that seals between two renewals. -/
def sampleClientCalls : List SessionCall :=
  [.sealing (.next true [104, 105] []), .renewing .zero, .sealing (.given [104] [] 9),
    .renewing .zero]

/-- A server that is given a forged payload between two renewals. -/
def sampleServerCalls : List SessionCall :=
  [.renewing .zero, .opening [104, 105] [] 3, .renewing .zero]

/-- Two ends that renewed twice, with different traffic in between. -/
theorem mirrored_after_two_renewals :
    ∃ answer server client,
      (asServer .standard .zero (Suite.standard.publicKey samplePrivateKey).bytes 7
        sampleEntropy).1 = .ok (answer, server) ∧
      asClient .standard .zero samplePrivateKey.bytes answer.serverPublic.bytes
        answer.salt.bytes 7 = .ok client ∧
      (client.run .standard sampleClientCalls).sendKey =
        (server.run .standard sampleServerCalls).receiveKey ∧
      (client.run .standard sampleClientCalls).epoch = 2 := by
  have hagree : Suite.standard.agree samplePrivateKey
        (Suite.standard.publicKey (sampleEntropy.draw 32).1) =
      Suite.standard.agree (sampleEntropy.draw 32).1
        (Suite.standard.publicKey samplePrivateKey) :=
    Octets.toNat_inj.mp (by decide +kernel)
  have hanswers : (asServer .standard .zero (Suite.standard.publicKey samplePrivateKey).bytes 7
      sampleEntropy).1.isOk = true := by
    decide +kernel
  cases hserver : asServer .standard .zero (Suite.standard.publicKey samplePrivateKey).bytes 7
      sampleEntropy with
  | mk outcome rest =>
      rw [hserver] at hanswers
      cases outcome with
      | error failure => cases hanswers
      | ok result =>
          obtain ⟨answer, server⟩ := result
          obtain ⟨client, haccepts, hstep, -⟩ := mirrored_after_renewals .standard sampleEntropy
            rest .zero .zero samplePrivateKey 7 answer server hagree hserver
          obtain ⟨hsend, -, -, hepoch, -⟩ :=
            hstep 2 sampleClientCalls sampleServerCalls rfl rfl
          exact ⟨answer, server, client, rfl, haccepts, hsend, hepoch⟩

end Session
end GameLink
