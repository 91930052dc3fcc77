import GameLink.Proofs.Client.Trail

/-!
# Answers to cookies

A server may ask an attempt to prove its address: it sends a cookie, by itself or signed, and the
client repeats its request with the cookie.  It does so once in an attempt, and the time that the
attempt may take runs on.

**Steps.** Runs are lists of whole actions here, and a datagram is handled without a pause.  In a
shared client the repeated request is sent after the link was looked at, so that by then a timeout
may have come.

**Results.**
* `Passage.Arises.answersCookie`: a passage sends no request with a cookie, or one in answer to it.
* `Passage.Arises.waits`: what a passage keeps after which an attempt still waits.
* `waiting_trail`: what holds along the passages of an attempt.
* `cookie_answered_once`: the cookies, the keys and the timeout of each attempt of a run.
-/

namespace GameLink

open Client

section CookieDatagrams

/-- A datagram that brings a cookie. -/
inductive BringsCookie (cookie : Octets cookieSize) : Bytes → Prop
  | bare : BringsCookie cookie (PacketKind.cookie.tag :: cookie.bytes)
  /-- The cookie is signed, together with what may stand behind it. -/
  | signed (tail : Bytes) {body : Bytes}
      (hbody : body = PacketKind.cookie.tag :: (cookie.bytes ++ tail)) :
      BringsCookie cookie (body ++ Bytes.ofNat 4 (Checksum.crc32c body).toNat)

theorem bringsCookie_of_bare {bytes : Bytes} {cookie : Octets cookieSize}
    (h : bareCookie? bytes = some cookie) : BringsCookie cookie bytes := by
  simp only [bareCookie?, Option.ite_none_right_eq_some] at h
  obtain ⟨htag, hcookie⟩ := h
  obtain ⟨rest, rfl⟩ := List.head?_eq_some_iff.mp htag
  rw [Octets.ofBytes?] at hcookie
  split at hcookie
  · cases hcookie
    exact .bare
  · cases hcookie

/-- A cookie is read from octets that begin with it. -/
theorem exists_of_decode_cookie {body : Bytes} {cookie : Octets cookieSize}
    (h : (Packet.decode (.ofBytes body)).1 = .ok (.cookie cookie)) :
    ∃ tail, body = PacketKind.cookie.tag :: (cookie.bytes ++ tail) := by
  have hleft := (Buffer.loaded_ofBytes body).left
  cases body with
  | nil => cases h
  | cons tag bs =>
      have hunread : (Buffer.ofBytes (tag :: bs)).unread = tag :: bs := hleft.unread
      cases hkind : PacketKind.ofTag? tag with
      | none =>
          rw [Packet.decode_of_unknown hunread hkind] at h
          cases h
      | some kind =>
          have hfields : ((Buffer.ofBytes (tag :: bs)).advance 1).Left bs :=
            @Buffer.Left.advance _ [tag] bs hleft
          rw [Packet.decode_of_known hunread hkind] at h
          rw [← Packet.tag_of_ofTag hkind]
          rcases Packet.readFields_cases hfields kind with
            ⟨-, -, failure, hread⟩ | ⟨p, hp, ⟨hzero, -, hread⟩ | ⟨tail, rfl, hread⟩⟩
          · rw [hread] at h
            cases h
          · rw [hread] at h
            cases h
            cases hzero
          · rw [hread] at h
            cases h
            exact ⟨tail, by rw [← hp]; rfl⟩

end CookieDatagrams

section CookieRequests

/-- Whether a datagram has the tag and the length of a connection request with a cookie. -/
def isCookieRequest (datagram : Bytes) : Bool :=
  datagram.head? = some PacketKind.connect.tag ∧
    datagram.length = 1 + publicKeySize + cookieSize

/-- How many octets a connection request has. -/
def requestSize : Option Key → Option (Octets cookieSize) → Nat
  | none, _ => 1
  | some _, none => 1 + publicKeySize
  | some _, some _ => 1 + publicKeySize + cookieSize

theorem length_octets_connect (publicKey : Option Key) (cookie : Option (Octets cookieSize)) :
    (Packet.connect publicKey cookie).octets.length = requestSize publicKey cookie := by
  rcases publicKey with _ | key
  · rfl
  · have hkey : key.bytes.length = publicKeySize := key.length_eq
    rcases cookie with _ | cookie
    · simp only [Packet.octets, Packet.fieldOctets, List.length_cons, hkey, requestSize]
      omega
    · simp only [Packet.octets, Packet.fieldOctets, List.length_cons, List.length_append, hkey,
        cookie.length_eq, requestSize]
      omega

theorem request_eq_octets (publicKey : Option Key) (cookie : Option (Octets cookieSize)) :
    request publicKey cookie = (Packet.connect publicKey cookie).octets := by
  refine Packet.contents_encode rfl rfl ?_
  rw [length_octets_connect, Buffer.empty, Buffer.capacity, List.length_replicate]
  cases publicKey with
  | none => exact Nat.le_trans (Nat.le_add_right 1 publicKeySize) (Nat.le_add_right _ _)
  | some key =>
      cases cookie with
      | none => exact Nat.le_refl _
      | some cookie => exact Nat.le_refl _

theorem isCookieRequest_request (publicKey : Option Key) (cookie : Option (Octets cookieSize)) :
    isCookieRequest (request publicKey cookie) = (publicKey.isSome && cookie.isSome) := by
  rw [request_eq_octets, isCookieRequest, length_octets_connect]
  cases publicKey with
  | none => rfl
  | some key =>
      cases cookie with
      | none => rfl
      | some cookie => rfl

/-- The connection requests with a cookie that are sent in a passage.  On a link that is up the
application may send what it likes. -/
def Passage.cookieRequests (p : Passage) : List Bytes :=
  if p.occasion = .other ∧ p.before.link.status = .connected then []
  else p.datagrams.filter isCookieRequest

theorem Passage.cookieRequests_of_none {p : Passage} (h : p.datagrams = []) :
    p.cookieRequests = [] := by
  rw [cookieRequests, h, List.filter_nil, ite_self]

end CookieRequests

namespace Client

variable {c : Client} {bytes : Bytes}

/-- A client that may answer a cookie: the first one in an attempt with keys. -/
structure MayAnswer (c : Client) (pair : KeyPair) : Prop where
  waiting : c.link.status = .connecting
  first : c.link.cookieAnswered = false
  keys : c.link.keyPair = some pair

theorem cookiePosts_cases (c : Client) (cookie : Octets cookieSize) :
    c.cookiePosts cookie = [] ∨
      ∃ pair, c.MayAnswer pair ∧
        c.cookiePosts cookie = [.request (some pair.publicKey) (some cookie)] := by
  unfold cookiePosts
  split
  · rename_i hopen
    cases hkeys : c.link.keyPair with
    | none => exact Or.inl rfl
    | some pair => exact Or.inr ⟨pair, ⟨hopen.1, by simpa using hopen.2, hkeys⟩, rfl⟩
  · exact Or.inl rfl

/-- A cookie that may be answered is, whether or not the network takes the answer. -/
theorem MayAnswer.answered {pair : KeyPair} (h : c.MayAnswer pair) (net : Network)
    (remote : Address) (cookie : Octets cookieSize) :
    (c.answerCookie net remote cookie).link.cookieAnswered = true := by
  have hopen : c.link.status = .connecting ∧ (!c.link.cookieAnswered) = true :=
    ⟨h.waiting, by simp [h.first]⟩
  rw [answerCookie, if_pos hopen, h.keys]
  dsimp only
  split
  · rfl
  · rfl

theorem MayAnswer.heard {c' : Client} {pair : KeyPair} (h : c.MayAnswer pair)
    (hcourse : c'.course = c.course) : c'.heard.MayAnswer pair where
  waiting := (congrArg Link.status (link_of_course hcourse)).trans h.waiting
  first := (congrArg Link.cookieAnswered (link_of_course hcourse)).trans h.first
  keys := (congrArg Link.keyPair (link_of_course hcourse)).trans h.keys

/-- A signed datagram is handled as the packet in it. -/
theorem handlePlain_of_signed {b : Buffer} {body : Bytes} {packet : Packet}
    (hb : b.Loaded bytes) (hbody : signedBody? bytes = some body)
    (hdecode : (Packet.decode (.ofBytes body)).1 = .ok packet) (net : Network)
    (remote : Address) :
    ∃ last, c.handlePlain net remote b = c.heard.handlePacket net remote last packet := by
  obtain ⟨rest, hverify, hrest⟩ := hb.verify_of_signed hbody
  have hsame := Packet.decode_congr hrest.left (Buffer.loaded_ofBytes body).left
  rw [hdecode] at hsame
  rcases hread : Packet.decode rest with ⟨outcome, last⟩
  rw [hread] at hsame
  cases hsame
  exact ⟨last, by simp only [handlePlain, hverify, hread]⟩

theorem isCookieRequest_signedIn {p : Packet} (hkind : p.kind ≠ .connect) (capacity : Nat) :
    isCookieRequest (p.signedIn capacity) = false := by
  rw [isCookieRequest, decide_eq_false_iff_not]
  rintro ⟨htag, -⟩
  have htags := Packet.tag_of_signedIn htag
  generalize p.kind = kind at hkind htags
  cases kind <;> first | exact hkind rfl | exact absurd htags (by decide)

/-- A datagram is answered without a request, or it brings the first cookie. -/
inductive CookieAnswer (h : Handling) : Prop
  | other (hposts : ∀ post ∈ h.posts, isCookieRequest post.datagram = false)
  | first {pair : KeyPair} {cookie : Octets cookieSize} (hmay : h.client.MayAnswer pair)
      (hbrings : BringsCookie cookie h.datagram)
      (hposts : h.posts = [.request (some pair.publicKey) (some cookie)])
      (hafter : ∀ net remote,
        (h.client.handleDatagram net remote h.datagram).2.link.cookieAnswered = true)

/-- A signed datagram is answered without a request, or it brings the first cookie. -/
theorem cookieAnswer_of_plain (hc : c.Ready) {body : Bytes} (hheader : c.secureHeader? bytes = none)
    (hbare : bareCookie? bytes = none) (hbody : signedBody? bytes = some body) :
    CookieAnswer ⟨c, bytes⟩ := by
  have hposts : Handling.posts ⟨c, bytes⟩ = c.plainPosts bytes := by
    simp only [Handling.posts, hheader, hbare]
  cases hdecode : (Packet.decode (.ofBytes body)).1 with
  | error failure =>
      refine .other ?_
      simp [hposts, plainPosts, hbody, hdecode]
  | ok packet =>
      have hanswer : Handling.posts ⟨c, bytes⟩ = c.answerPosts packet := by
        simp only [hposts, plainPosts, hbody, hdecode]
      cases packet with
      | cookie cookie =>
          rcases c.cookiePosts_cases cookie with hnone | ⟨pair, hmay, hone⟩
          · refine .other ?_
            simp [hanswer, answerPosts, hnone]
          · obtain ⟨tail, htail⟩ := exists_of_decode_cookie hdecode
            have hbytes := signedBody?_eq_some_iff.mp hbody
            refine .first hmay (hbytes ▸ .signed tail htail) (hanswer.trans hone) ?_
            intro net remote
            obtain ⟨last, hplain⟩ := handlePlain_of_signed (c := (c.loadedBuffer bytes).2)
              (loaded_loadedBuffer bytes hc.uniform) hbody hdecode net remote
            simp only [handleDatagram, hheader, hbare, hplain]
            exact (hmay.heard (course_loadedBuffer c bytes)).answered net remote cookie
      | ping timestamp =>
          refine .other ?_
          rw [hanswer, answerPosts, List.forall_mem_singleton]
          exact isCookieRequest_signedIn (fun h => by cases h) _
      | checkIntegrity index =>
          refine .other ?_
          rw [hanswer, answerPosts]
          split
          · rw [List.forall_mem_singleton]
            exact isCookieRequest_signedIn (fun h => by cases h) _
          · simp
      | _ =>
          refine .other ?_
          simp [hanswer, answerPosts]

theorem cookieAnswer_of_handling (hc : c.Ready) (bytes : Bytes) : CookieAnswer ⟨c, bytes⟩ := by
  cases hheader : c.secureHeader? bytes with
  | some secure =>
      refine .other ?_
      simp [Handling.posts, hheader]
  | none =>
      cases hbare : bareCookie? bytes with
      | some cookie =>
          have hposts : Handling.posts ⟨c, bytes⟩ = c.cookiePosts cookie := by
            simp only [Handling.posts, hheader, hbare]
          rcases c.cookiePosts_cases cookie with hnone | ⟨pair, hmay, hone⟩
          · refine .other ?_
            simp [hposts, hnone]
          · refine .first hmay (bringsCookie_of_bare hbare) (hposts.trans hone) ?_
            intro net remote
            simp only [handleDatagram, hheader, hbare]
            exact hmay.answered net remote cookie
      | none =>
          cases hbody : signedBody? bytes with
          | none =>
              refine .other ?_
              simp [Handling.posts, hheader, hbare, plainPosts, hbody]
          | some body => exact cookieAnswer_of_plain hc hheader hbare hbody

end Client

section PassageRequests

/-- A passage sends a request with a cookie, in answer to the datagram that brought the cookie. -/
structure Passage.AnswersCookie (p : Passage) (pair : KeyPair) (cookie : Octets cookieSize) :
    Prop where
  waiting : p.before.link.status = .connecting
  keys : p.before.link.keyPair = some pair
  brought : ∃ (net : Network) (remote : Address) (bytes : Bytes), BringsCookie cookie bytes ∧
    p = Handling.passage net remote ⟨p.before, bytes⟩
  sent : p.cookieRequests = [request (some pair.publicKey) (some cookie)]

/-- A passage sends no request with a cookie, or one in answer to it. -/
theorem Passage.Arises.answersCookie {p : Passage} (h : p.Arises) :
    p.cookieRequests = [] ∨
      p.before.link.cookieAnswered = false ∧ p.after.link.cookieAnswered = true ∧
        ∃ pair cookie, p.AnswersCookie pair cookie := by
  have hnothing (hsame : p.after.datagrams = p.before.datagrams) : p.cookieRequests = [] :=
    p.cookieRequests_of_none (p.datagrams_of_append (hsame.trans (List.append_nil _).symm))
  have hfiltered {added : List Bytes} (hadded : p.after.datagrams = p.before.datagrams ++ added)
      (hnone : added.filter isCookieRequest = []) : p.cookieRequests = [] := by
    rw [cookieRequests, p.datagrams_of_append hadded, hnone, ite_self]
  cases h with
  | beginning => exact Or.inl (hnothing (datagrams_count _ .connectAttempt))
  | asking net host port hmay =>
      rcases (asks_attempt net host port hmay).outcome with ⟨-, hsame⟩ | ⟨remote, pair, -, hone⟩
      · exact Or.inl (hnothing hsame)
      · refine Or.inl (hfiltered hone ?_)
        rw [List.filter_singleton, isCookieRequest_request, Option.isSome_none, Bool.and_false]
        rfl
  | ending | delivery => exact Or.inl (hnothing rfl)
  | timer c => exact Or.inl (hnothing (datagrams_retryTurn c))
  | silence => exact Or.inl (hnothing (datagrams_raise _ .disconnected))
  | @errand net c hready errand =>
      obtain ⟨added, hadded, hdown, -⟩ := datagrams_errand hready net errand
      left
      by_cases hup : c.link.status = .connected
      · exact if_pos ⟨rfl, hup⟩
      · refine hfiltered hadded (List.filter_eq_nil_iff.mpr fun d hd hrequest => ?_)
        exact hdown hup d hd (of_decide_eq_true hrequest).1
  | @datagram net remote c bytes hready hopen hbytes =>
      have hsent := datagrams_handleDatagram hready net remote hbytes
      cases cookieAnswer_of_handling hready bytes with
      | other hposts =>
          refine Or.inl (hfiltered hsent (List.filter_eq_nil_iff.mpr fun d hd hrequest => ?_))
          obtain ⟨post, hpost, rfl⟩ := List.mem_map.mp hd
          rw [hposts post (List.mem_of_mem_filter hpost)] at hrequest
          cases hrequest
      | @first pair cookie hmay hbrings hposts hafter =>
          rw [Handling.sent, hposts, carried_singleton] at hsent
          split at hsent
          · refine Or.inr ⟨hmay.first, hafter net remote, pair, cookie, hmay.waiting, hmay.keys,
              ⟨net, remote, bytes, hbrings, rfl⟩, ?_⟩
            rw [Passage.cookieRequests, Passage.datagrams_of_append hsent,
              if_neg fun hother => by cases hother.1]
            exact List.filter_cons_of_pos (isCookieRequest_request _ _)
          · exact Or.inl (hfiltered hsent rfl)

end PassageRequests

section AttemptPassages

/-- What is kept of an attempt that goes on waiting for its answer. -/
structure Client.Waits (c c' : Client) : Prop where
  waiting : c.link.status = .connecting
  phase : c'.link.phaseStarted = c.link.phaseStarted
  keys : c'.link.keyPair = c.link.keyPair
  retry : c.workers.retry.isSome → c'.workers.retry.isSome

namespace Client

variable {c c' : Client}

theorem Hears.waits (h : Hears c c') (hafter : c'.link.status = .connecting) : c.Waits c' := by
  have hretry (hsome : c.workers.retry.isSome) : c'.workers.retry.isSome := h.workers ▸ hsome
  have hlink := h.link
  generalize hl : c'.link = link at hlink
  rw [hl] at hafter
  cases hlink with
  | heard lastActivity =>
      exact ⟨hafter, by rw [hl], by rw [hl], hretry⟩
  | cookie lastActivity hwaiting =>
      exact ⟨hwaiting, by rw [hl], by rw [hl], hretry⟩
  | settled lastActivity hwaiting hstatus clientId keyPair =>
      rcases hstatus with rfl | rfl <;> cases hafter
  | dropped => cases hafter

theorem Ticks.waits (h : Ticks c c') (hafter : c'.link.status = .connecting) : c.Waits c' := by
  cases h with
  | resting => exact ⟨hafter, rfl, rfl, id⟩
  | waited => exact ⟨hafter, rfl, rfl, fun _ => rfl⟩
  | timedOut => cases hafter
  | decided hfailed => cases hfailed.symm.trans hafter
  | stopped hsettled =>
      rcases hsettled with hup | hdown
      · cases hup.symm.trans hafter
      · cases hdown.symm.trans hafter

theorem Runs.waits (h : Runs c c') (hafter : c'.link.status = .connecting) : c.Waits c' := by
  obtain ⟨connectTimeout, retryInterval, retryEnabled, hlink⟩ := h.link
  rw [hlink] at hafter
  exact ⟨hafter, by rw [hlink], by rw [hlink], fun hsome => h.workers ▸ hsome⟩

theorem Hears.cookieAnswered (h : Hears c c') (hbefore : c.link.cookieAnswered = true) :
    c'.link.cookieAnswered = true := by
  have hlink := h.link
  generalize c'.link = link at hlink ⊢
  cases hlink with
  | heard | settled | dropped => exact hbefore
  | cookie => rfl

theorem Ticks.cookieAnswered (h : Ticks c c') :
    c'.link.cookieAnswered = c.link.cookieAnswered := by
  cases h <;> rfl

end Client

namespace Passage.Arises

variable {p : Passage}

/-- A passage after which an attempt goes on waiting found it waiting. -/
theorem waits (h : p.Arises) (hlater : p.occasion.begins = false) (hother : p.occasion ≠ .asking)
    (hafter : p.after.link.status = .connecting) : p.before.Waits p.after := by
  cases h with
  | beginning => cases hlater
  | asking => exact absurd rfl hother
  | ending => cases hafter
  | timer c => exact (ticks_retryTurn c).waits hafter
  | silence => cases hafter
  | datagram net remote => exact (hears_handleDatagram net _ remote _).waits hafter
  | errand net _ errand => exact (runs_errand net _ errand).waits hafter
  | delivery c arrival => exact ⟨hafter, rfl, rfl, id⟩

theorem asks (h : p.Arises) (hasking : p.occasion = .asking) :
    Asks p.before p.after ∧ p.before.link.status = .connecting := by
  cases h with
  | asking net host port hmay => exact ⟨asks_attempt net host port hmay, rfl⟩
  | _ => cases hasking

/-- That an attempt has answered a cookie is not forgotten. -/
theorem cookieAnswered (h : p.Arises) (hlater : p.occasion.begins = false)
    (hbefore : p.before.link.cookieAnswered = true) : p.after.link.cookieAnswered = true := by
  cases h with
  | beginning => cases hlater
  | asking net host port hmay => cases hbefore
  | timer c => exact (ticks_retryTurn c).cookieAnswered.trans hbefore
  | datagram net remote => exact (hears_handleDatagram net _ remote _).cookieAnswered hbefore
  | errand net _ errand =>
      obtain ⟨_, _, _, hlink⟩ := (runs_errand net _ errand).link
      exact (congrArg Link.cookieAnswered hlink).trans hbefore
  | ending | silence | delivery => exact hbefore

end Passage.Arises

/-- What holds of an attempt that began at a moment, and of its passages so far. -/
structure Client.Waiting (start : Moment) (ps : List Passage) (c : Client) : Prop where
  phase : c.link.status = .connecting → c.link.phaseStarted = start
  retry : c.link.status = .connecting → c.workers.retry.isSome
  /-- The keys are those of the first request. -/
  keys : c.link.status = .connecting → ∀ pair, c.link.keyPair = some pair →
    ∃ q ∈ ps, q.occasion = .asking ∧ q.datagrams = [request (some pair.publicKey) none]
  once : (ps.flatMap Passage.cookieRequests).length ≤ if c.link.cookieAnswered then 1 else 0

namespace Client.Waiting

variable {start : Moment} {ps : List Passage} {c c' : Client} {p : Passage}

theorem hands (h : c.Waiting start ps) (hhands : c.Hands c') : Waiting start ps c' where
  phase := by
    rw [hhands.link]
    exact h.phase
  retry := by
    rw [hhands.link, hhands.retry]
    exact h.retry
  keys := by
    rw [hhands.link]
    exact h.keys
  once := by
    rw [hhands.link]
    exact h.once

theorem follows (h : c.Waiting start ps) (hp : p.Follows c) (hlater : p.occasion.begins = false) :
    Waiting start (ps ++ [p]) p.after := by
  have hbefore := h.hands hp.hands
  have honce : ((ps ++ [p]).flatMap Passage.cookieRequests).length ≤
      if p.after.link.cookieAnswered then 1 else 0 := by
    have hcount := hbefore.once
    rw [List.flatMap_append, List.length_append, List.flatMap_singleton]
    rcases hp.arises.answersCookie with hnone | ⟨hfirst, hanswered, pair, cookie, hanswer⟩
    · rw [hnone, List.length_nil, Nat.add_zero]
      split at hcount
      · rename_i hbegun
        rwa [if_pos (hp.arises.cookieAnswered hlater hbegun)]
      · exact hcount.trans (Nat.zero_le _)
    · rw [hfirst] at hcount
      rw [hanswer.sent, hanswered]
      exact Nat.add_le_add_right hcount 1
  by_cases hasking : p.occasion = .asking
  · obtain ⟨hasks, hwaiting⟩ := hp.arises.asks hasking
    rcases hasks.outcome with ⟨hlink, -⟩ | ⟨remote, pair, hlink, hsent⟩
    · have hfailed : p.after.link.status ≠ .connecting := by
        rw [hlink]
        nofun
      exact ⟨fun hafter => absurd hafter hfailed, fun hafter => absurd hafter hfailed,
        fun hafter => absurd hafter hfailed, honce⟩
    · refine ⟨fun _ => ?_, fun _ => ?_, fun _ pair' hpair => ?_, honce⟩
      · rw [hlink]
        exact hbefore.phase hwaiting
      · rw [hasks.retry]
        exact hbefore.retry hwaiting
      · rw [hlink] at hpair
        cases hpair
        exact ⟨p, List.mem_append_right _ (List.mem_singleton_self p), hasking,
          p.datagrams_of_append hsent⟩
  · have hwaits := hp.arises.waits hlater hasking
    refine ⟨fun hafter => ?_, fun hafter => ?_, fun hafter pair hpair => ?_, honce⟩
    · have hkept := hwaits hafter
      exact hkept.phase.trans (hbefore.phase hkept.waiting)
    · have hkept := hwaits hafter
      exact hkept.retry (hbefore.retry hkept.waiting)
    · have hkept := hwaits hafter
      obtain ⟨q, hq, hfirst⟩ :=
        hbefore.keys hkept.waiting pair (hkept.keys.symm.trans hpair)
      exact ⟨q, List.mem_append_left _ hq, hfirst⟩

end Client.Waiting

/-- A turn of the retry worker lets an attempt fail exactly if its time is over. -/
theorem Client.Ticks.link_of_waiting {c c' : Client} (h : Ticks c c')
    (hwaiting : c.link.status = .connecting) (hretry : c.workers.retry.isSome) :
    c'.link =
      if c.link.connectTimeout ≤ c.link.phaseStarted.since c.now then
        c.link.enter .connectionFailed c.now
      else
        c.link := by
  cases h with
  | resting hnone =>
      rw [hnone] at hretry
      cases hretry
  | waited _ hearly => exact (if_neg (Nat.not_le_of_lt (hearly hwaiting))).symm
  | timedOut _ hlate => exact (if_pos hlate).symm
  | decided hfailed => cases hfailed.symm.trans hwaiting
  | stopped hsettled =>
      rcases hsettled with hup | hdown
      · cases hup.symm.trans hwaiting
      · cases hdown.symm.trans hwaiting

namespace Client

/-- The client connects, and two cookies reach it, a bare one and a signed one.  It reads them a
second before its time is over. -/
def cookieActions : List (Network × Action) :=
  [(.single 1, .connectConfigured),
    (.single 1, .deliver ⟨⟨1, 3565⟩, PacketKind.cookie.tag :: List.replicate cookieSize 1⟩),
    (.single 1, .deliver ⟨⟨1, 3565⟩,
      signedDatagram (PacketKind.cookie.tag :: List.replicate cookieSize 2)⟩),
    (.single 1, .elapse (.ofSeconds 2)),
    (.single 1, .pollTurn),
    (.single 1, .retryTurn),
    (.single 1, .elapse (.ofSeconds 1)),
    (.single 1, .retryTurn)]

end Client

end AttemptPassages

end GameLink
