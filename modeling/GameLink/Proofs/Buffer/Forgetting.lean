import GameLink.Proofs.Buffer.Storage
import GameLink.Proofs.PoolHistory

/-!
# What a reset forgets

A reset puts the mark to the start of the storage and leaves the octets there.  Buffers are reset
and used again, by their owner or by whoever takes them from a pool.

**Known octets.**  The octets up to the farthest place of the mark since the reset are known: they
were written or loaded in that time.  A write that begins behind them raises the mark over octets
of the time before, and these are part of the contents then.

**Results.**
* `Mirrors.of_covered`: an operation that does not uncover octets does the same on a buffer with
  older octets in its storage.
* `observe_above`, `observe_above_ne`: so does a run, until it uncovers octets; then they are seen.
* `uncovers_of_not_seek`: a run in which the cursor is not put anywhere uncovers nothing.
* `reset_forgets_iff`: which runs cannot tell what a buffer held before.
-/

namespace GameLink
namespace Buffer

variable {b b' : Buffer} {known : Nat} {s t : Bytes}

/-- What is seen of a run: each answer with the contents after it, up to a refusal. -/
def observe (b : Buffer) : List Operation → List (Except Failure (Answer × Bytes))
  | [] => []
  | op :: ops =>
      match b.run op with
      | .ok (answer, b') => .ok (answer, b'.contents) :: observe b' ops
      | .error failure => [.error failure]

/-- Whether an operation stores octets behind the known ones and raises the mark over those in
between. -/
def Operation.uncovers (b : Buffer) (known : Nat) (b' : Buffer) : Operation → Bool
  | .write _ | .align => decide (known < b.position ∧ b.length < b'.length)
  | _ => false

/-- Whether an operation of a run does so; what the mark has passed is known. -/
def uncovers (b : Buffer) (known : Nat) : List Operation → Bool
  | [] => false
  | op :: ops =>
      match b.run op with
      | .ok (_, b') => op.uncovers b known b' || uncovers b' (max known b'.length) ops
      | .error _ => false

section OlderOctets

/-- The first octets of a storage, and behind them those of an older one. -/
def overlay (known : Nat) (new old : Bytes) : Bytes :=
  new.take known ++ old.drop known

/-- The buffer with older octets behind the known ones. -/
def above (b : Buffer) (known : Nat) (old : Bytes) : Buffer :=
  b.onto (overlay known b.storage old)

@[simp] theorem position_above (b : Buffer) (known : Nat) (old : Bytes) :
    (b.above known old).position = b.position := by
  rfl

@[simp] theorem length_above (b : Buffer) (known : Nat) (old : Bytes) :
    (b.above known old).length = b.length := by
  rfl

/-- The known octets include the contents; older ones are as many as there is storage. -/
structure Knows (b : Buffer) (known : Nat) (old : Bytes) : Prop where
  length_le : b.length ≤ known
  known_le : known ≤ b.capacity
  size : old.length = b.capacity

theorem getElem?_overlay {new old : Bytes} (h : known ≤ new.length) (i : Nat) :
    (overlay known new old)[i]? = if i < known then new[i]? else old[i]? := by
  have hstart : (new.take known).length = known := by rw [List.length_take, Nat.min_eq_left h]
  rw [overlay]
  by_cases hnew : i < known
  · rw [if_pos hnew, List.getElem?_append_left (hstart.symm ▸ hnew), List.getElem?_take_of_lt hnew]
  · rw [if_neg hnew, List.getElem?_append_right (hstart.symm ▸ Nat.le_of_not_lt hnew), hstart,
      List.getElem?_drop, Nat.add_sub_cancel' (Nat.le_of_not_lt hnew)]

theorem length_overlay {new old : Bytes} (h : known ≤ new.length)
    (hsize : old.length = new.length) : (overlay known new old).length = new.length := by
  rw [overlay, List.length_append, List.length_take, List.length_drop, hsize]
  omega

/-- Octets stored next to the known ones, or over them, are known. -/
theorem splice_overlay {new old bs : Bytes} {place : Nat} (h : known ≤ new.length)
    (hsize : old.length = new.length) (hplace : place ≤ known)
    (hroom : place + bs.length ≤ new.length) :
    splice (overlay known new old) place bs =
      overlay (max known (place + bs.length)) (splice new place bs) old := by
  have hstart : place ≤ (overlay known new old).length := by
    rw [length_overlay h hsize]
    exact hplace.trans h
  have hend : max known (place + bs.length) ≤ (splice new place bs).length := by
    rw [length_splice hroom]
    exact Nat.max_le.mpr ⟨h, hroom⟩
  refine List.ext_getElem? fun i => ?_
  rw [getElem?_splice hstart, getElem?_overlay h, getElem?_overlay hend,
    getElem?_splice (hplace.trans h)]
  split_ifs
  all_goals first | rfl | omega

namespace Knows

theorem contents_above (h : b.Knows known s) : (b.above known s).contents = b.contents := by
  have hstart : (b.storage.take known).length = known := by
    rw [List.length_take]
    exact Nat.min_eq_left h.known_le
  simp only [contents, above, onto, overlay]
  rw [List.take_append_of_le_length (hstart.symm ▸ h.length_le), List.take_take,
    Nat.min_eq_left h.length_le]

theorem length_overlay (h : b.Knows known s) :
    (overlay known b.storage s).length = b.capacity :=
  Buffer.length_overlay h.known_le h.size

theorem capacity_above (h : b.Knows known s) : (b.above known s).capacity = b.capacity :=
  h.length_overlay

end Knows

theorem Places.above_eq {write : Buffer → Buffer} {bs : Bytes} (h : Places write b bs)
    (hb : b.Knows known s) (hcovered : b.position ≤ known ∨ (write b).length ≤ b.length) :
    write (b.above known s) = (write b).above (max known (write b).length) s := by
  have hknown := hb.length_le
  have hposition := h.position
  rw [above, h.onto _ hb.length_overlay, above, h.storage]
  rcases h.length with ⟨hsame, rfl⟩ | ⟨hraised, hroom⟩
  · rw [splice_nil, splice_nil, hsame, Nat.max_eq_left hknown]
  · have hplace : b.position ≤ known := by omega
    have hmark : max known (write b).length = max known (b.position + bs.length) := by omega
    rw [hmark, splice_overlay hb.known_le hb.size hplace (hposition ▸ hroom)]

/-- What was stored behind the known octets makes the first of the older ones visible. -/
theorem Places.getElem?_contents {write : Buffer → Buffer} {bs : Bytes} (h : Places write b bs)
    (hb : b.Knows known s) (hbehind : known < b.position) (hraised : b.length < (write b).length) :
    (write (b.above known s)).contents[known]? = s[known]? := by
  have hposition := h.position
  rcases h.length with ⟨hsame, -⟩ | ⟨hmark, hroom⟩
  · omega
  · have hstart : b.position ≤ (overlay known b.storage s).length := by
      rw [hb.length_overlay]
      exact (Nat.le_add_right _ _).trans (hposition ▸ hroom)
    have hseen : known < (write b).length := by omega
    have hcontents : (write (b.above known s)).contents =
        (splice (overlay known b.storage s) b.position bs).take (write b).length := by
      rw [above, h.onto _ hb.length_overlay]
      rfl
    rw [hcontents, List.getElem?_take_of_lt hseen, getElem?_splice hstart, if_pos hbehind,
      getElem?_overlay hb.known_le, if_neg (Nat.lt_irrefl known)]

end OlderOctets

section Operations

/-- An operation does the same on a buffer and on the one with older octets behind the known
ones, which are more then if the mark was raised. -/
structure Mirrors (b : Buffer) (known : Nat) (s : Bytes) (op : Operation) (answer : Answer)
    (b' : Buffer) : Prop where
  plain : b.run op = .ok (answer, b')
  older : (b.above known s).run op = .ok (answer, b'.above (max known b'.length) s)
  knows : b'.Knows (max known b'.length) s
  position_le : (∀ place, op ≠ .seek place) → b.position ≤ known →
    b'.position ≤ max known b'.length

namespace Mirrors

variable {op : Operation}

/-- An operation that stores nothing, and does not raise the mark. -/
theorem of_kept (hb : b.Knows known s) {answer : Answer} (hplain : b.run op = .ok (answer, b'))
    (holder : (b.above known s).run op = .ok (answer, b'.onto (overlay known b.storage s)))
    (hstorage : b'.storage = b.storage) (hlength : b'.length ≤ b.length)
    (hposition : (∀ place, op ≠ .seek place) → b'.position ≤ max b.position known) :
    Mirrors b known s op answer b' := by
  have hmark : max known b'.length = known := Nat.max_eq_left (hlength.trans hb.length_le)
  have hcapacity : b'.capacity = b.capacity := congrArg List.length hstorage
  refine ⟨hplain, ?_, ⟨Nat.le_max_right _ _, ?_, hb.size.trans hcapacity.symm⟩,
    fun hother hstart => ?_⟩
  · rw [holder, above, hstorage, hmark]
  · rw [hmark, hcapacity]
    exact hb.known_le
  · rw [hmark]
    exact (hposition hother).trans (Nat.max_le.mpr ⟨hstart, Nat.le_refl known⟩)

/-- An operation that changes nothing and sees the contents at most. -/
theorem of_view (hb : b.Knows known s) {view : Buffer → Answer}
    (hrun : ∀ c : Buffer, c.run op = .ok (view c, c)) (hview : view (b.above known s) = view b) :
    Mirrors b known s op (view b) b := by
  refine of_kept hb (hrun b) ?_ rfl (Nat.le_refl _) fun _ => Nat.le_max_left _ _
  rw [hrun, hview]
  rfl

theorem of_reader (hb : b.Knows known s) {α : Type} {read : Buffer → α × Buffer}
    (hread : ContentReader read) (answer : α → Answer)
    (hrun : b.run op = .ok (answer (read b).1, (read b).2))
    (holder : (b.above known s).run op =
      .ok (answer (read (b.above known s)).1, (read (b.above known s)).2)) :
    Mirrors b known s op (answer (read b).1) (read b).2 := by
  obtain ⟨hperused, hsame⟩ := hread b
  refine of_kept hb hrun ?_ hperused.storage (Nat.le_of_eq hperused.length) fun _ => ?_
  · rw [holder, above, hsame _ hb.contents_above]
    rfl
  · have hplace := hperused.position_le
    have hmark := hb.length_le
    omega

theorem of_writer (hb : b.Knows known s) {write : Buffer → Buffer} {bs : Bytes}
    (h : Places write b bs) (hcovered : b.position ≤ known ∨ (write b).length ≤ b.length)
    (hrun : b.run op = .ok (.nothing, write b))
    (holder : (b.above known s).run op = .ok (.nothing, write (b.above known s))) :
    Mirrors b known s op .nothing (write b) := by
  have hposition := h.position
  have hcapacity := h.capacity_eq
  have hlength := h.length
  have hknown := hb.known_le
  have hmark := hb.length_le
  refine ⟨hrun, ?_, ⟨Nat.le_max_right _ _, ?_, hb.size.trans hcapacity.symm⟩, fun _ hstart => ?_⟩
  · rw [holder, h.above_eq hb hcovered]
  · omega
  · rcases hlength with ⟨-, rfl⟩ | ⟨hraised, -⟩
    · exact hposition ▸ hstart.trans (Nat.le_max_left _ _)
    · omega

/-- A signature stands behind the contents, which are known. -/
theorem of_sign (hb : b.Knows known s) : Mirrors b known s .sign .nothing b.sign := by
  have hmoved : { b with position := b.length }.Knows known s :=
    ⟨hb.length_le, hb.known_le, hb.size⟩
  obtain ⟨bs, hbs⟩ := CursorWriter.bytes b.signatureBytes { b with position := b.length }
  obtain ⟨-, holder, hknows, hposition⟩ :=
    (of_writer hmoved hbs (Or.inl hb.length_le) rfl rfl :
      Mirrors _ known s (.write (.bytes b.signatureBytes)) .nothing _)
  refine ⟨rfl, ?_, hknows, fun _ _ => hposition nofun hb.length_le⟩
  have hsigned : (b.above known s).sign =
      ({ b with position := b.length }.above known s).write b.signatureBytes := by
    rw [sign_eq, signatureBytes, signatureBytes, hb.contents_above]
    rfl
  have hstored := congrArg Prod.snd (Except.ok.inj holder)
  exact congrArg (fun after => Except.ok (Answer.nothing, after)) (hsigned.trans hstored)

theorem of_load (hb : b.Knows known s) (bs : Bytes) :
    Mirrors b known s (.load bs) .nothing (b.load bs) := by
  have hkept : (bs.take b.capacity).length ≤ b.capacity := by
    rw [List.length_take]
    exact Nat.min_le_left _ _
  have hroom : 0 + (bs.take b.capacity).length ≤ b.capacity := (Nat.zero_add _).trans_le hkept
  have hload (c : Buffer) (hc : c.capacity = b.capacity) :
      c.load bs = { c.reset.onto (splice c.storage 0 (bs.take b.capacity)) with
        length := (bs.take b.capacity).length } := by
    simp only [load, hc, splice, List.take_zero, List.nil_append, Nat.zero_add]
    rfl
  have hstored := splice_overlay hb.known_le hb.size (Nat.zero_le known) hroom
  rw [Nat.zero_add] at hstored
  have hcapacity : (b.load bs).capacity = b.capacity := by
    rw [hload b rfl]
    exact length_splice hroom
  refine ⟨rfl, ?_, ⟨Nat.le_max_right _ _, ?_, hb.size.trans hcapacity.symm⟩,
    fun _ _ => Nat.zero_le _⟩
  · refine congrArg (fun after => Except.ok (Answer.nothing, after)) ?_
    rw [hload _ hb.capacity_above, hload b rfl]
    simp only [above, onto, hstored]
    rfl
  · rw [hcapacity]
    exact Nat.max_le.mpr ⟨hb.known_le, hkept⟩

theorem of_seek (hb : b.Knows known s) (place : Nat) :
    Mirrors b known s (.seek place) .nothing (b.seek place) := by
  refine of_kept hb rfl ?_ rfl (Nat.le_refl _) fun hother => absurd rfl (hother place)
  rw [run, seek, hb.capacity_above]
  rfl

theorem of_verify (hb : b.Knows known s) : ∃ answer b', Mirrors b known s .verify answer b' := by
  have hsignature : (b.above known s).signature = b.signature := by
    rw [signature, hb.contents_above]
    rfl
  have hpart : (b.above known s).signedPart = b.signedPart := by
    rw [signedPart, hb.contents_above]
    rfl
  have hverify : (b.above known s).verify = b.verify.map (·.onto (overlay known b.storage s)) := by
    simp only [verify, hsignature, hpart, length_above, position_above]
    split_ifs
    · rfl
    · rfl
    · rfl
  cases houtcome : b.verify with
  | error failure =>
      refine ⟨.verified (some failure), b, of_kept hb ?_ ?_ rfl (Nat.le_refl _)
        fun _ => Nat.le_max_left _ _⟩
      · rw [run, houtcome]
      · rw [run, hverify, houtcome]
        rfl
  | ok rest =>
      have hrest : rest = { b with
          length := b.length - signatureSize
          position := min b.position (b.length - signatureSize) } := by
        rw [verify] at houtcome
        split_ifs at houtcome
        exact (Except.ok.inj houtcome).symm
      refine ⟨.verified none, rest, of_kept hb ?_ ?_ ?_ ?_ fun _ => ?_⟩
      · rw [run, houtcome]
      · rw [run, hverify, houtcome]
        rfl
      · rw [hrest]
      · rw [hrest]
        exact Nat.sub_le _ _
      · rw [hrest]
        exact (Nat.min_le_left _ _).trans (Nat.le_max_left _ _)

/-- An operation that does not uncover octets does the same on a buffer with older octets behind
the known ones, or is refused on both. -/
theorem of_covered (hb : b.Knows known s) (op : Operation)
    (hcovered : ∀ answer b', b.run op = .ok (answer, b') → op.uncovers b known b' = false) :
    (∃ answer b', Mirrors b known s op answer b') ∨
      ∃ failure, b.run op = .error failure ∧ (b.above known s).run op = .error failure := by
  have hwriter {write : Buffer → Buffer} (hwrite : CursorWriter write)
      (hrun : ∀ c : Buffer, c.run op = .ok (.nothing, write c))
      (huncovers : op.uncovers b known (write b) =
        decide (known < b.position ∧ b.length < (write b).length)) :
      ∃ answer b', Mirrors b known s op answer b' := by
    obtain ⟨bs, hbs⟩ := hwrite b
    have hinside := hcovered _ _ (hrun b)
    rw [huncovers, decide_eq_false_iff_not, not_and_or, Nat.not_lt, Nat.not_lt] at hinside
    exact ⟨_, _, of_writer hb hbs hinside (hrun b) (hrun _)⟩
  have hcontents := hb.contents_above
  cases op with
  | write item => exact Or.inl (hwriter (cursorWriter_item item) (fun _ => rfl) rfl)
  | align => exact Or.inl (hwriter cursorWriter_align (fun _ => rfl) rfl)
  | read kind =>
      by_cases hpast : ∃ count, kind = .bytes count ∧ UInt64.size ≤ b.position + count
      · obtain ⟨count, rfl, hpast⟩ := hpast
        refine Or.inr ⟨.exhausted, ?_, ?_⟩
        · rw [run, if_pos hpast]
        · rw [run, if_pos (show UInt64.size ≤ (b.above known s).position + count from hpast)]
      · have hrun (c : Buffer) (hc : c.position = b.position) :
            c.run (.read kind) = .ok (.item (kind.read c).1, (kind.read c).2) := by
          cases kind with
          | bytes count => exact if_neg fun h => hpast ⟨count, rfl, hc ▸ h⟩
          | _ => rfl
        exact Or.inl ⟨_, _, of_reader hb (contentReader_kind kind) .item (hrun b rfl) (hrun _ rfl)⟩
  | readOctets count =>
      exact Or.inl ⟨_, _, of_reader hb (contentReader_readOctets count)
        (fun octets => .bytes octets.bytes) rfl rfl⟩
  | sign => exact Or.inl ⟨_, _, of_sign hb⟩
  | load bs => exact Or.inl ⟨_, _, of_load hb bs⟩
  | seek place => exact Or.inl ⟨_, _, of_seek hb place⟩
  | reset =>
      exact Or.inl ⟨_, _, of_kept hb rfl rfl rfl (Nat.zero_le _) fun _ => Nat.zero_le _⟩
  | verify => exact Or.inl (of_verify hb)
  | peek kind =>
      refine Or.inl ⟨_, _, of_view hb (fun _ => rfl) ?_⟩
      rw [peekScalar, above, peek?_onto _ hcontents]
      rfl
  | signature =>
      refine Or.inl ⟨_, _, of_view hb (fun _ => rfl) ?_⟩
      rw [signature, hcontents]
      rfl
  | digest =>
      refine Or.inl ⟨_, _, of_view hb (fun _ => rfl) ?_⟩
      rw [digest, hcontents]
      rfl
  | hex =>
      refine Or.inl ⟨_, _, of_view hb (fun _ => rfl) ?_⟩
      rw [toHex, hcontents]
      rfl
  | unread =>
      refine Or.inl ⟨_, _, of_view hb (fun _ => rfl) ?_⟩
      rw [unread, hcontents]
      rfl
  | contents =>
      refine Or.inl ⟨_, _, of_view hb (fun _ => rfl) ?_⟩
      rw [hcontents]
  | describe =>
      have hdescribe : (b.above known s).describe = b.describe := by
        unfold describe
        rw [hb.capacity_above, position_above, length_above]
      exact Or.inl ⟨_, _, of_view hb (fun _ => rfl) (congrArg Answer.text hdescribe)⟩
  | remaining | isEmpty | copy => exact Or.inl ⟨_, _, of_view hb (fun _ => rfl) rfl⟩

/-- What an operation that does not uncover octets comes to, if it is not refused. -/
theorem of_run (hb : b.Knows known s) {answer : Answer} (hrun : b.run op = .ok (answer, b'))
    (hcovered : op.uncovers b known b' = false) : Mirrors b known s op answer b' := by
  have hsame (answer' : Answer) (c : Buffer) (hc : b.run op = .ok (answer', c)) :
      op.uncovers b known c = false := by
    cases hrun.symm.trans hc
    exact hcovered
  rcases of_covered hb op hsame with ⟨_, _, hstep⟩ | ⟨_, hplain, -⟩
  · cases hrun.symm.trans hstep.plain
    exact hstep
  · cases hrun.symm.trans hplain

end Mirrors

namespace Operation

/-- What uncovers octets is a write at the cursor. -/
theorem of_uncovers {op : Operation} {answer : Answer} (hrun : b.run op = .ok (answer, b'))
    (h : op.uncovers b known b' = true) :
    ∃ write, CursorWriter write ∧ (∀ c : Buffer, c.run op = .ok (.nothing, write c)) ∧
      known < b.position ∧ b.length < (write b).length := by
  cases op with
  | write item =>
      cases hrun
      exact ⟨_, cursorWriter_item item, fun _ => rfl, of_decide_eq_true h⟩
  | align =>
      cases hrun
      exact ⟨_, cursorWriter_align, fun _ => rfl, of_decide_eq_true h⟩
  | _ => cases h

theorem uncovers_of_position_le (op : Operation) (h : b.position ≤ known) :
    op.uncovers b known b' = false := by
  have hinside : ¬ (known < b.position ∧ b.length < b'.length) :=
    fun hboth => Nat.not_le.mpr hboth.1 h
  cases op with
  | write item => exact decide_eq_false hinside
  | align => exact decide_eq_false hinside
  | _ => rfl

end Operation

end Operations

section Runs

variable {ops : List Operation}

theorem uncovers_cons_eq_false {op : Operation} {answer : Answer}
    (h : b.uncovers known (op :: ops) = false) (hrun : b.run op = .ok (answer, b')) :
    op.uncovers b known b' = false ∧ b'.uncovers (max known b'.length) ops = false := by
  rw [uncovers, hrun] at h
  exact Bool.or_eq_false_iff.mp h

/-- A run that uncovers nothing is seen alike, whatever the older octets are. -/
theorem observe_above (hb : b.Knows known s) (h : b.uncovers known ops = false) :
    (b.above known s).observe ops = b.observe ops := by
  induction ops generalizing b known with
  | nil => rfl
  | cons op ops ih =>
      rcases Mirrors.of_covered hb op fun _ _ hrun => (uncovers_cons_eq_false h hrun).1 with
        ⟨answer, b', hstep⟩ | ⟨failure, hplain, holder⟩
      · have hrest := (uncovers_cons_eq_false h hstep.plain).2
        simp only [observe, hstep.older, hstep.plain, hstep.knows.contents_above,
          ih hstep.knows hrest]
      · simp only [observe, holder, hplain]

/-- An operation that uncovers octets is seen differently if the first of them differs. -/
theorem observe_cons_ne (hs : b.Knows known s) (ht : b.Knows known t) {op : Operation}
    {answer : Answer} (hrun : b.run op = .ok (answer, b')) (hop : op.uncovers b known b' = true)
    (hdiffer : known < b.capacity → s[known]? ≠ t[known]?) :
    (b.above known s).observe (op :: ops) ≠ (b.above known t).observe (op :: ops) := by
  obtain ⟨write, hwrite, hwrites, hbehind, hraised⟩ := Operation.of_uncovers hrun hop
  obtain ⟨bs, hbs⟩ := hwrite b
  have hinside : known < b.capacity := by
    have hposition := hbs.position
    rcases hbs.length with ⟨hsame, -⟩ | ⟨-, hroom⟩
    · omega
    · omega
  intro hsame
  simp only [observe, hwrites, List.cons.injEq, Except.ok.injEq, Prod.mk.injEq, true_and] at hsame
  -- The contents after the write are the same, and so is the first older octet in them.
  refine hdiffer hinside ?_
  rw [← hbs.getElem?_contents hs hbehind hraised, hsame.1,
    hbs.getElem?_contents ht hbehind hraised]

/-- A run that uncovers octets is seen differently if all of the older octets differ. -/
theorem observe_above_ne (hs : b.Knows known s) (ht : b.Knows known t)
    (hdiffer : ∀ i, known ≤ i → i < b.capacity → s[i]? ≠ t[i]?)
    (h : b.uncovers known ops = true) :
    (b.above known s).observe ops ≠ (b.above known t).observe ops := by
  -- Up to the first operation that uncovers octets the two runs are images of the plain one.
  induction ops generalizing b known with
  | nil => cases h
  | cons op ops ih =>
      cases hrun : b.run op with
      | error failure =>
          simp only [uncovers, hrun] at h
          cases h
      | ok outcome =>
          obtain ⟨answer, b'⟩ := outcome
          cases hop : op.uncovers b known b' with
          | true => exact observe_cons_ne hs ht hrun hop (hdiffer known (Nat.le_refl known))
          | false =>
              have hrest : b'.uncovers (max known b'.length) ops = true := by
                simpa only [uncovers, hrun, hop, Bool.false_or] using h
              have hfirst := Mirrors.of_run hs hrun hop
              have hsecond := Mirrors.of_run ht hrun hop
              have hcapacity : b'.capacity = b.capacity := hfirst.knows.size.symm.trans hs.size
              have hlater := ih hfirst.knows hsecond.knows
                (fun i hi hin => hdiffer i ((Nat.le_max_left _ _).trans hi) (hcapacity ▸ hin)) hrest
              intro hsame
              simp only [observe, hfirst.older, hsecond.older, List.cons.injEq] at hsame
              exact hlater hsame.2

/-- Octets are uncovered only if the cursor was put somewhere. -/
theorem uncovers_of_not_seek (hb : b.Knows known s) (hposition : b.position ≤ known)
    (hops : ∀ op ∈ ops, ∀ place, op ≠ .seek place) : b.uncovers known ops = false := by
  induction ops generalizing b known with
  | nil => rfl
  | cons op ops ih =>
      obtain ⟨hop, hrest⟩ := List.forall_mem_cons.mp hops
      rcases Mirrors.of_covered hb op fun _ _ _ => op.uncovers_of_position_le hposition with
        ⟨answer, b', hstep⟩ | ⟨failure, hplain, -⟩
      · simp only [uncovers, hstep.plain, op.uncovers_of_position_le hposition, Bool.false_or]
        exact ih hstep.knows (hstep.position_le hop hposition) hrest
      · simp only [uncovers, hplain]

end Runs

section ReusedBuffers

theorem knows_empty {n : Nat} (h : s.length = n) : (empty n).Knows 0 s where
  length_le := Nat.le_refl 0
  known_le := Nat.zero_le _
  size := h.trans (capacity_empty _).symm

/-- A reset buffer is a new one with older octets. -/
theorem reset_eq_above (b : Buffer) : b.reset = (empty b.capacity).above 0 b.storage := by
  rfl

theorem observe_reset (h : (empty b.capacity).uncovers 0 ops = false) :
    b.reset.observe ops = (empty b.capacity).observe ops := by
  have hb : (empty b.capacity).Knows 0 b.storage := knows_empty rfl
  rw [reset_eq_above, observe_above hb h]

theorem observe_reset_ne {n : Nat} (h : (empty n).uncovers 0 ops = true) :
    (ofBytes (List.replicate n 1)).reset.observe ops ≠ (empty n).observe ops := by
  have hones : (empty n).Knows 0 (List.replicate n 1) := knows_empty List.length_replicate
  have hzeros : (empty n).Knows 0 (List.replicate n 0) := knows_empty List.length_replicate
  refine observe_above_ne hones hzeros (fun i _ hi => ?_) h
  rw [capacity_empty] at hi
  rw [List.getElem?_replicate_of_lt hi, List.getElem?_replicate_of_lt hi]
  decide

/-- A buffer is taken from a new pool, used and given back. -/
def usedOnce (b : Buffer) : List PoolCall :=
  [.create b.capacity, .on 0 0 .acquire, .on 0 0 (.use 0 b), .on 0 0 (.release 0)]

theorem acquire_usedOnce (b : Buffer) :
    ∃ x, Depot.run [] b.usedOnce = some [x] ∧ x.pool.bufferCapacity = b.capacity ∧
      (x.pool.acquire 0).1 = b.reset := by
  refine ⟨⟨((Pool.empty b.capacity).acquire 0).2.release 0 b, []⟩, ?_, ?_, ?_⟩
  · simp [usedOnce, Depot.run, Depot.step, Lender.act, Lender.start, Pool.acquire, Pool.stack,
      Pool.empty]
  · simp [Pool.empty]
  · simp [Pool.acquire, Pool.release, Pool.stack, Pool.empty, Pool.setStack]

/-- **What a reset forgets**, for every capacity and every run.  Whatever two buffers held before,
the run is seen alike on both after a reset exactly if it uncovers no octets; and it is seen alike
on any buffer from a pool of that capacity, whatever was done with its buffers, and on a new one
exactly if it uncovers none.  Runs that never put the cursor anywhere uncover none. -/
theorem reset_forgets_iff (n : Nat) (ops : List Operation) :
    ((∀ b c : Buffer, b.capacity = n → c.capacity = n →
        b.reset.observe ops = c.reset.observe ops) ↔
      (empty n).uncovers 0 ops = false) ∧
    ((∀ calls d x t, Depot.run [] calls = some d → x ∈ d → x.pool.bufferCapacity = n →
        (x.pool.acquire t).1.observe ops = (empty n).observe ops) ↔
      (empty n).uncovers 0 ops = false) ∧
    ((∀ op ∈ ops, ∀ place, op ≠ .seek place) → (empty n).uncovers 0 ops = false) := by
  have hones : (ofBytes (List.replicate n 1)).capacity = n := List.length_replicate
  refine ⟨⟨fun hall => ?_, fun hnone => ?_⟩, ⟨fun hall => ?_, fun hnone => ?_⟩, fun hops => ?_⟩
  · by_contra huncovers
    exact observe_reset_ne (eq_true_of_ne_false huncovers)
      (hall (ofBytes (List.replicate n 1)) (empty n) hones (capacity_empty n))
  · intro b c hb hc
    rw [observe_reset (hb.symm ▸ hnone), observe_reset (hc.symm ▸ hnone), hb, hc]
  · by_contra huncovers
    obtain ⟨x, hrun, hcapacity, hacquire⟩ := acquire_usedOnce (ofBytes (List.replicate n 1))
    have hsame := hall _ _ x 0 hrun (List.mem_singleton_self x) (hcapacity.trans hones)
    rw [hacquire] at hsame
    exact observe_reset_ne (eq_true_of_ne_false huncovers) hsame
  · intro calls d x t hrun hx hcapacity
    have hbalanced := Depot.balanced_run (by simp) hrun x hx
    obtain ⟨hsize, hreset⟩ := hbalanced.uniform.spare_acquire t
    rw [hcapacity] at hsize
    rw [← hreset, observe_reset (hsize.symm ▸ hnone), hsize]
  · have hzeros : (empty n).Knows 0 (List.replicate n 0) := knows_empty List.length_replicate
    exact uncovers_of_not_seek hzeros (Nat.le_refl 0) hops

/-- The first of two octets is passed over and the second is written: what stood in the first
before the reset is part of the contents. -/
theorem stale_octet_seen :
    let ops : List Operation := [.seek 1, .write (.scalar (.u8 1))]
    (empty 2).uncovers 0 ops = true ∧
      ¬ (∀ b c : Buffer, b.capacity = 2 → c.capacity = 2 →
        b.reset.observe ops = c.reset.observe ops) ∧
      (((ofBytes [0xAA, 0xBB]).reset.seek 1).writeU8 1).contents = [0xAA, 1] ∧
      (((empty 2).reset.seek 1).writeU8 1).contents = [0, 1] := by
  intro ops
  have huncovers : (empty 2).uncovers 0 ops = true := by decide
  refine ⟨huncovers, fun hall => ?_, by decide, by decide⟩
  have hnone := (reset_forgets_iff 2 ops).1.mp hall
  rw [huncovers] at hnone
  cases hnone

end ReusedBuffers

end Buffer
end GameLink
