import GameLink.Client.Network

/-!
# Workers as tasks

The workers of a client as tasks of their own.  Each attempt starts one worker for each
duty, and the client keeps one worker for each.  A worker that is not kept any more runs
on until it is cancelled, and a cancelled one until it notices.

**Stopping.** The workers that are kept are let go.  Then one after the other is
cancelled and waited for.
-/

namespace GameLink

/-- What a worker is for: timeouts and retries, or reading the socket. -/
inductive Duty
  | retry
  | poll
deriving DecidableEq, Repr

/-- The worker of an attempt, known by the generation that the attempt began with. -/
structure Badge where
  duty : Duty
  generation : Nat
deriving DecidableEq, Repr

/-- A worker that runs. -/
structure Worker where
  badge : Badge
  /-- What waits in the socket of the attempt. -/
  inbox : List Arrival := []
  isCancelled : Bool := false
deriving DecidableEq, Repr

structure Crew where
  /-- The workers that run, the first first. -/
  running : List Worker := []
  /-- The generation of the worker that is kept for a duty. -/
  kept : Duty → Option Nat := fun _ => none

namespace Crew

def find? (crew : Crew) (badge : Badge) : Option Worker :=
  crew.running.find? fun w => w.badge = badge

/-- Whether a worker has not ended yet. -/
def runs (crew : Crew) (badge : Badge) : Bool :=
  crew.running.any fun w => w.badge = badge

/-- Whether a worker runs and is not cancelled. -/
def isLive (crew : Crew) (badge : Badge) : Bool :=
  crew.running.any fun w => w.badge = badge && !w.isCancelled

/-- The crew with a worker changed. -/
def change (crew : Crew) (badge : Badge) (f : Worker → Worker) : Crew :=
  { crew with running := crew.running.map fun w => if w.badge = badge then f w else w }

def cancel (crew : Crew) (badge : Badge) : Crew :=
  crew.change badge fun w => { w with isCancelled := true }

/-- A worker ends. -/
def dismiss (crew : Crew) (badge : Badge) : Crew :=
  { crew with running := crew.running.filter fun w => w.badge ≠ badge }

/-- A worker ends if it was cancelled. -/
def dismissCancelled (crew : Crew) (badge : Badge) : Crew :=
  { crew with
    running := crew.running.filter fun w => w.badge ≠ badge || !w.isCancelled }

def start (crew : Crew) (badge : Badge) : Crew :=
  { crew with running := crew.running ++ [{ badge }] }

/-- Keeps a worker in the place of the one that was kept, which is cancelled. -/
def keep (crew : Crew) (badge : Badge) : Crew :=
  let crew :=
    match crew.kept badge.duty with
    | some generation => crew.cancel ⟨badge.duty, generation⟩
    | none => crew
  { crew with
    kept := fun duty => if duty = badge.duty then some badge.generation else crew.kept duty }

/-- The workers that are kept, the retry worker first. -/
def keptBadges (crew : Crew) : List Badge :=
  [Duty.retry, Duty.poll].filterMap fun duty => (crew.kept duty).map (⟨duty, ·⟩)

/-- Keeps no worker any more. -/
def release (crew : Crew) : Crew :=
  { crew with kept := fun _ => none }

variable {crew : Crew} {badge other : Badge}

@[simp] theorem kept_cancel : (crew.cancel badge).kept = crew.kept := by
  rfl

@[simp] theorem kept_release (duty : Duty) : crew.release.kept duty = none := by
  rfl

@[simp] theorem kept_keep (duty : Duty) :
    (crew.keep badge).kept duty =
      if duty = badge.duty then some badge.generation else crew.kept duty := by
  cases hkept : crew.kept badge.duty with
  | none => simp only [keep, hkept]
  | some generation => simp only [keep, hkept, kept_cancel]

@[simp] theorem isLive_release : crew.release.isLive other = crew.isLive other := by
  rfl

theorem isLive_iff :
    crew.isLive badge = true ↔ ∃ w ∈ crew.running, w.badge = badge ∧ w.isCancelled = false := by
  simp [isLive]

/-- A worker that lives can take a turn. -/
theorem runs_of_isLive (h : crew.isLive badge = true) : crew.runs badge = true := by
  obtain ⟨w, hw, hbadge, -⟩ := isLive_iff.mp h
  exact List.any_eq_true.mpr ⟨w, hw, decide_eq_true hbadge⟩

theorem exists_find?_of_isLive (h : crew.isLive badge = true) :
    ∃ worker, crew.find? badge = some worker := by
  obtain ⟨w, hw, hbadge, -⟩ := isLive_iff.mp h
  exact Option.isSome_iff_exists.mp
    (List.find?_isSome.mpr ⟨w, hw, decide_eq_true hbadge⟩)

@[simp] theorem isLive_start :
    (crew.start badge).isLive other = (crew.isLive other || decide (badge = other)) := by
  simp [isLive, start]

/-- A worker that is changed lives as before, if the change cancels nothing. -/
theorem isLive_change {f : Worker → Worker} (hbadge : ∀ w, (f w).badge = w.badge)
    (hcancelled : ∀ w, (f w).isCancelled = w.isCancelled) :
    (crew.change badge f).isLive other = crew.isLive other := by
  simp only [isLive, change, List.any_map]
  congr 1
  funext w
  by_cases hw : w.badge = badge
  · simp [hw, hbadge, hcancelled]
  · simp [hw]

theorem isLive_cancel_of_ne (h : other ≠ badge) :
    (crew.cancel badge).isLive other = crew.isLive other := by
  simp only [isLive, cancel, change, List.any_map]
  congr 1
  funext w
  by_cases hw : w.badge = badge
  · simp [hw, Ne.symm h]
  · simp [hw]

@[simp] theorem isLive_cancel_self : (crew.cancel badge).isLive badge = false := by
  simp only [isLive, cancel, change, List.any_map, List.any_eq_false]
  intro w _
  by_cases hw : w.badge = badge
  · simp [hw]
  · simp [hw]

theorem isLive_dismiss_of_ne (h : other ≠ badge) :
    (crew.dismiss badge).isLive other = crew.isLive other := by
  simp only [isLive, dismiss, List.any_filter]
  congr 1
  funext w
  by_cases hw : w.badge = other
  · simp [hw, h]
  · simp [hw]

@[simp] theorem isLive_dismissCancelled :
    (crew.dismissCancelled badge).isLive other = crew.isLive other := by
  simp only [isLive, dismissCancelled, List.any_filter]
  congr 1
  funext w
  cases hcancelled : w.isCancelled with
  | true => simp
  | false => simp

/-- Keeping a worker cancels the one that was kept, and no other. -/
theorem isLive_keep_of_ne
    (h : crew.kept badge.duty ≠ some other.generation ∨ other.duty ≠ badge.duty) :
    (crew.keep badge).isLive other = crew.isLive other := by
  simp only [keep]
  split
  · rename_i generation hkept
    refine isLive_cancel_of_ne fun heq => ?_
    rcases h with hgeneration | hduty
    · exact hgeneration (by rw [hkept, heq])
    · exact hduty (by rw [heq])
  · rfl

end Crew

/-- How far the stopping of the workers has come. -/
inductive Stopping
  /-- Waits for access to the workers that are kept. -/
  | lock
  /-- Waits for the first of some workers to end, and goes on with the others. -/
  | join (badge : Badge) (rest : List Badge)
deriving DecidableEq, Repr

namespace Stopping

/-- Cancels the first of some workers and waits for it; nothing is left to do if there is
none. -/
def next (crew : Crew) : List Badge → Option Stopping × Crew
  | [] => (none, crew)
  | badge :: rest => (some (.join badge rest), crew.cancel badge)

/-- Goes on as far as it can; `none` if nothing is left to do. -/
def advance (crew : Crew) : Stopping → Option Stopping × Crew
  | .lock => next crew.release crew.keptBadges
  | .join badge rest =>
      if crew.runs badge then (some (.join badge rest), crew) else next crew rest

end Stopping
end GameLink
