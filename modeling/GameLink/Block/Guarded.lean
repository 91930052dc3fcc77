import GameLink.Block.Decompress
import GameLink.Buffer.Guarded

/-!
# Decompressing with every access guarded

The reader of a written form once more, with a position in the form instead of what is left of it,
and made of single accesses to the form and to the output.  An access outside of either is a fault,
and so is an output above the capacity, at any moment.

**Order.** The accesses stand in the order in which they are made, behind the checks that are to
keep them in range.
-/

namespace GameLink
namespace Block
namespace Guarded

open Guard

/-- Appends octets to an output that must not pass a capacity. -/
def append (capacity : Nat) (out bs : Bytes) : Except Fault Bytes :=
  if out.length + bs.length ≤ capacity then .ok (out ++ bs) else .error .outOfRange

/-- Reads the octets that continue a number, as far as there are any: the number and the position
behind it. -/
def readContinuation (src : Bytes) (i n : Nat) : Option (Nat × Nat) :=
  match _h : src[i]? with
  | none => none
  | some b =>
      if b = 255 then readContinuation src (i + 1) (n + 255) else some (n + b.toNat, i + 1)
termination_by src.length - i
decreasing_by
  have hi := (List.getElem?_eq_some_iff.mp _h).1
  omega

/-- Reads the number that a half of a token starts. -/
def readNumber (half : Nat) (src : Bytes) (i : Nat) : Option (Nat × Nat) :=
  if half = 15 then readContinuation src i 15 else some (half, i)

/-- Appends `n` octets of the output to it, from a position on. -/
def copyFrom (capacity : Nat) : Nat → Nat → Bytes → Except Fault Bytes
  | 0, _, out => .ok out
  | n + 1, start, out => do
      let b ← Guard.octetAt out start
      let out ← append capacity out [b]
      copyFrom capacity n (start + 1) out

/-- What a token leads to. -/
inductive Progress
  | refused
  | finished (out : Bytes)
  /-- A token is expected at a position. -/
  | goOn (i : Nat) (out : Bytes)

/-- Reads a copy and carries it out. -/
def readCopy (capacity : Nat) (src : Bytes) (half i : Nat) (out : Bytes) :
    Except Fault Progress := do
  let low ← Guard.octetAt src i
  let high ← Guard.octetAt src (i + 1)
  let distance := low.toNat + 256 * high.toNat
  if distance = 0 ∨ out.length < distance then
    return .refused
  else
    match readNumber half src (i + 2) with
    | none => return .refused
    | some (copy, i) =>
        if capacity < out.length + (copy + minCopy) then
          return .refused
        else
          let start ← difference out.length distance
          let out ← copyFrom capacity (copy + minCopy) start out
          return .goOn i out

/-- Reads a token and what belongs to it. -/
def readToken (capacity : Nat) (src : Bytes) (i : Nat) (out : Bytes) :
    Except Fault Progress := do
  let token ← Guard.octetAt src i
  match readNumber (token.toNat / 16) src (i + 1) with
  | none => return .refused
  | some (literals, i) =>
      if src.length < i + literals ∨ capacity < out.length + literals then
        return .refused
      else
        let bs ← slice src i (i + literals)
        let out ← append capacity out bs
        let i := i + literals
        if src.length ≤ i then
          return .finished out
        else if src.length < i + 2 then
          return .refused
        else
          readCopy capacity src (token.toNat % 16) i out

theorem ok_of_bind {α β : Type} {x : Except Fault α} {f : α → Except Fault β} {b : β}
    (h : (x >>= f) = .ok b) : ∃ a, x = .ok a ∧ f a = .ok b := by
  cases x with
  | error fault => cases h
  | ok a => exact ⟨a, rfl, h⟩

theorem lt_readContinuation {src : Bytes} {i n m j : Nat}
    (h : readContinuation src i n = some (m, j)) : i < j := by
  induction hk : src.length - i using Nat.strongRecOn generalizing i n with
  | ind k ih =>
      subst hk
      rw [readContinuation] at h
      split at h
      · cases h
      · rename_i hb
        have hi := (List.getElem?_eq_some_iff.mp hb).1
        split at h
        · exact Nat.lt_of_succ_lt (ih _ (by omega) h rfl)
        · cases h
          exact Nat.lt_succ_self i

theorem le_readNumber {half : Nat} {src : Bytes} {i m j : Nat}
    (h : readNumber half src i = some (m, j)) : i ≤ j := by
  unfold readNumber at h
  split at h
  · exact Nat.le_of_lt (lt_readContinuation h)
  · cases h
    exact Nat.le_refl i

theorem lt_readCopy {capacity : Nat} {src : Bytes} {half i j : Nat} {out result : Bytes}
    (h : readCopy capacity src half i out = .ok (.goOn j result)) : i < j := by
  obtain ⟨low, -, h⟩ := ok_of_bind h
  obtain ⟨high, -, h⟩ := ok_of_bind h
  dsimp only at h
  split at h
  · cases h
  · split at h
    · cases h
    · rename_i hnumber
      have hle := le_readNumber hnumber
      split at h
      · cases h
      · obtain ⟨start, -, h⟩ := ok_of_bind h
        obtain ⟨copied, -, h⟩ := ok_of_bind h
        cases h
        omega

/-- Behind a token the reader is further on. -/
theorem lt_readToken {capacity : Nat} {src : Bytes} {i j : Nat} {out result : Bytes}
    (h : readToken capacity src i out = .ok (.goOn j result)) : i < j := by
  obtain ⟨token, -, h⟩ := ok_of_bind h
  split at h
  · cases h
  · rename_i hnumber
    have hle := le_readNumber hnumber
    split at h
    · cases h
    · obtain ⟨bs, -, h⟩ := ok_of_bind h
      obtain ⟨filled, -, h⟩ := ok_of_bind h
      dsimp only at h
      split at h
      · cases h
      · split at h
        · cases h
        · have hlt := lt_readCopy h
          omega

/-- The output of the tokens from a position on, on top of what is there already. -/
def expandFrom (capacity : Nat) (src : Bytes) (i : Nat) (out : Bytes) :
    Except Fault (Option Bytes) :=
  if i < src.length then
    match _h : readToken capacity src i out with
    | .error fault => .error fault
    | .ok .refused => .ok none
    | .ok (.finished out) => .ok (some out)
    | .ok (.goOn j out) => expandFrom capacity src j out
  else
    .ok (some out)
termination_by src.length - i
decreasing_by
  have hlt := lt_readToken _h
  omega

/-- What a written form stands for, if it is one and stands for at most `capacity` octets. -/
def decompress (src : Bytes) (capacity : Nat) : Except Fault (Except Failure Bytes) := do
  match ← expandFrom capacity src 0 [] with
  | some out => return .ok out
  | none => return .error .decompression

end Guarded
end Block
end GameLink
