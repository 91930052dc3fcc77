import GameLink.Block.Factors
import GameLink.Failure

/-!
# Decompressing a block

Reads a written form from front to back and refuses it as soon as it is cut short,
copies from before the start of the output, or would pass the capacity.  A written
form may end after literals or after a whole copy.
-/

namespace GameLink
namespace Block

/-- Reads the octets that continue a number. -/
def readContinuation (n : Nat) : Bytes → Option (Nat × Bytes)
  | [] => none
  | b :: rest =>
      if b = 255 then readContinuation (n + 255) rest else some (n + b.toNat, rest)

/-- Reads the number that a half of a token starts. -/
def readNumber (half : Nat) (src : Bytes) : Option (Nat × Bytes) :=
  if half = 15 then readContinuation 15 src else some (half, src)

/-- Moves `n` literals to the output. -/
def readLiterals : Nat → Bytes → Array UInt8 → Option (Bytes × Array UInt8)
  | 0, src, out => some (src, out)
  | _ + 1, [], _ => none
  | n + 1, b :: src, out => readLiterals n src (out.push b)

theorem length_readContinuation {n m : Nat} {src rest : Bytes}
    (h : readContinuation n src = some (m, rest)) : rest.length < src.length := by
  induction src generalizing n with
  | nil => simp [readContinuation] at h
  | cons b src ih =>
      rw [readContinuation] at h
      split at h
      · have := ih h
        simp only [List.length_cons]
        omega
      · simp only [Option.some.injEq, Prod.mk.injEq] at h
        simp [h.2]

theorem length_readNumber {half m : Nat} {src rest : Bytes}
    (h : readNumber half src = some (m, rest)) : rest.length ≤ src.length := by
  unfold readNumber at h
  split at h
  · exact Nat.le_of_lt (length_readContinuation h)
  · simp only [Option.some.injEq, Prod.mk.injEq] at h
    simp [h.2]

theorem length_readLiterals {n : Nat} {src rest : Bytes} {out result : Array UInt8}
    (h : readLiterals n src out = some (rest, result)) : rest.length ≤ src.length := by
  induction n generalizing src out with
  | zero =>
      simp only [readLiterals, Option.some.injEq, Prod.mk.injEq] at h
      simp [h.1]
  | succ n ih =>
      cases src with
      | nil => simp [readLiterals] at h
      | cons b src =>
          have := ih h
          simp only [List.length_cons]
          omega

/-- The output of a written form on top of what is there already. -/
def expandInto (capacity : Nat) (src : Bytes) (out : Array UInt8) : Option (Array UInt8) :=
  match src with
  | [] => some out
  | token :: src₀ =>
      match _h₁ : readNumber (token.toNat / 16) src₀ with
      | none => none
      | some (literals, src₁) =>
          if capacity < out.size + literals then
            none
          else
            match _h₂ : readLiterals literals src₁ out with
            | none => none
            | some ([], out) => some out
            | some ([_], _) => none
            | some (low :: high :: src₂, out) =>
                let distance := low.toNat + 256 * high.toNat
                if distance = 0 ∨ out.size < distance then
                  none
                else
                  match _h₃ : readNumber (token.toNat % 16) src₂ with
                  | none => none
                  | some (copy, src₃) =>
                      if capacity < out.size + (copy + minCopy) then
                        none
                      else
                        expandInto capacity src₃ (copyBack distance (copy + minCopy) out)
termination_by src.length
decreasing_by
  have l₁ := length_readNumber _h₁
  have l₂ := length_readLiterals _h₂
  have l₃ := length_readNumber _h₃
  simp only [List.length_cons] at *
  omega

/-- What a written form stands for, if it is one and stands for at most `capacity` octets. -/
def decompress (src : Bytes) (capacity : Nat) : Except Failure Bytes :=
  match expandInto capacity src #[] with
  | some out => .ok out.toList
  | none => .error .decompression

end Block
end GameLink
