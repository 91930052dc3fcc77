import GameLink.Block.Compress
import GameLink.Block.Decompress
import GameLink.Metrics

/-!
# Packing of payloads

Payloads above a threshold are compressed if that makes them shorter; a flag says
whether it did.  Unpacking never yields more than 64 KiB.
-/

namespace GameLink

/-- A payload and whether it is compressed. -/
structure Packed where
  bytes : Bytes
  compressed : Bool
deriving DecidableEq, Repr

namespace Packing

/-- The largest payload that unpacking yields. -/
def unpackLimit : Nat := 65536

/-- Packs a payload; every attempt and every success is counted. -/
def pack (threshold : Nat) (data : Bytes) : Packed × List Tally :=
  if data.length ≤ threshold then
    (⟨data, false⟩, [])
  else
    match Block.compress data with
    | some packed => (⟨packed, true⟩, [.packingAttempt, .packingSuccess])
    | none => (⟨data, false⟩, [.packingAttempt])

def unpack (p : Packed) : Except Failure Bytes :=
  if p.compressed then Block.decompress p.bytes unpackLimit else .ok p.bytes

end Packing
end GameLink
