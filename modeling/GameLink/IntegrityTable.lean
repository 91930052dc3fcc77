import GameLink.Entropy
import GameLink.Failure

/-!
# Integrity table

The 2048 keys of fifteen bits from which integrity challenges are answered.  An index
past the end stands for the last key.
-/

namespace GameLink

def integrityTableSize : Nat := 2048

structure IntegrityTable where
  keys : Array UInt16
  /-- There is a key for each index. -/
  size_keys : keys.size = integrityTableSize

namespace IntegrityTable

/-- A key keeps fifteen bits. -/
def maskKey (key : UInt16) : UInt16 :=
  key &&& 0x7FFF

/-- The table with the given keys, if there are as many as a table has. -/
def ofKeys (keys : Array UInt16) : Except Failure IntegrityTable :=
  if h : keys.size = integrityTableSize then
    .ok ⟨keys.map maskKey, by simpa using h⟩
  else
    .error (.settings (.tableSize keys.size))

/-- A random table: two octets for each key, the low one first. -/
def generate (e : Entropy) : IntegrityTable × Entropy :=
  let (octets, e) := e.draw (2 * integrityTableSize)
  let raw := octets.bytes.toArray
  let key (i : Nat) : UInt16 :=
    maskKey ((raw.getD (2 * i) 0).toUInt16 ||| (raw.getD (2 * i + 1) 0).toUInt16 <<< 8)
  (⟨(Array.range integrityTableSize).map key, by simp⟩, e)

def key (t : IntegrityTable) (index : UInt16) : UInt16 :=
  t.keys.getD (min index.toNat (integrityTableSize - 1)) 0

def describe (_ : IntegrityTable) : String :=
  "IntegrityTable \x7b len: " ++ toString integrityTableSize ++ ", .. \x7d"

end IntegrityTable
end GameLink
