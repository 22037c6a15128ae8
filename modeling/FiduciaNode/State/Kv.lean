import FiduciaNode.Primitives.Integer
import FiduciaNode.Primitives.Value

structure KvEntry where
  value       : String
  modRevision : Nat
  expiresAtMs : Option Nat

structure CounterEntry where
  value       : Int
  modRevision : Nat

abbrev Kv := HashMap String KvEntry

abbrev Counters := HashMap String CounterEntry

-- The answer to a write whose expected revision is not the current one.
def casMismatch (currentRevision revision : Nat) : Value :=
  json [
    ("ok", false), ("reason", "cas_mismatch"), ("current_revision", currentRevision),
    ("revision", revision)
  ]

namespace Kv

def currentRevision (kv : Kv) (key : String) : Nat :=
  kv[key]?.map KvEntry.modRevision |>.getD 0

def applyKvPut
    (kv : Kv) (revision now : Nat) (key value : String) (ttlMs prevRevision : Option Nat) :
    Kv × Value :=
  if prevRevision.any (kv.currentRevision key ≠ ·) then
    (kv, casMismatch (kv.currentRevision key) revision)
  else
    let expiresAtMs := ttlMs.map (U64.saturatingAdd now)
    (
      kv.insert key { value, modRevision := revision, expiresAtMs },
      json [("ok", true), ("key", key), ("revision", revision), ("expires_at_ms", expiresAtMs)]
    )

def applyKvDelete (kv : Kv) (revision : Nat) (key : String) : Kv × Value :=
  (kv.erase key, json [("ok", true), ("deleted", kv.contains key), ("revision", revision)])

def expireDue (kv : Kv) (now : Nat) : Kv :=
  kv.filter fun _ entry => entry.expiresAtMs.all (· > now)

end Kv

namespace Counters

def currentRevision (counters : Counters) (key : String) : Nat :=
  counters[key]?.map CounterEntry.modRevision |>.getD 0

def applyCounterSet
    (counters : Counters) (revision : Nat) (key : String) (value : Int)
    (prevRevision : Option Nat) : Counters × Value :=
  if prevRevision.any (counters.currentRevision key ≠ ·) then
    (counters, casMismatch (counters.currentRevision key) revision)
  else
    (
      counters.insert key { value, modRevision := revision },
      json [("ok", true), ("key", key), ("value", value), ("mod_revision", revision)]
    )

def applyCounterAdd
    (counters : Counters) (revision : Nat) (key : String) (delta : Int)
    (prevRevision : Option Nat) : Counters × Value :=
  let current := counters[key]?.map CounterEntry.value |>.getD 0
  counters.applyCounterSet revision key (I64.saturatingAdd current delta) prevRevision

end Counters
