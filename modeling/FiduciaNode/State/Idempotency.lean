import FiduciaNode.State.Command
import FiduciaNode.State.Fencing
import FiduciaNode.Cron

inductive IdempotencyStatus
  | claimed
  | completed
  deriving DecidableEq

structure IdempotencyRecord where
  key            : String
  owner          : String
  fencingToken   : Nat
  status         : IdempotencyStatus
  firstSeenMs    : Nat
  leaseExpiresMs : Nat
  retentionMs    : Nat
  metadata       : HashMap String String
  result         : Option Value

abbrev Idempotency := HashMap String IdempotencyRecord

instance : Serialize IdempotencyStatus where
  toValue
    | .claimed => "claimed"
    | .completed => "completed"

instance : Serialize IdempotencyRecord where
  toValue r := json <| List.append [
    ("key", r.key), ("owner", r.owner), ("fencing_token", r.fencingToken), ("status", r.status),
    ("first_seen_ms", r.firstSeenMs), ("lease_expires_ms", r.leaseExpiresMs),
    ("retention_ms", r.retentionMs), ("metadata", r.metadata)
  ] (r.result.map fun v => ("result", v)).toList

namespace Idempotency

def applyIdempotencyClaim
    (idempotency : Idempotency) (fencing : FencingCounter) (revision now : Nat) (key owner : String)
    (ttlMs : Nat) (retentionMs : Option Nat) (metadata : HashMap String String) :
    Idempotency × FencingCounter × Value :=
  if Cron.trim key.toList = [] then
    (idempotency, fencing, json [
      ("claimed", false), ("duplicate", false), ("reason", "empty_key"), ("revision", revision)
    ])
  else
    match idempotency[key]? with
    | some record => (idempotency, fencing, json [
        ("claimed", false), ("duplicate", true), ("key", key), ("record", record),
        ("revision", revision)
      ])
    | none =>
      match fencing.nextToken with
      | none => (idempotency, fencing, json [
          ("claimed", false), ("duplicate", false), ("reason", "fencing_tokens_exhausted"),
          ("revision", revision)
        ])
      | some (token, fencing) =>
        let ttlMs := max ttlMs 1
        let record : IdempotencyRecord := {
          key, owner, fencingToken := token, status := .claimed, firstSeenMs := now
          leaseExpiresMs := U64.saturatingAdd now ttlMs
          retentionMs := max (retentionMs.getD ttlMs) ttlMs
          metadata, result := none
        }
        (idempotency.insert key record, fencing, json [
          ("claimed", true), ("duplicate", false), ("key", key), ("record", record),
          ("fencing_token", token), ("lease_expires_ms", record.leaseExpiresMs),
          ("revision", revision)
        ])

-- Completing, renewing and abandoning a claim are refused for anyone but its holder. Each of them
-- answers under the name of its own flag.
def refusal (flag reason key : String) (revision : Nat) : Value :=
  json [(flag, false), ("reason", reason), ("key", key), ("revision", revision)]

def forHolder
    (idempotency : Idempotency) (flag : String) (revision : Nat) (key owner : String)
    (fencingToken : Nat) (f : IdempotencyRecord → Idempotency × Value) : Idempotency × Value :=
  match idempotency[key]? with
  | none => (idempotency, refusal flag "not_found" key revision)
  | some record =>
    if record.owner ≠ owner || record.fencingToken ≠ fencingToken
    then (idempotency, refusal flag "not_holder" key revision)
    else f record

def applyIdempotencyComplete
    (idempotency : Idempotency) (revision now : Nat) (key owner : String) (fencingToken : Nat)
    (result : Option Value) : Idempotency × Value :=
  idempotency.forHolder "completed" revision key owner fencingToken fun record =>
    if record.status = .completed then
      (idempotency, json [
        ("completed", true), ("duplicate", true), ("key", key), ("record", record),
        ("revision", revision)
      ])
    else
      let record := { record with
        status := .completed, result
        leaseExpiresMs := U64.saturatingAdd now (max record.retentionMs 1)
      }
      (idempotency.insert key record, json [
        ("completed", true), ("duplicate", false), ("key", key), ("record", record),
        ("revision", revision)
      ])

def applyIdempotencyRenew
    (idempotency : Idempotency) (revision now : Nat) (key owner : String)
    (fencingToken ttlMs : Nat) : Idempotency × Value :=
  idempotency.forHolder "renewed" revision key owner fencingToken fun record =>
    if record.status = .completed then
      (idempotency, json [
        ("renewed", false), ("reason", "already_completed"), ("key", key), ("record", record),
        ("revision", revision)
      ])
    else
      let record := { record with leaseExpiresMs := U64.saturatingAdd now (max ttlMs 1) }
      (idempotency.insert key record, json [
        ("renewed", true), ("key", key), ("lease_expires_ms", record.leaseExpiresMs),
        ("record", record), ("revision", revision)
      ])

def applyIdempotencyAbandon
    (idempotency : Idempotency) (revision : Nat) (key owner : String) (fencingToken : Nat) :
    Idempotency × Value :=
  idempotency.forHolder "abandoned" revision key owner fencingToken fun record =>
    if record.status = .completed
    then (idempotency, refusal "abandoned" "already_completed" key revision)
    else (idempotency.erase key, json [("abandoned", true), ("key", key), ("revision", revision)])

def expireDue (idempotency : Idempotency) (now : Nat) : Idempotency :=
  idempotency.filter fun _ record => record.leaseExpiresMs > now

end Idempotency
