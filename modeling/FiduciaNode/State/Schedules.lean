import FiduciaNode.State.Command
import FiduciaNode.Cron

structure Schedule where
  name        : String
  cron        : Option String
  oneShotAtMs : Option Nat
  target      : ScheduleTarget
  delivery    : DeliverySemantics
  maxRetries  : Nat
  enabled     : Bool
  nextFireMs  : Option Nat

inductive RunStatus
  | pending
  | delivered
  | failed
  deriving DecidableEq

inductive RunTrigger
  | scheduled
  | manual
  | legacy
  deriving DecidableEq

structure ScheduleRun where
  fireId        : String
  firedAtMs     : Nat
  attempts      : Nat
  duplicate     : Bool
  target        : ScheduleTarget
  status        : RunStatus
  error         : Option String
  trigger       : RunTrigger
  errorClass    : Option String
  httpStatus    : Option Nat
  durationMs    : Option Nat
  completedAtMs : Option Nat
  traceId       : Option String
  spanId        : Option String

structure ScheduleRecord where
  definition : Schedule
  history    : List ScheduleRun

abbrev Schedules := HashMap String ScheduleRecord

instance : Serialize DeliverySemantics where
  toValue
    | .atLeastOnce => "at_least_once"
    | .exactlyOnce => "exactly_once"

instance : Serialize ScheduleTarget where
  toValue
    | .webhook url => json [("kind", "webhook"), ("url", url)]
    | .queue name => json [("kind", "queue"), ("name", name)]
    | .grpc endpoint => json [("kind", "grpc"), ("endpoint", endpoint)]
    | .function functionId => json [("kind", "function"), ("function_id", functionId)]

namespace ScheduleRecord

def maxScheduleHistory : Nat := 100

-- Drops the oldest runs.
def trimHistory (record : ScheduleRecord) : ScheduleRecord :=
  { record with history := record.history.drop (record.history.length - maxScheduleHistory) }

def push (record : ScheduleRecord) (run : ScheduleRun) : ScheduleRecord :=
  { record with history := record.history ++ [run] }.trimHistory

end ScheduleRecord

namespace Schedules

def nextFireFor (cron : Option String) (oneShotAtMs : Option Nat) (afterMs : Nat) : Option Nat :=
  match oneShotAtMs with
  | some at_ => some at_
  | none => do
    let schedule ← (CronSchedule.parse (← cron)).toOption
    schedule.nextAfter afterMs

-- The longest list of whole characters that takes at most `bytes` bytes.
def takeBytes (bytes : Nat) : List Char → List Char
  | [] => []
  | c :: cs => if c.utf8Size ≤ bytes then c :: takeBytes (bytes - c.utf8Size) cs else []

def boundedScheduleText (value : Option String) : Option String :=
  value.map fun text => String.ofList (takeBytes 512 text.toList)

-- A run as it is recorded when its delivery starts.
def newRun (fireId : String) (firedAtMs : Nat) (target : ScheduleTarget) (trigger : RunTrigger) :
    ScheduleRun where
  fireId        := fireId
  firedAtMs     := firedAtMs
  attempts      := 0
  duplicate     := false
  target        := target
  status        := .pending
  error         := none
  trigger       := trigger
  errorClass    := none
  httpStatus    := none
  durationMs    := none
  completedAtMs := none
  traceId       := none
  spanId        := none

def applyScheduleUpsert
    (schedules : Schedules) (name : String) (cron : Option String) (oneShotAtMs : Option Nat)
    (target : ScheduleTarget) (delivery : DeliverySemantics) (maxRetries nowMs : Nat) :
    Schedules × Value :=
  let nextFireMs := nextFireFor cron oneShotAtMs nowMs
  let existing := schedules[name]?
  let definition : Schedule := {
    name, cron, oneShotAtMs, target, delivery, maxRetries, nextFireMs
    enabled := existing.map (·.definition.enabled) |>.getD true
  }
  let history := existing.map ScheduleRecord.history |>.getD []
  (schedules.insert name { definition, history }, json [
    ("scheduled", true), ("name", name), ("next_fire_ms", nextFireMs)
  ])

def applyScheduleRecordRun (schedules : Schedules) (name fireId : String) (firedAtMs : Nat) :
    Schedules × Value :=
  match schedules[name]? with
  | none => (schedules, json [("recorded", false), ("reason", "not_found"), ("name", name)])
  | some record =>
    let duplicate := record.definition.delivery = .exactlyOnce &&
      record.history.any (·.fireId = fireId)
    let answer := json [
      ("recorded", !duplicate), ("duplicate", duplicate), ("name", name), ("fire_id", fireId)
    ]
    if duplicate then (schedules, answer) else
      let run := { newRun fireId firedAtMs record.definition.target .legacy with
        attempts := 1, status := .delivered, completedAtMs := some firedAtMs
      }
      (schedules.insert name (record.push run), answer)

-- Only the fire under the cursor can be claimed.
def applyScheduleClaimFire (schedules : Schedules) (name : String) (fireIdMs : Nat) :
    Schedules × Value :=
  match schedules[name]? with
  | none => (schedules, json [("claimed", false), ("reason", "not_found"), ("name", name)])
  | some record =>
    let definition := record.definition
    if !definition.enabled then
      (schedules, json [("claimed", false), ("reason", "disabled"), ("name", name)])
    else if definition.nextFireMs ≠ some fireIdMs then
      (schedules, json [
        ("claimed", false), ("reason", "stale_or_duplicate"), ("name", name),
        ("expected", definition.nextFireMs)
      ])
    else
      let record := record.push (newRun fireIdMs.repr fireIdMs definition.target .scheduled)
      let next :=
        if definition.oneShotAtMs.isSome then none else nextFireFor definition.cron none fireIdMs
      let record := { record with definition := { definition with nextFireMs := next } }
      (schedules.insert name record, json [
        ("claimed", true), ("name", name), ("fire_id_ms", fireIdMs), ("target", definition.target),
        ("delivery", definition.delivery), ("max_retries", definition.maxRetries),
        ("next_fire_ms", next)
      ])

def applyScheduleSetEnabled
    (schedules : Schedules) (name : String) (enabled : Bool) (nowMs : Nat) (catchUp : Bool) :
    Schedules × Value :=
  match schedules[name]? with
  | none => (schedules, json [("updated", false), ("reason", "not_found"), ("name", name)])
  | some record =>
    let changed := record.definition.enabled != enabled
    let nextFireMs :=
      if enabled && !catchUp then
        match record.definition.oneShotAtMs with
        | some oneShot => if oneShot > nowMs then some oneShot else none
        | none => nextFireFor record.definition.cron none nowMs
      else record.definition.nextFireMs
    let record := { record with definition := { record.definition with enabled, nextFireMs } }
    (schedules.insert name record, json [
      ("updated", true), ("changed", changed), ("name", name), ("enabled", enabled),
      ("catch_up", catchUp), ("next_fire_ms", nextFireMs)
    ])

def applyScheduleDelete (schedules : Schedules) (name : String) : Schedules × Value :=
  (schedules.erase name, json [("deleted", schedules.contains name), ("name", name)])

def applyScheduleTrigger (schedules : Schedules) (name : String) (fireIdMs requestedAtMs : Nat) :
    Schedules × Value :=
  match schedules[name]? with
  | none => (schedules, json [("triggered", false), ("reason", "not_found"), ("name", name)])
  | some record =>
    let fireId := fireIdMs.repr
    if record.history.any (·.fireId = fireId) then
      (schedules, json [
        ("triggered", false), ("duplicate", true), ("name", name), ("fire_id_ms", fireIdMs)
      ])
    else
      let run := newRun fireId requestedAtMs record.definition.target .manual
      (schedules.insert name (record.push run), json [
        ("triggered", true), ("name", name), ("fire_id_ms", fireIdMs),
        ("requested_at_ms", requestedAtMs)
      ])

-- What a delivery reports about its run.
structure RunResult where
  delivered     : Bool
  attempts      : Nat
  error         : Option String
  errorClass    : Option String
  httpStatus    : Option Nat
  durationMs    : Option Nat
  completedAtMs : Option Nat
  traceId       : Option String
  spanId        : Option String

def RunResult.record (result : RunResult) (run : ScheduleRun) : ScheduleRun :=
  { run with
    status := if result.delivered then .delivered else .failed
    attempts := result.attempts
    error := boundedScheduleText result.error
    errorClass := boundedScheduleText result.errorClass
    httpStatus := result.httpStatus
    durationMs := result.durationMs
    completedAtMs := result.completedAtMs
    traceId := boundedScheduleText result.traceId
    spanId := boundedScheduleText result.spanId
  }

-- The latest run of the fire is the one that is settled. A settled run is never rewritten.
def applyScheduleRecordResult
    (schedules : Schedules) (name : String) (fireIdMs : Nat) (result : RunResult) :
    Schedules × Value :=
  match schedules[name]? with
  | none => (schedules, json [("recorded", false), ("reason", "not_found"), ("name", name)])
  | some record =>
    match record.history.reverse.span (·.fireId ≠ fireIdMs.repr) with
    | (_, []) => (schedules, json [
        ("recorded", false), ("reason", "no_run"), ("name", name), ("fire_id_ms", fireIdMs)
      ])
    | (newer, run :: older) =>
      if run.status ≠ .pending then
        (schedules, json [
          ("recorded", true), ("duplicate", true), ("name", name), ("fire_id_ms", fireIdMs),
          ("delivered", decide (run.status = .delivered))
        ])
      else
        let record := { record with history := (newer ++ result.record run :: older).reverse }
        (schedules.insert name record, json [
          ("recorded", true), ("name", name), ("fire_id_ms", fireIdMs),
          ("delivered", result.delivered)
        ])

end Schedules
