import FiduciaNode.State.Command
import FiduciaNode.Primitives.Integer

inductive BarrierStatus
  | pending
  | satisfied
  | vetoed
  | timedOut
  deriving DecidableEq

structure BarrierArrival where
  participant : String
  weight      : Nat
  veto        : Bool
  arrivedMs   : Nat

structure BarrierState where
  name          : String
  policy        : BarrierPolicy
  expected      : Nat
  deadlineMs    : Option Nat
  status        : BarrierStatus
  arrivals      : List BarrierArrival
  arrivedCount  : Nat
  arrivedWeight : Nat

structure BarrierRecord where
  policy     : BarrierPolicy
  expected   : Nat
  deadlineMs : Option Nat
  arrivals   : HashMap String BarrierArrival

abbrev Barriers := HashMap String BarrierRecord

instance : Serialize BarrierPolicy where
  toValue
    | .all => json [("kind", "all")]
    | .quorum required => json [("kind", "quorum"), ("required", required)]
    | .firstSuccess => json [("kind", "first_success")]
    | .anyVeto => json [("kind", "any_veto")]
    | .bestByDeadline => json [("kind", "best_by_deadline")]
    | .weightedQuorum requiredWeight =>
      json [("kind", "weighted_quorum"), ("required_weight", requiredWeight)]

instance : Serialize BarrierStatus where
  toValue
    | .pending => "pending"
    | .satisfied => "satisfied"
    | .vetoed => "vetoed"
    | .timedOut => "timed_out"

instance : Serialize BarrierArrival where
  toValue a := json [
    ("participant", a.participant), ("weight", a.weight), ("veto", a.veto),
    ("arrived_ms", a.arrivedMs)
  ]

instance : Serialize BarrierState where
  toValue b := json [
    ("name", b.name), ("policy", b.policy), ("expected", b.expected),
    ("deadline_ms", b.deadlineMs), ("status", b.status), ("arrivals", b.arrivals),
    ("arrived_count", b.arrivedCount), ("arrived_weight", b.arrivedWeight)
  ]

namespace BarrierStatus

def isTerminal : BarrierStatus → Bool
  | pending => false
  | _ => true

end BarrierStatus

namespace BarrierArrival

-- The order of the arrivals in a view: by time and then by participant.
def before (a₁ a₂ : BarrierArrival) : Bool :=
  (compare a₁.arrivedMs a₂.arrivedMs).then (compare a₁.participant a₂.participant) |>.isLE

end BarrierArrival

namespace BarrierRecord

-- The tally that decides the status saturates.
def status (o : IterOrder) (b : BarrierRecord) (now : Nat) : BarrierStatus :=
  let arrived := b.arrivals.values o |>.filter (!·.veto)
  let count := arrived.length
  let weight := arrived.foldl (fun acc a => U64.saturatingAdd acc a.weight) 0
  let deadlinePassed := b.deadlineMs.any (· ≤ now)
  if (b.policy matches .anyVeto) && (b.arrivals.values o).any (·.veto) then
    .vetoed
  else
    let met :=
      match b.policy with
      | .all | .anyVeto => decide (count ≥ b.expected)
      | .quorum required => decide (count ≥ required)
      | .firstSuccess => decide (count ≥ 1)
      | .weightedQuorum requiredWeight => decide (weight ≥ requiredWeight)
      | .bestByDeadline => deadlinePassed && decide (count ≥ 1)
    if met then .satisfied else if deadlinePassed then .timedOut else .pending

-- The sum in the view is a plain one, so it wraps around.
def view (o : IterOrder) (b : BarrierRecord) (name : String) (now : Nat) : BarrierState :=
  let arrivals := (b.arrivals.values o).mergeSort BarrierArrival.before
  let arrived := arrivals.filter (!·.veto)
  {
    name
    policy := b.policy
    expected := b.expected
    deadlineMs := b.deadlineMs
    status := b.status o now
    arrivals
    arrivedCount := arrived.length
    arrivedWeight := arrived.foldl (fun acc a => U64.wrappingAdd acc a.weight) 0
  }

end BarrierRecord

namespace Barriers

def applyBarrierCreate
    (o : IterOrder) (barriers : Barriers) (now : Nat) (name : String) (policy : BarrierPolicy)
    (expected : Nat) (deadlineMs : Option Nat) : Barriers × Value :=
  match barriers[name]?.filter fun b => (b.status o now).isTerminal with
  | some resolved => (barriers, json [
      ("ok", false), ("reason", "already_resolved"), ("barrier", resolved.view o name now)
    ])
  | none =>
    let arrivals := barriers[name]?.map BarrierRecord.arrivals |>.getD ∅
    let record : BarrierRecord := { policy, expected, deadlineMs, arrivals }
    (barriers.insert name record, json [("ok", true), ("barrier", record.view o name now)])

def applyBarrierArrive
    (o : IterOrder) (barriers : Barriers) (now : Nat) (name participant : String) (weight : Nat)
    (veto : Bool) : Barriers × Value :=
  let record := barriers[name]?.getD {
    policy := .all, expected := 1, deadlineMs := none, arrivals := ∅
  }
  let arrival : BarrierArrival := { participant, weight, veto, arrivedMs := now }
  let record := { record with arrivals := record.arrivals.insert participant arrival }
  let view : BarrierState := record.view o name now
  (barriers.insert name record, json [
    ("ok", true), ("resolved", view.status.isTerminal), ("barrier", view)
  ])

end Barriers
