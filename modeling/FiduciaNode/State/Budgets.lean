import FiduciaNode.State.Tasks

inductive ReservationStatus
  | held
  | committed
  | released
  deriving DecidableEq

structure ReservationView where
  id       : String
  holder   : String
  reserved : BudgetAmount
  spent    : BudgetAmount
  status   : ReservationStatus

structure BudgetState where
  name         : String
  limit        : BudgetAmount
  reserved     : BudgetAmount
  spent        : BudgetAmount
  available    : BudgetAmount
  reservations : List ReservationView
  generation   : Nat

structure ReservationRecord where
  holder   : String
  reserved : BudgetAmount
  spent    : BudgetAmount
  status   : ReservationStatus

structure BudgetRecord where
  limit        : BudgetAmount
  reservations : BTreeMap String ReservationRecord
  generation   : Nat

abbrev Budgets := HashMap String BudgetRecord

instance : Serialize ReservationStatus where
  toValue
    | .held => "held"
    | .committed => "committed"
    | .released => "released"

instance : Serialize BudgetAmount where
  toValue a := json [
    ("usd_micros", a.usdMicros), ("tokens", a.tokens), ("tool_calls", a.toolCalls)
  ]

instance : Serialize ReservationView where
  toValue r := json [
    ("id", r.id), ("holder", r.holder), ("reserved", r.reserved), ("spent", r.spent),
    ("status", r.status)
  ]

instance : Serialize BudgetState where
  toValue b := json [
    ("name", b.name), ("limit", b.limit), ("reserved", b.reserved), ("spent", b.spent),
    ("available", b.available), ("reservations", b.reservations), ("generation", b.generation)
  ]

namespace BudgetAmount

def zero : BudgetAmount where
  usdMicros := some 0
  tokens    := some 0
  toolCalls := some 0

-- The amount that has `f axis` on each axis.
def ofAxes (f : (BudgetAmount → Option Nat) → Option Nat) : BudgetAmount where
  usdMicros := f usdMicros
  tokens    := f tokens
  toolCalls := f toolCalls

end BudgetAmount

namespace ReservationRecord

def consumedOn (r : ReservationRecord) (axis : BudgetAmount → Option Nat) : Nat :=
  match r.status with
  | .held => axis r.reserved |>.getD 0
  | .committed => axis r.spent |>.getD 0
  | .released => 0

end ReservationRecord

namespace BudgetRecord

def consumed (b : BudgetRecord) : BudgetAmount :=
  .ofAxes fun axis => some <|
    b.reservations.values.foldl (fun acc r => U64.saturatingAdd acc (r.consumedOn axis)) 0

def spent (b : BudgetRecord) : BudgetAmount :=
  .ofAxes fun axis => some <|
    b.reservations.values.filter (·.status = .committed)
      |>.foldl (fun acc r => U64.saturatingAdd acc (axis r.spent |>.getD 0)) 0

def fits (b : BudgetRecord) (amount : BudgetAmount) : Bool :=
  axisOk BudgetAmount.usdMicros && axisOk BudgetAmount.tokens && axisOk BudgetAmount.toolCalls
where
  axisOk (axis : BudgetAmount → Option Nat) : Bool :=
    (axis b.limit).all fun cap =>
      U64.saturatingAdd (axis b.consumed |>.getD 0) (axis amount |>.getD 0) ≤ cap

def available (b : BudgetRecord) : BudgetAmount :=
  .ofAxes fun axis => (axis b.limit).map fun cap => cap - (axis b.consumed |>.getD 0)

def view (b : BudgetRecord) (name : String) : BudgetState where
  name         := name
  limit        := b.limit
  reserved     := b.consumed
  spent        := b.spent
  available    := b.available
  reservations := b.reservations.toList.map fun (id, r) => {
    id, holder := r.holder, reserved := r.reserved, spent := r.spent, status := r.status
  }
  generation   := b.generation

end BudgetRecord

namespace Budgets

def applyBudgetSet (budgets : Budgets) (name : String) (limit : BudgetAmount) : Budgets × Value :=
  let record := budgets[name]?.getD { limit, reservations := ∅, generation := 0 }
  let record : BudgetRecord := { record with limit, generation := record.generation + 1 }
  (budgets.insert name record, json [("ok", true), ("budget", record.view name)])

def applyBudgetReserve
    (budgets : Budgets) (name reservationId holder : String) (amount : BudgetAmount) :
    Budgets × Value :=
  match budgets[name]? with
  | none => (budgets, notFound)
  | some record =>
    if record.reservations.contains reservationId then
      (budgets, json [("ok", true), ("reserved", false), ("budget", record.view name)])
    else if !record.fits amount then
      (budgets, json [
        ("ok", false), ("reason", "insufficient_budget"), ("available", record.available),
        ("budget", record.view name)
      ])
    else
      let reservation : ReservationRecord := {
        holder, reserved := amount, spent := .zero, status := .held
      }
      let record : BudgetRecord := { record with
        reservations := record.reservations.insert reservationId reservation
        generation := record.generation + 1
      }
      (budgets.insert name record, json [
        ("ok", true), ("reserved", true), ("budget", record.view name)
      ])

-- The spend is capped by what was reserved on the axis.
def cap : (actual reserved : Option Nat) → Option Nat
  | some a, some r => some (min a r)
  | some a, none => some a
  | none, _ => some 0

def applyBudgetCommit
    (budgets : Budgets) (name reservationId : String) (actual : BudgetAmount) : Budgets × Value :=
  match budgets[name]? with
  | none => (budgets, notFound)
  | some record =>
    match record.reservations[reservationId]? with
    | none => (budgets, json [("ok", false), ("reason", "reservation_not_found")])
    | some reservation =>
      match reservation.status with
      | .committed =>
        (budgets, json [("ok", true), ("committed", false), ("budget", record.view name)])
      | .released => (budgets, json [("ok", false), ("reason", "released")])
      | .held =>
        let reservation := { reservation with
          spent := .ofAxes fun axis => cap (axis actual) (axis reservation.reserved)
          status := .committed
        }
        let record : BudgetRecord := { record with
          reservations := record.reservations.insert reservationId reservation
          generation := record.generation + 1
        }
        (budgets.insert name record, json [
          ("ok", true), ("committed", true), ("budget", record.view name)
        ])

def applyBudgetRelease (budgets : Budgets) (name reservationId : String) : Budgets × Value :=
  match budgets[name]? with
  | none => (budgets, notFound)
  | some record =>
    match record.reservations[reservationId]? with
    | none => (budgets, json [("ok", false), ("reason", "reservation_not_found")])
    | some reservation =>
      if reservation.status = .committed then
        (budgets, json [
          ("ok", false), ("reason", "already_committed"), ("budget", record.view name)
        ])
      else
        let reservation := { reservation with status := .released }
        let record : BudgetRecord := { record with
          reservations := record.reservations.insert reservationId reservation
          generation := record.generation + 1
        }
        (budgets.insert name record, json [("ok", true), ("budget", record.view name)])

end Budgets
