import Mathlib

-- Strings are parsed as lists of characters.
namespace Cron

abbrev Text := List Char

-- The code points with the property `White_Space`.
def isWhitespace (c : Char) : Bool :=
  let n := c.toNat
  (0x09 ≤ n && n ≤ 0x0d) || n = 0x20 || n = 0x85 || n = 0xa0 || n = 0x1680 ||
  (0x2000 ≤ n && n ≤ 0x200a) || n = 0x2028 || n = 0x2029 || n = 0x202f || n = 0x205f || n = 0x3000

def trim (t : Text) : Text :=
  t.dropWhile isWhitespace |>.reverse.dropWhile isWhitespace |>.reverse

def splitWhitespace (t : Text) : List Text :=
  t.splitOnP isWhitespace |>.filter (· ≠ [])

def splitOnce (sep : Char) (t : Text) : Option (Text × Text) :=
  match t.span (· ≠ sep) with
  | (_, []) => none
  | (before, _ :: after) => some (before, after)

def digit? (c : Char) : Option Nat :=
  if '0' ≤ c ∧ c ≤ '9' then some (c.toNat - '0'.toNat) else none

-- An optional plus sign and at least one digit, within 32 bits.
def parseU32 (t : Text) : Option Nat := do
  let digits := if t.head? = some '+' then t.tail else t
  if digits = [] then none else
    let ds ← digits.mapM digit?
    let n := ds.foldl (fun acc d => 10 * acc + d) 0
    if n < 2 ^ 32 then some n else none

def toAsciiLowercase (t : Text) : Text :=
  t.map fun c => if 'A' ≤ c ∧ c ≤ 'Z' then Char.ofNat (c.toNat + 32) else c

abbrev Names := List (Text × Nat)

def months : Names := [
  ("jan".toList, 1), ("feb".toList, 2), ("mar".toList, 3), ("apr".toList, 4), ("may".toList, 5),
  ("jun".toList, 6), ("jul".toList, 7), ("aug".toList, 8), ("sep".toList, 9), ("oct".toList, 10),
  ("nov".toList, 11), ("dec".toList, 12)
]

def days : Names := [
  ("sun".toList, 0), ("mon".toList, 1), ("tue".toList, 2), ("wed".toList, 3), ("thu".toList, 4),
  ("fri".toList, 5), ("sat".toList, 6)
]

def parseValue (token : Text) (names : Names) : Except Text Nat :=
  let token := trim token
  match parseU32 token with
  | some n => .ok n
  | none =>
    match names.find? (·.1 = toAsciiLowercase token) with
    | some (_, v) => .ok v
    | none => .error ("unknown value '".toList ++ token ++ "'".toList)

-- The values `lo, lo + step, ..` up to `hi`. A cursor that leaves 32 bits is past `hi`.
def steps (lo hi step : Nat) : List Nat :=
  if lo ≤ hi then List.range ((hi - lo) / step + 1) |>.map (lo + step * ·) else []

-- The loop that collects them, within so many rounds. Its cursor has 32 bits.
def stepLoop (hi step : Nat) : (rounds v : Nat) → Option (List Nat)
  | 0, _ => none
  | rounds + 1, v =>
    if v ≤ hi then
      if v + step < 2 ^ 32 then (stepLoop hi step rounds (v + step)).map (v :: ·) else some [v]
    else some []

def parsePart (part : Text) (min max : Nat) (names : Names) : Except Text (List Nat) := do
  let (rangeSpec, step) ←
    match splitOnce '/' part with
    | some (r, s) =>
      match parseU32 s with
      | none => .error ("bad step '".toList ++ s ++ "'".toList)
      | some 0 => .error "step must be >= 1".toList
      | some step => .ok (r, step)
    | none => .ok (part, 1)
  let (lo, hi) ←
    if rangeSpec = ['*'] then .ok (min, max) else
      match splitOnce '-' rangeSpec with
      | some (a, b) => do
        let lo ← parseValue a names
        let hi ← parseValue b names
        .ok (lo, hi)
      | none => do
        let v ← parseValue rangeSpec names
        .ok (v, if step > 1 then max else v)
  if lo < min || hi > max || lo > hi then
    .error ("value out of range [".toList ++ min.repr.toList ++ [','] ++ max.repr.toList ++
      "] in '".toList ++ part ++ "'".toList)
  else
    .ok (steps lo hi step)

def parseField (spec : Text) (min max : Nat) (names : Names) : Except Text (List Nat × Bool) := do
  let values ← (spec.splitOn ',').mapM (parsePart · min max names)
  .ok (values.flatten, spec ≠ ['*'])

structure DateParts where
  minute : Nat
  hour   : Nat
  day    : Nat
  month  : Nat
  dow    : Nat

-- The month and the day of the month of a day counted from 1970-01-01, in the proleptic Gregorian
-- calendar. Day counts are never negative here, so all divisions are those of natural numbers.
def civilFromDays (z : Nat) : Nat × Nat :=
  let z := z + 719468
  let era := z / 146097
  let doe := z - era * 146097
  let yoe := (doe - doe / 1460 + doe / 36524 - doe / 146096) / 365
  let doy := doe - (365 * yoe + yoe / 4 - yoe / 100)
  let mp := (5 * doy + 2) / 153
  let day := doy - (153 * mp + 2) / 5 + 1
  let month := if mp < 10 then mp + 3 else mp - 9
  (month, day)

namespace DateParts

def fromEpochMinute (totalMin : Nat) : DateParts :=
  let days := totalMin / 1440
  let minsInDay := totalMin % 1440
  let (month, day) := civilFromDays days
  { minute := minsInDay % 60, hour := minsInDay / 60, day, month, dow := (days % 7 + 4) % 7 }

end DateParts

end Cron

open Cron

-- Each field is the list of the values it matches.
structure CronSchedule where
  minute        : List Nat
  hour          : List Nat
  dom           : List Nat
  month         : List Nat
  dow           : List Nat
  domRestricted : Bool
  dowRestricted : Bool

namespace CronSchedule

def maxSearchMinutes : Nat := 5 * 366 * 24 * 60

-- Sunday is 0 and 7.
def parse (expr : String) : Except Text CronSchedule :=
  match splitWhitespace expr.toList with
  | [f₀, f₁, f₂, f₃, f₄] => do
    let (minute, _) ← parseField f₀ 0 59 []
    let (hour, _) ← parseField f₁ 0 23 []
    let (dom, domRestricted) ← parseField f₂ 1 31 []
    let (month, _) ← parseField f₃ 1 12 months
    let (dowRaw, dowRestricted) ← parseField f₄ 0 7 days
    .ok { minute, hour, dom, month, dow := dowRaw.map (· % 7), domRestricted, dowRestricted }
  | fields => .error ("expected 5 fields, got ".toList ++ fields.length.repr.toList)

def matchesParts (c : CronSchedule) (parts : DateParts) : Bool :=
  c.minute.contains parts.minute && c.hour.contains parts.hour && c.month.contains parts.month &&
  match c.domRestricted, c.dowRestricted with
  | false, false => true
  | true, false => c.dom.contains parts.day
  | false, true => c.dow.contains parts.dow
  | true, true => c.dom.contains parts.day || c.dow.contains parts.dow

-- The first matching minute from `minute` on, within `fuel` minutes.
def search (c : CronSchedule) (minute : Nat) : (fuel : Nat) → Option Nat
  | 0 => none
  | fuel + 1 =>
    if c.matchesParts (.fromEpochMinute minute)
    then some (minute * 60000 % 2 ^ 64)
    else c.search (minute + 1) fuel

def nextAfter (c : CronSchedule) (afterMs : Nat) : Option Nat :=
  c.search (afterMs / 60000 + 1) maxSearchMinutes

end CronSchedule
