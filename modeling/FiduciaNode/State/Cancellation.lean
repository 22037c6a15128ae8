import FiduciaNode.Primitives.Integer
import FiduciaNode.Primitives.Value

-- The code from outside of the repository that the state machine calls.
class External where
  sha256        : List UInt8 → List UInt8
  orgScopeDelim : Char

-- For runs on fixed commands, none of which hashes anything.
@[reducible]
def External.fixed : External where
  sha256 _      := []
  orgScopeDelim := '\u0001'

structure CancellationLimits where
  perTenant          : Nat
  total              : Nat
  globalReserve      : Nat
  fairSharePerTenant : Nat

structure CancellationEntry where
  expiresAtMs : Nat
  tenant      : String

-- The attempts that were cancelled recently, by digest, with an index by expiry and a count for
-- each tenant.
structure CancellationLedger where
  entries      : HashMap String CancellationEntry
  expirations  : BTreeMap Nat (BTreeSet String)
  tenantCounts : HashMap String Nat

inductive RememberCancellation
  | remembered
  | capacityExceeded
  deriving DecidableEq

def maxTtlMs : Nat := 24 * 60 * 60 * 1000

def cancellationTombstoneTtlMs : Nat := maxTtlMs

def cancellationLimits : CancellationLimits where
  perTenant          := 10000
  total              := 250000
  globalReserve      := 25000
  fairSharePerTenant := 256

section Identity

-- The length in eight bytes, the most significant one first, and then the bytes.
def hashSegment (value : List UInt8) : List UInt8 :=
  (List.range 8).map (fun i => UInt8.ofNat (value.length / 256 ^ (7 - i))) ++ value

def hexDigit (n : Nat) : Char :=
  Char.ofNat (if n < 10 then '0'.toNat + n else 'a'.toNat + (n - 10))

def bytesOf (s : String) : List UInt8 :=
  s.toUTF8.toList

variable [External]

def digestString (bytes : List UInt8) : String :=
  String.ofList <| (External.sha256 bytes).flatMap fun byte =>
    [hexDigit (byte.toNat / 16), hexDigit (byte.toNat % 16)]

def acquisitionIdentity (kind holder : String) (keys : List String) (requestId : String) : String :=
  digestString <|
    hashSegment (bytesOf kind) ++ hashSegment (bytesOf holder) ++
    keys.flatMap (fun key => hashSegment (bytesOf key)) ++ hashSegment (bytesOf requestId)

-- The organization that scopes the holder.
def scopeOf (holder : String) : Option String :=
  match holder.toList with
  | [] => none
  | c :: rest =>
    if c ≠ External.orgScopeDelim then none else
      match rest.span (· ≠ External.orgScopeDelim) with
      | (_, []) => none
      | (org, _ :: _) => some (String.ofList org)

def cancellationTenant (holder : String) : String :=
  digestString (hashSegment (bytesOf ((scopeOf holder).getD "legacy-unscoped")))

end Identity

namespace CancellationLedger

def empty : CancellationLedger where
  entries      := ∅
  expirations  := ∅
  tenantCounts := ∅

def contains (l : CancellationLedger) (identity : String) : Bool :=
  l.entries.contains identity

def rememberWithLimits
    (l : CancellationLedger) (identity tenant : String) (now : Nat) (limits : CancellationLimits) :
    CancellationLedger × RememberCancellation :=
  if l.entries.contains identity then (l, .remembered) else
    let tenantCount := l.tenantCounts.getD tenant 0
    let reserveStartsAt := limits.total - limits.globalReserve
    let consumingReservedCapacity :=
      l.entries.size ≥ reserveStartsAt && tenantCount ≥ limits.fairSharePerTenant
    if l.entries.size ≥ limits.total || tenantCount ≥ limits.perTenant || consumingReservedCapacity
    then (l, .capacityExceeded)
    else
      let expiresAtMs := U64.saturatingAdd now cancellationTombstoneTtlMs
      let l : CancellationLedger := {
        entries := l.entries.insert identity { expiresAtMs, tenant }
        expirations := l.expirations.insert expiresAtMs
          ((l.expirations.getD expiresAtMs ∅).insert identity)
        tenantCounts := l.tenantCounts.insert tenant (tenantCount + 1)
      }
      (l, .remembered)

def remember (l : CancellationLedger) (identity tenant : String) (now : Nat) :
    CancellationLedger × RememberCancellation :=
  l.rememberWithLimits identity tenant now cancellationLimits

-- Removes an identity from the bucket of `deadline`. An entry with another expiry stays.
def expireIdentity (l : CancellationLedger) (deadline : Nat) (identity : String) :
    CancellationLedger :=
  match l.entries[identity]? with
  | none => l
  | some entry =>
    if entry.expiresAtMs ≠ deadline then l else
      let tenantCounts :=
        match l.tenantCounts[entry.tenant]? with
        | none => l.tenantCounts
        | some count =>
          if count - 1 = 0
          then l.tenantCounts.erase entry.tenant
          else l.tenantCounts.insert entry.tenant (count - 1)
      { l with entries := l.entries.erase identity, tenantCounts }

def expireBucket (l : CancellationLedger) (deadline : Nat) (identities : BTreeSet String) :
    CancellationLedger :=
  let l := { l with expirations := l.expirations.erase deadline }
  identities.toList.foldl (fun l identity => l.expireIdentity deadline identity) l

def expire (l : CancellationLedger) (now : Nat) : CancellationLedger :=
  l.expirations.toList.filter (·.1 ≤ now)
    |>.foldl (fun l (deadline, identities) => l.expireBucket deadline identities) l

end CancellationLedger
