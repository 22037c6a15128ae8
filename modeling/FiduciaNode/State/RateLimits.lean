import FiduciaNode.State.Command
import FiduciaNode.Primitives.Integer

structure RateLimitRecord where
  algorithm   : RateLimitAlgorithm
  limit       : Nat
  windowMs    : Nat
  tokens      : Float
  updatedMs   : Nat
  events      : List Nat
  lastAllowed : Bool

abbrev RateLimits := HashMap String RateLimitRecord

instance : Serialize RateLimitAlgorithm where
  toValue
    | .tokenBucket => "token_bucket"
    | .slidingWindow => "sliding_window"

namespace RateLimits

-- The larger of two numbers, where a number that is not a number loses.
def maxF64 (x y : Float) : Float :=
  if x.isNaN then y else if y.isNaN then x else if x ≤ y then y else x

def clampTokens (tokens : Float) (limit : Nat) : Float :=
  let limit := Float.ofNat limit
  if tokens.isNaN then 0 else if tokens < 0 then 0 else if tokens > limit then limit else tokens

def rateLimitStoreKey (tenant key : String) : String :=
  tenant ++ ":" ++ key

-- Whether the check is allowed, what remains, when the limit resets, and the record afterwards.
structure Outcome where
  allowed   : Bool
  remaining : Nat
  resetMs   : Nat
  record    : RateLimitRecord

def tokenBucket
    (record : RateLimitRecord) (now limit windowMs : Nat) (refillPerSecond : Option Float)
    (cost : Nat) : Outcome :=
  let refill := refillPerSecond.getD (Float.ofNat limit / (Float.ofNat (max windowMs 1) / 1000))
  let elapsed := Float.ofNat (now - record.updatedMs) / 1000
  let tokens := clampTokens (record.tokens + elapsed * refill) limit
  if tokens ≥ Float.ofNat cost then
    let tokens := tokens - Float.ofNat cost
    {
      allowed := true, remaining := tokens.floor.toUInt32.toNat, resetMs := now
      record := { record with tokens, updatedMs := now }
    }
  else
    let missing := Float.ofNat cost - tokens
    let waitMs := (missing / maxF64 refill 0.000001 * 1000).ceil.toUInt64.toNat
    {
      allowed := false, remaining := tokens.floor.toUInt32.toNat
      resetMs := U64.saturatingAdd now waitMs, record := { record with tokens, updatedMs := now }
    }

def slidingWindow (record : RateLimitRecord) (now limit windowMs cost : Nat) : Outcome :=
  let cutoff := now - windowMs
  let events := record.events.dropWhile (· ≤ cutoff)
  let available := limit - events.length
  if available ≥ cost then
    {
      allowed := true, remaining := available - cost, resetMs := U64.saturatingAdd now windowMs
      record := { record with events := events ++ List.replicate cost now }
    }
  else
    {
      allowed := false, remaining := available
      resetMs := U64.saturatingAdd (events.head?.getD now) windowMs
      record := { record with events }
    }

def applyRateLimitCheck
    (rateLimits : RateLimits) (now : Nat) (key tenant : String) (algorithm : RateLimitAlgorithm)
    (limit windowMs : Nat) (refillPerSecond : Option Float) (cost : Nat) : RateLimits × Value :=
  let storeKey := rateLimitStoreKey tenant key
  let record : RateLimitRecord := rateLimits[storeKey]?.getD {
    algorithm, limit, windowMs, tokens := Float.ofNat limit, updatedMs := now, events := []
    lastAllowed := true
  }
  let record := { record with algorithm, limit, windowMs }
  let outcome :=
    match algorithm with
    | .tokenBucket => tokenBucket record now limit windowMs refillPerSecond cost
    | .slidingWindow => slidingWindow record now limit windowMs cost
  let record := { outcome.record with lastAllowed := outcome.allowed }
  (rateLimits.insert storeKey record, json [
    ("allowed", outcome.allowed), ("remaining", outcome.remaining), ("reset_ms", outcome.resetMs),
    ("key", key), ("tenant", tenant), ("algorithm", record.algorithm)
  ])

end RateLimits
