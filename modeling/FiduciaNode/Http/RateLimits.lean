import FiduciaNode.OrgScope

namespace Http.RateLimits

structure CheckBody where
  algorithm       : RateLimitAlgorithm
  limit           : Nat
  windowMs        : Nat
  refillPerSecond : Option Float
  cost            : Option Nat

variable [External]

def check (org : OrgScope) (tenant key : String) (body : CheckBody) : Except Rejection Command := do
  Validate.rateLimit tenant key
  let cost := body.cost.getD 1
  Validate.rateLimitParams body.limit body.windowMs cost body.refillPerSecond
  .ok (.rateLimitCheck (org.scope key) (org.scope tenant) body.algorithm body.limit body.windowMs
    body.refillPerSecond cost)

-- The limiter that is read, by its tenant and its key.
def getLimit (org : OrgScope) (tenant key : String) : Except Rejection (String × String) := do
  Validate.rateLimit tenant key
  .ok (org.scope tenant, org.scope key)

end Http.RateLimits
