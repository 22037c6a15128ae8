import FiduciaNode.Http.Address
import FiduciaNode.OrgScope
import FiduciaNode.State.Schedules

-- The delivery of a fire of a schedule to its target.
namespace Http.Delivery

structure RunnerConfig where
  lambdaBaseUrl        : Option Url
  lambdaServerAuth     : Option String
  webhookSigningSecret : Option (List UInt8)

-- What is sent to the target, without the headers that carry the trace.
structure Request where
  url            : Url
  body           : List UInt8
  idempotencyKey : String
  schedule       : String
  signature      : Option String
  serverAuth     : Option String
  orgId          : Option String

inductive TransportError
  | timeout
  | connect
  | request
  deriving DecidableEq

structure DeliveryOutcome where
  delivered  : Bool
  attempts   : Nat
  error      : Option String
  errorClass : Option String
  httpStatus : Option Nat
  deriving DecidableEq

-- What surrounds a delivery: the resolution of names, the client that is pinned to the addresses, the path
-- segments of a URL, the JSON writer, the texts that may stand in a header, and the answer to each attempt.
structure World where
  lookup        : String → Nat → Option (List IpAddr)
  builds        : Bool
  pushSegments  : Url → List String → Option Url
  toVec         : Value → List UInt8
  isHeaderValue : String → Bool
  respond       : Nat → Except TransportError Nat

inductive ResponseDisposition
  | success
  | retry
  | permanent

def responseDisposition (status : Nat) : ResponseDisposition :=
  if 200 ≤ status ∧ status < 300 then .success
  else if status = 408 ∨ status = 425 ∨ status = 429 ∨ (500 ≤ status ∧ status < 600) then .retry
  else .permanent

def targetKind : ScheduleTarget → String
  | .webhook _ => "webhook"
  | .queue _ => "queue"
  | .grpc _ => "grpc"
  | .function _ => "function"

section Names

variable [External]

-- The organization and the name, if the name is scoped.
def splitScope (name : String) : Option (String × String) :=
  match name.toList with
  | [] => none
  | c :: rest =>
    if c ≠ External.orgScopeDelim then none else
      (Cron.splitOnce External.orgScopeDelim rest).map fun (org, name) => (String.ofList org, String.ofList name)

def scopedOrg (name : String) : Option String :=
  (splitScope name).map Prod.fst |>.filter (· ≠ "")

def unscopedName (name : String) : String :=
  (splitScope name).map Prod.snd |>.getD name

end Names

def deliveryIdempotencyKey (scheduleName : String) (fireIdMs : Nat) : String :=
  "fiducia-schedule:" ++ scheduleName ++ ":" ++ fireIdMs.repr

section Signature

variable [External]

def hmacBlockBytes : Nat := 64

def hmacSha256HeaderValue (secret body : List UInt8) : String :=
  let key := if secret.length > hmacBlockBytes then External.sha256 secret else secret
  let keyBlock := key ++ List.replicate (hmacBlockBytes - key.length) 0
  let inner := External.sha256 (keyBlock.map (0x36 ^^^ ·) ++ body)
  "sha256=" ++ digestString (keyBlock.map (0x5c ^^^ ·) ++ inner)

def webhookSignatureHeader (target : ScheduleTarget) (signingSecret : Option (List UInt8)) (body : List UInt8) :
    Option String :=
  match target with
  | .webhook _ => signingSecret.map fun secret => hmacSha256HeaderValue secret body
  | _ => none

end Signature

section Target

variable [Net]

def parseStoredUrl (raw : String) : Except String Url :=
  match Net.parseUrl raw with
  | none => .error "stored target URL is invalid"
  | some url =>
    if url.scheme = "http" ∨ url.scheme = "https" then .ok url else .error "stored target scheme is invalid"

-- The URL of the target, and whether it is the function runtime, which authenticates the node.
def resolvedTarget (world : World) (config : RunnerConfig) : ScheduleTarget → Except String (Url × Bool)
  | .webhook url => (parseStoredUrl url).map (·, false)
  | .queue name => (parseStoredUrl name).map (·, false)
  | .grpc endpoint => (parseStoredUrl endpoint).map (·, false)
  | .function functionId =>
    match config.lambdaBaseUrl with
    | none => .error "function_runtime_unconfigured"
    | some base =>
      if config.lambdaServerAuth.isNone then .error "function_runtime_auth_unconfigured" else
        match world.pushSegments base ["invoke", functionId] with
        | none => .error "function_target_invalid"
        | some url => .ok (url, true)

end Target

section Attempts

variable (world : World) (request : Request)

-- A request with a header that is no header value fails before it is sent.
def isSendable : Bool :=
  world.isHeaderValue request.idempotencyKey && world.isHeaderValue request.schedule &&
  request.orgId.all world.isHeaderValue

def TransportError.error : TransportError → String
  | .timeout => "request timed out"
  | .connect => "connection failed"
  | .request => "request failed"

def TransportError.class : TransportError → String
  | .timeout => "timeout"
  | .connect => "connect"
  | .request => "request"

def attempt (attempts : Nat) : Except TransportError Nat :=
  if isSendable world request then world.respond attempts else .error .request

-- The requests that are sent and how they end, with so many attempts left after `last`.
def attemptAll : Nat → DeliveryOutcome → List Request × DeliveryOutcome
  | 0, last => ([], last)
  | remaining + 1, last =>
    let attempts := last.attempts + 1
    let sent := if isSendable world request then [request] else []
    match attempt world request attempts with
    | .ok status =>
      match responseDisposition status with
      | .success =>
        (sent, { delivered := true, attempts, error := none, errorClass := none, httpStatus := some status })
      | .permanent =>
        (sent, {
          delivered := false, attempts, error := some ("HTTP " ++ status.repr), errorClass := some "http_permanent"
          httpStatus := some status
        })
      | .retry =>
        let (later, outcome) := attemptAll remaining {
          delivered := false, attempts, error := some ("HTTP " ++ status.repr), errorClass := some "http_transient"
          httpStatus := some status
        }
        (sent ++ later, outcome)
    | .error e =>
      let (later, outcome) := attemptAll remaining {
        delivered := false, attempts, error := some e.error, errorClass := some e.class, httpStatus := last.httpStatus
      }
      (sent ++ later, outcome)

end Attempts

def DeliveryOutcome.unsent (error errorClass : String) : DeliveryOutcome where
  delivered  := false
  attempts   := 0
  error      := some error
  errorClass := some errorClass
  httpStatus := none

variable [External] [Net]

def deliveryBody (schedule : Schedule) (fireIdMs : Nat) : Value :=
  json [
    ("schedule", unscopedName schedule.name), ("fire_id", fireIdMs.repr), ("fired_at_ms", fireIdMs),
    ("target_kind", targetKind schedule.target)
  ]

def deliveryRequest (world : World) (config : RunnerConfig) (schedule : Schedule) (fireIdMs : Nat) (url : Url)
    (functionAuth : Bool) : Request :=
  let name := unscopedName schedule.name
  let body := world.toVec (deliveryBody schedule fireIdMs)
  {
    url, body
    idempotencyKey := deliveryIdempotencyKey name fireIdMs
    schedule       := name
    signature      := webhookSignatureHeader schedule.target config.webhookSigningSecret body
    serverAuth     := if functionAuth then config.lambdaServerAuth else none
    orgId          := if functionAuth then scopedOrg schedule.name else none
  }

def deliver (world : World) (config : RunnerConfig) (schedule : Schedule) (fireIdMs : Nat) :
    List Request × DeliveryOutcome :=
  match resolvedTarget world config schedule.target with
  | .error e => ([], .unsent e "configuration")
  | .ok (url, functionAuth) =>
    if functionAuth && (scopedOrg schedule.name).isNone then
      ([], .unsent "function schedule is missing tenant scope" "configuration")
    else
      let pinned := if functionAuth then .ok () else (publicTargetClient world.lookup world.builds url).map fun _ => ()
      match pinned with
      | .error e => ([], .unsent e "target_policy")
      | .ok () =>
        let maxAttempts := min (schedule.maxRetries + 1) (2 ^ 32 - 1)
        attemptAll world (deliveryRequest world config schedule fireIdMs url functionAuth) maxAttempts
          { delivered := false, attempts := 0, error := none, errorClass := none, httpStatus := none }

end Http.Delivery
