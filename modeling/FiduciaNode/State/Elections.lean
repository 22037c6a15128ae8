import FiduciaNode.State.Command
import FiduciaNode.State.Fencing

structure Leadership where
  leader         : String
  fencingToken   : Nat
  leaseExpiresMs : Nat
  ttlMs          : Nat
  metadata       : HashMap String String

structure ServiceInstance where
  instanceId     : String
  address        : String
  leaseExpiresMs : Nat
  metadata       : HashMap String String

abbrev Elections := HashMap String Leadership

abbrev Services := HashMap String (HashMap String ServiceInstance)

instance : Serialize Leadership where
  toValue l := json [
    ("leader", l.leader), ("fencing_token", l.fencingToken),
    ("lease_expires_ms", l.leaseExpiresMs), ("ttl_ms", l.ttlMs), ("metadata", l.metadata)
  ]

instance : Serialize ServiceInstance where
  toValue i := json [
    ("instance_id", i.instanceId), ("address", i.address), ("lease_expires_ms", i.leaseExpiresMs),
    ("metadata", i.metadata)
  ]

namespace Elections

-- The current leader gets its own win back.
def applyElectionCampaign
    (elections : Elections) (fencing : FencingCounter) (revision now : Nat)
    (name candidate : String) (ttlMs : Nat) (metadata : HashMap String String) :
    Elections × FencingCounter × Value :=
  match elections[name]? with
  | some existing =>
    if existing.leader = candidate then
      (elections, fencing, json [
        ("won", true), ("name", name), ("leadership", existing), ("revision", revision)
      ])
    else
      (elections, fencing, json [("won", false), ("name", name), ("leader", existing)])
  | none =>
    match fencing.nextToken with
    | none => (elections, fencing, json [
        ("won", false), ("name", name), ("reason", "fencing_tokens_exhausted"),
        ("revision", revision)
      ])
    | some (token, fencing) =>
      let leadership : Leadership := {
        leader := candidate, fencingToken := token, leaseExpiresMs := U64.saturatingAdd now ttlMs
        ttlMs, metadata
      }
      (elections.insert name leadership, fencing, json [
        ("won", true), ("name", name), ("leadership", leadership), ("revision", revision)
      ])

def applyElectionRenew
    (elections : Elections) (now : Nat) (name candidate : String) (fencingToken : Nat)
    (ttlMs : Option Nat) : Elections × Value :=
  match elections[name]? with
  | none => (elections, json [("renewed", false), ("reason", "not_found"), ("name", name)])
  | some leadership =>
    if leadership.leader ≠ candidate || leadership.fencingToken ≠ fencingToken then
      (elections, json [("renewed", false), ("reason", "not_leader"), ("name", name)])
    else
      let ttl := ttlMs.getD leadership.ttlMs
      let leadership := { leadership with
        ttlMs := ttl, leaseExpiresMs := U64.saturatingAdd now ttl
      }
      (elections.insert name leadership, json [
        ("renewed", true), ("name", name), ("leadership", leadership)
      ])

def applyElectionResign (elections : Elections) (name candidate : String) (fencingToken : Nat) :
    Elections × Value :=
  let ok := elections[name]?.any fun leadership =>
    leadership.leader = candidate && leadership.fencingToken = fencingToken
  (if ok then elections.erase name else elections, json [("resigned", ok), ("name", name)])

def expireDue (elections : Elections) (now : Nat) : Elections :=
  elections.filter fun _ leadership => leadership.leaseExpiresMs > now

end Elections

namespace Services

def applyServiceRegister
    (services : Services) (now : Nat) (service instanceId address : String) (ttlMs : Nat)
    (metadata : HashMap String String) : Services × Value :=
  let inst : ServiceInstance := {
    instanceId, address, leaseExpiresMs := U64.saturatingAdd now ttlMs, metadata
  }
  let instances : HashMap String ServiceInstance := services[service]?.getD ∅
  (services.insert service (instances.insert instanceId inst), json [
    ("registered", true), ("service", service), ("instance", inst)
  ])

def applyServiceHeartbeat
    (services : Services) (now : Nat) (service instanceId : String) (ttlMs : Option Nat) :
    Services × Value :=
  let instances : HashMap String ServiceInstance := services[service]?.getD ∅
  match instances[instanceId]? with
  | none => (services, json [
      ("heartbeat", false), ("reason", "not_found"), ("service", service),
      ("instance_id", instanceId)
    ])
  | some inst =>
    let inst := { inst with leaseExpiresMs := U64.saturatingAdd now (ttlMs.getD 30000) }
    (services.insert service (instances.insert instanceId inst), json [
      ("heartbeat", true), ("service", service), ("instance", inst)
    ])

-- A service goes with its last instance.
def applyServiceDeregister (services : Services) (service instanceId : String) :
    Services × Value :=
  let removed := services[service]?.any (·.contains instanceId)
  let answer := json [
    ("deregistered", removed), ("service", service), ("instance_id", instanceId)
  ]
  match services[service]? with
  | none => (services, answer)
  | some instances =>
    let instances := instances.erase instanceId
    (if instances.isEmpty then services.erase service else services.insert service instances, answer)

def expireDue (services : Services) (now : Nat) : Services :=
  services.map (fun _ instances => instances.filter fun _ inst => inst.leaseExpiresMs > now)
    |>.filter fun _ instances => !instances.isEmpty

end Services
