import FiduciaNode.Consensus.Machine
import FiduciaNode.Consensus.Theorems.Acknowledgement
import FiduciaNode.State.History

-- How the announcement of a change relates to the change.
structure Tells (announced changed redundant : Prop) : Prop where
  seen      : changed → announced
  phantom   : redundant ↔ announced ∧ ¬ changed

namespace Tells

variable {announced changed redundant : Prop}

theorem refused (silent : ¬ announced) (same : ¬ changed) (h : ¬ redundant) : Tells announced changed redundant :=
  ⟨fun change => absurd change same, by simp [silent, h]⟩

theorem recorded {α β : Type} {x y : Option α} {f : α → β} (injective : f.Injective)
    (h : Tells announced (x ≠ y) redundant) : Tells announced (x.map f ≠ y.map f) redundant := by
  rwa [(Option.map_injective injective).ne_iff]

theorem accepted (told : announced) (h : redundant ↔ ¬ changed) : Tells announced changed redundant :=
  ⟨fun _ => told, by simp [told, h]⟩

end Tells

namespace Kv

variable {kv : Kv} {revision now : Nat} {key value : String} {ttlMs prevRevision : Option Nat}

theorem put_tells :
    Tells ((kv.applyKvPut revision now key value ttlMs prevRevision).2.flag "ok" = some true)
      ((kv.applyKvPut revision now key value ttlMs prevRevision).1[key]? ≠ kv[key]?)
      (prevRevision.all (kv.currentRevision key = ·) ∧
        kv[key]? = some { value, modRevision := revision, expiresAtMs := ttlMs.map (U64.saturatingAdd now) }) := by
  simp only [applyKvPut]
  split
  case isTrue mismatch => exact .refused nofun (by simp) (by cases prevRevision <;> simp_all)
  case isFalse current =>
    refine .accepted rfl ?_
    have expected : prevRevision.all (kv.currentRevision key = ·) := by cases prevRevision <;> simp_all
    simp only [expected, true_and, Std.ExtTreeMap.getElem?_insert_self, ne_eq, not_not]
    exact eq_comm

theorem delete_tells (revision : Nat) :
    Tells True ((kv.applyKvDelete revision key).1[key]? ≠ kv[key]?) (kv[key]? = none) := by
  refine .accepted trivial ?_
  simp [applyKvDelete, eq_comm]

end Kv

theorem Leadership.extend_eq_self {l : Leadership} {ttlMs leaseExpiresMs : Nat} :
    { l with ttlMs, leaseExpiresMs } = l ↔ ttlMs = l.ttlMs ∧ leaseExpiresMs = l.leaseExpiresMs := by
  cases l
  simp [and_comm]

theorem ServiceInstance.extend_eq_self {inst : ServiceInstance} {leaseExpiresMs : Nat} :
    { inst with leaseExpiresMs } = inst ↔ leaseExpiresMs = inst.leaseExpiresMs := by
  cases inst
  simp

namespace Elections

variable {elections : Elections} {fencing : FencingCounter} {revision now fencingToken ttlMs : Nat}
  {name candidate : String} {metadata : HashMap String String} {ttlMs' : Option Nat}

theorem campaign_tells :
    Tells ((elections.applyElectionCampaign fencing revision now name candidate ttlMs metadata).2.2.flag "won" = some true)
      ((elections.applyElectionCampaign fencing revision now name candidate ttlMs metadata).1[name]? ≠ elections[name]?)
      (∃ leadership ∈ elections[name]?, leadership.leader = candidate) := by
  simp only [applyElectionCampaign]
  split
  case h_1 existing stored =>
    split
    case isTrue leads => exact .accepted rfl (by simp [stored, leads])
    case isFalse other => exact .refused (by rintro ⟨⟩) (by simp) (by simp [stored, other])
  case h_2 stored =>
    split
    case h_1 => exact .refused (by rintro ⟨⟩) (by simp) (by simp [stored])
    case h_2 => exact .accepted rfl (by simp [stored])

theorem renew_tells :
    Tells ((elections.applyElectionRenew now name candidate fencingToken ttlMs').2.flag "renewed" = some true)
      ((elections.applyElectionRenew now name candidate fencingToken ttlMs').1[name]? ≠ elections[name]?)
      (∃ leadership ∈ elections[name]?, leadership.leader = candidate ∧ leadership.fencingToken = fencingToken ∧
        ttlMs'.getD leadership.ttlMs = leadership.ttlMs ∧
        U64.saturatingAdd now leadership.ttlMs = leadership.leaseExpiresMs) := by
  simp only [applyElectionRenew]
  split
  case h_1 stored => exact .refused (by rintro ⟨⟩) (by simp) (by simp [stored])
  case h_2 leadership stored =>
    split
    case isTrue other =>
      refine .refused (by rintro ⟨⟩) (by simp) ?_
      rintro ⟨_, mem, leader, token, _⟩
      obtain rfl : leadership = _ := Option.some.inj (stored.symm.trans mem)
      simp [leader, token] at other
    case isFalse leads =>
      refine .accepted rfl ?_
      obtain ⟨rfl, rfl⟩ : leadership.leader = candidate ∧ leadership.fencingToken = fencingToken := by simpa using leads
      have same : ttlMs'.getD leadership.ttlMs = leadership.ttlMs ∧
          U64.saturatingAdd now (ttlMs'.getD leadership.ttlMs) = leadership.leaseExpiresMs ↔
          ttlMs'.getD leadership.ttlMs = leadership.ttlMs ∧
          U64.saturatingAdd now leadership.ttlMs = leadership.leaseExpiresMs :=
        and_congr_right fun ttl => by rw [ttl]
      simp [stored, Leadership.extend_eq_self, same]

theorem resign_tells :
    Tells ((elections.applyElectionResign name candidate fencingToken).2.flag "resigned" = some true)
      ((elections.applyElectionResign name candidate fencingToken).1[name]? ≠ elections[name]?) False := by
  simp only [applyElectionResign]
  cases stored : elections[name]?
  case none => exact .refused (by rintro ⟨⟩) (by simp [stored]) not_false
  case some leadership =>
    simp only [Option.any_some, Bool.and_eq_true, decide_eq_true_eq]
    split
    case isTrue leads => exact .accepted (by simp [leads]; rfl) (by simp)
    case isFalse other =>
      have ok : (decide (leadership.leader = candidate) && decide (leadership.fencingToken = fencingToken)) = false := by
        simpa using other
      rw [ok]
      exact .refused (by rintro ⟨⟩) (by simp [stored]) not_false

end Elections

namespace Services

variable {services : Services} {now ttlMs : Nat} {service instanceId address : String}
  {metadata : HashMap String String} {ttlMs' : Option Nat}

def instance? (services : Services) (service instanceId : String) : Option ServiceInstance := do
  let instances ← services[service]?
  instances[instanceId]?

theorem getD_instances :
    (services[service]?.getD ∅ : HashMap String ServiceInstance)[instanceId]? = services.instance? service instanceId := by
  cases stored : services[service]? <;> simp [instance?, stored]

theorem instance?_insert (instances : HashMap String ServiceInstance) (inst : ServiceInstance) :
    instance? (services.insert service (instances.insert instanceId inst)) service instanceId = some inst := by
  simp [instance?]

theorem register_tells :
    Tells ((services.applyServiceRegister now service instanceId address ttlMs metadata).2.flag "registered" = some true)
      ((services.applyServiceRegister now service instanceId address ttlMs metadata).1.instance? service instanceId ≠
        services.instance? service instanceId)
      (services.instance? service instanceId =
        some { instanceId, address, leaseExpiresMs := U64.saturatingAdd now ttlMs, metadata }) := by
  refine .accepted rfl ?_
  simp [applyServiceRegister, instance?_insert, eq_comm]

theorem heartbeat_tells :
    Tells ((services.applyServiceHeartbeat now service instanceId ttlMs').2.flag "heartbeat" = some true)
      ((services.applyServiceHeartbeat now service instanceId ttlMs').1.instance? service instanceId ≠
        services.instance? service instanceId)
      (∃ inst ∈ services.instance? service instanceId,
        U64.saturatingAdd now (ttlMs'.getD 30000) = inst.leaseExpiresMs) := by
  simp only [applyServiceHeartbeat, getD_instances]
  split
  case h_1 stored => exact .refused nofun (by simp) (by simp [stored])
  case h_2 inst stored =>
    refine .accepted rfl ?_
    simp [stored, instance?_insert, ServiceInstance.extend_eq_self]

theorem deregister_tells :
    Tells ((services.applyServiceDeregister service instanceId).2.flag "deregistered" = some true)
      ((services.applyServiceDeregister service instanceId).1.instance? service instanceId ≠
        services.instance? service instanceId) False := by
  simp only [applyServiceDeregister]
  cases stored : services[service]?
  case none => exact .refused nofun (by simp) not_false
  case some instances =>
    have before : services.instance? service instanceId = instances[instanceId]? := by simp [instance?, stored]
    have after : instance? (if (instances.erase instanceId).isEmpty then services.erase service
        else services.insert service (instances.erase instanceId)) service instanceId = none := by
      split <;> simp [instance?]
    dsimp only
    rw [after, before]
    cases known : instances[instanceId]?
    case none =>
      have absent := HashMap.contains_eq_false_iff.mpr known
      simp only [Option.any_some, absent]
      exact .refused nofun (by simp) not_false
    case some =>
      have present : instances.contains instanceId := by simp [Std.ExtTreeMap.contains_eq_isSome_getElem?, known]
      simp only [Option.any_some, present]
      exact .accepted rfl (by simp)

end Services

-- What a watcher can be told about: a key, an election or an instance of a service.
inductive Watched
  | kv (key : String)
  | election (name : String)
  | service (service instanceId : String)

namespace Watched

inductive Record
  | kv (entry : KvEntry)
  | election (leadership : Leadership)
  | service (inst : ServiceInstance)

def record (s : Store) : Watched → Option Record
  | .kv key => s.kv[key]?.map .kv
  | .election name => s.elections[name]?.map .election
  | .service name instanceId => (s.services.instance? name instanceId).map .service

end Watched

-- The record that a command is about.
def Command.watched : Command → Option Watched
  | .kvPut key .. | .kvDelete key => some (.kv key)
  | .electionCampaign name .. | .electionRenew name .. | .electionResign name .. => some (.election name)
  | .serviceRegister service instanceId .. | .serviceHeartbeat service instanceId ..
  | .serviceDeregister service instanceId => some (.service service instanceId)
  | _ => none

-- The command leaves its record as it is, but says that it has done its work. The record is the one that the sweep
-- at the time of the command leaves.
def Command.Redundant (s : Store) (now : Nat) : Command → Prop
  | .kvPut key value ttlMs prevRevision =>
    prevRevision.all ((s.kv.expireDue now).currentRevision key = ·) ∧ (s.kv.expireDue now)[key]? =
      some { value, modRevision := s.revision + 1, expiresAtMs := ttlMs.map (U64.saturatingAdd now) }
  | .kvDelete key => (s.kv.expireDue now)[key]? = none
  | .electionCampaign name candidate .. =>
    ∃ leadership ∈ (s.elections.expireDue now)[name]?, leadership.leader = candidate
  | .electionRenew name candidate fencingToken ttlMs =>
    ∃ leadership ∈ (s.elections.expireDue now)[name]?,
      leadership.leader = candidate ∧ leadership.fencingToken = fencingToken ∧
      ttlMs.getD leadership.ttlMs = leadership.ttlMs ∧
      U64.saturatingAdd now leadership.ttlMs = leadership.leaseExpiresMs
  | .serviceRegister service instanceId address ttlMs metadata =>
    (s.services.expireDue now).instance? service instanceId =
      some { instanceId, address, leaseExpiresMs := U64.saturatingAdd now ttlMs, metadata }
  | .serviceHeartbeat service instanceId ttlMs =>
    ∃ inst ∈ (s.services.expireDue now).instance? service instanceId,
      U64.saturatingAdd now (ttlMs.getD 30000) = inst.leaseExpiresMs
  | _ => False

-- How the change is announced, and the flag of the answer that it depends on.
structure Announcement where
  scope  : String
  kind   : String
  key    : String
  flag   : Option String
  detail : Option String

def Command.announcement : Command → Option Announcement
  | .kvPut key .. => some ⟨"kv", "put", key, some "ok", none⟩
  | .kvDelete key => some ⟨"kv", "delete", key, none, none⟩
  | .electionCampaign name .. => some ⟨"election", "elected", name, some "won", some "leadership"⟩
  | .electionRenew name .. => some ⟨"election", "renewed", name, some "renewed", some "leadership"⟩
  | .electionResign name .. => some ⟨"election", "resigned", name, some "resigned", none⟩
  | .serviceRegister service .. => some ⟨"service", "register", service, some "registered", some "instance"⟩
  | .serviceHeartbeat service .. => some ⟨"service", "heartbeat", service, some "heartbeat", some "instance"⟩
  | .serviceDeregister service .. => some ⟨"service", "deregister", service, some "deregistered", none⟩
  | _ => none

def Announcement.event (n : Announcement) (output : Value) (revision : Nat) : ChangeEvent where
  scope    := n.scope
  kind     := n.kind
  key      := n.key
  revision := revision
  detail   := n.detail.bind output.field

def Announcement.Told (n : Announcement) (output : Value) : Prop :=
  ∀ flag ∈ n.flag, output.flag flag = some true

instance (n : Announcement) (output : Value) : Decidable (n.Told output) :=
  inferInstanceAs (Decidable (∀ flag ∈ n.flag, output.flag flag = some true))

namespace Announcement

variable {n : Announcement} {flag : String} {v : Value}

theorem told_iff (h : n.flag = some flag) : n.Told v ↔ v.flag flag = some true := by
  simp [Told, h]

theorem told_always (h : n.flag = none) : n.Told v ↔ True := by
  simp [Told, h]

end Announcement

namespace Store

variable [External] {s : Store} {o : IterOrder} {c : Command} {now : Nat} {w : Watched} {n : Announcement}

omit [External] in
theorem campaign_tells {revision ttlMs : Nat} {name candidate : String} {metadata : HashMap String String} :
    Tells ((s.applyElectionCampaign revision now name candidate ttlMs metadata).2.flag "won" = some true)
      ((s.applyElectionCampaign revision now name candidate ttlMs metadata).1.elections[name]? ≠ s.elections[name]?)
      (∃ leadership ∈ s.elections[name]?, leadership.leader = candidate) :=
  Elections.campaign_tells

-- What the answer to a command says about its record.
theorem applyAt_tells (watched : c.watched = some w) (announced : c.announcement = some n) :
    Tells (n.Told (s.applyAt o c now).2.output) (w.record (s.applyAt o c now).1 ≠ w.record (s.prepare o c now))
      (c.Redundant s now) := by
  have kv : Function.Injective Watched.Record.kv := fun _ _ h => Watched.Record.kv.inj h
  have election : Function.Injective Watched.Record.election := fun _ _ h => Watched.Record.election.inj h
  have service : Function.Injective Watched.Record.service := fun _ _ h => Watched.Record.service.inj h
  cases c <;> try contradiction
  all_goals
    cases watched
    cases announced
  case kvDelete key =>
    rw [Announcement.told_always rfl]
    exact .recorded kv (Kv.delete_tells (s.prepare o (.kvDelete key) now).revision)
  all_goals rw [Announcement.told_iff rfl]
  case kvPut => exact .recorded kv Kv.put_tells
  case electionCampaign => exact .recorded election campaign_tells
  case electionRenew => exact .recorded election Elections.renew_tells
  case electionResign => exact .recorded election Elections.resign_tells
  case serviceRegister => exact .recorded service Services.register_tells
  case serviceHeartbeat => exact .recorded service Services.heartbeat_tells
  case serviceDeregister => exact .recorded service Services.deregister_tells

end Store

def Effect.change? : Effect → Option ChangeEvent
  | .publish event => some event
  | _ => none

namespace ShardActor

variable {σ : Type} {a : ShardActor σ}

theorem publish_flagged (a : ShardActor σ) (output : Value) (field : String) (event : ChangeEvent) :
    ((if output.field field matches some (.bool true) then some event else none).elim a
      fun event => a.emit (.publish event)).out =
      a.out ++ if output.flag field = some true then [.publish event] else [] := by
  by_cases told : output.flag field = some true
  case pos => simp [told, Value.flag_iff.mp told, emit]
  case neg =>
    rw [if_neg told]
    rw [Value.flag_iff] at told
    split
    case h_1 h => exact absurd h told
    case h_2 => simp

theorem publishChange_announces (c : Command) (output : Value) (revision : Nat) :
    (a.publishChange c output revision).out = a.out ++
      ((c.announcement.toList.filter (·.Told output)).map fun n => .publish (n.event output revision)) := by
  have flagged (n : Announcement) (flag : String) (same : n.flag = some flag) :
      ([n].filter (·.Told output)).map (fun n => Effect.publish (n.event output revision)) =
        if output.flag flag = some true then [.publish (n.event output revision)] else [] := by
    simp only [List.filter_cons, Announcement.Told, same, Option.mem_some_iff, forall_eq', decide_eq_true_eq]
    split <;> rfl
  cases c <;> first
    | exact (List.append_nil _).symm
    | rfl
    | (simp only [Command.announcement, Option.toList_some]
       rw [flagged _ _ rfl]
       exact publish_flagged a output _ _)

-- What the watchers are told when an entry is applied.
def changes [StateMachine σ] (a : ShardActor σ) (completed : List Completed) (index : Nat) (entry : LogEntry) :
    List ChangeEvent :=
  ((a.applyEntry completed index entry).1.out.drop a.out.length).filterMap Effect.change?

theorem changes_eq [StateMachine σ] (completed : List Completed) (index term index' now : Nat) (c : Command) :
    let r := (StateMachine.applyAt a.state c now).2
    a.changes completed index ⟨term, index', now, some c⟩ =
      (c.announcement.toList.filter (·.Told r.output)).map (·.event r.output r.revision) := by
  have out : (a.applyEntry completed index ⟨term, index', now, some c⟩).1.out =
      (emit { a with lastApplied := index, state := (StateMachine.applyAt a.state c now).1 }
        (.applied index a.currentTerm ⟨term, index', now, some c⟩ (some (StateMachine.applyAt a.state c now).2))
        |>.publishChange c (StateMachine.applyAt a.state c now).2.output (StateMachine.applyAt a.state c now).2.revision).out := by
    simp only [applyEntry]
    split <;> rfl
  rw [changes, out, publishChange_announces]
  simp [emit, Effect.change?, List.filterMap_cons, List.filterMap_map, Function.comp_def]

end ShardActor

def ChangeEvent.About (event : ChangeEvent) : Watched → Prop
  | .kv key => event.scope = "kv" ∧ event.key = key
  | .election name => event.scope = "election" ∧ event.key = name
  | .service service _ => event.scope = "service" ∧ event.key = service

-- What is published tells of a change, and a change of the record is published once with the revision of the command.
structure Truthful (c : Command) (before after : Store) (revision : Nat) (events : List ChangeEvent) : Prop where
  changed   : ∀ event ∈ events, ∃ w, c.watched = some w ∧ event.About w ∧ w.record after ≠ w.record before
  published : ∀ w, c.watched = some w → w.record after ≠ w.record before →
    ∃ event, events = [event] ∧ event.About w ∧ event.revision = revision

namespace ShardActor

variable [External] [StoreCodec] [StoreReads]

omit [External] [StoreCodec] [StoreReads] in
theorem announcement_about {c : Command} {w : Watched} (h : c.watched = some w) :
    ∃ n, c.announcement = some n ∧ ∀ output revision, (n.event output revision).About w := by
  cases c <;> cases h <;> exact ⟨_, rfl, fun _ _ => ⟨rfl, rfl⟩⟩

omit [External] [StoreCodec] [StoreReads] in
theorem announcement_unwatched {c : Command} (h : c.watched = none) : c.announcement = none ∧ ∀ s now, ¬ c.Redundant s now := by
  cases c <;> first | contradiction | exact ⟨rfl, fun _ _ => not_false⟩

omit [External] [StoreCodec] [StoreReads] in
theorem truthful_iff {c : Command} {w : Watched} {n : Announcement} {before after : Store} {output : Value}
    {revision : Nat} (watched : c.watched = some w) (about : ∀ output revision, (n.event output revision).About w)
    (seen : w.record after ≠ w.record before → n.Told output) :
    Truthful c before after revision (([n].filter (·.Told output)).map (·.event output revision)) ↔
      ¬ (n.Told output ∧ ¬ w.record after ≠ w.record before) := by
  constructor
  case mp =>
    rintro truthful ⟨told, same⟩
    have ⟨w', watched', _, changed⟩ := truthful.changed (n.event output revision) (by simp [told])
    obtain rfl : w = w' := Option.some.inj (watched.symm.trans watched')
    exact same changed
  case mpr =>
    intro honest
    constructor
    case changed =>
      intro event mem
      obtain ⟨told, rfl⟩ : n.Told output ∧ n.event output revision = event := by simpa using mem
      exact ⟨w, watched, about .., by_contra fun same => honest ⟨told, same⟩⟩
    case published =>
      intro w' watched' changed
      obtain rfl : w = w' := Option.some.inj (watched.symm.trans watched')
      exact ⟨n.event output revision, by simp [seen changed], about .., rfl⟩

section Entry

variable (o : IterOrder) (a : ShardActor Store) (completed : List Completed) (index term index' now : Nat)

theorem truthful_iff_watched {c : Command} {w : Watched} (watched : c.watched = some w) :
    letI := Store.machine o
    Truthful c (a.state.prepare o c now) (a.state.applyAt o c now).1 (a.state.applyAt o c now).2.revision
      (a.changes completed index ⟨term, index', now, some c⟩) ↔
    ¬ c.Redundant a.state now := by
  let := Store.machine o
  have ⟨n, announced, about⟩ := announcement_about watched
  have ⟨seen, phantom⟩ : Tells (n.Told (a.state.applyAt o c now).2.output)
      (w.record (a.state.applyAt o c now).1 ≠ w.record (a.state.prepare o c now)) (c.Redundant a.state now) :=
    Store.applyAt_tells watched announced
  rw [changes_eq, phantom, announced]
  exact truthful_iff watched about seen

-- A change is told as it is unless the command is redundant.
theorem change_events_truthful_iff (c : Command) :
    letI := Store.machine o
    Truthful c (a.state.prepare o c now) (a.state.applyAt o c now).1 (a.state.applyAt o c now).2.revision
      (a.changes completed index ⟨term, index', now, some c⟩) ↔
    ¬ c.Redundant a.state now := by
  let := Store.machine o
  cases watched : c.watched
  case some => exact truthful_iff_watched o a completed index term index' now watched
  case none =>
    have ⟨silent, honest⟩ := announcement_unwatched watched
    rw [changes_eq, silent]
    exact iff_of_true ⟨nofun, fun w h => by simp [watched] at h⟩ (honest _ _)

end Entry

def campaign : Command :=
  .electionCampaign "e" "x" 10 ∅

-- A deletion of a key that is not there is published, and so is the campaign of a candidate that leads already.
omit [External] [StoreCodec] [StoreReads] in
theorem phantom_changes :
    letI := External.fixed
    letI := StoreCodec.fixed
    letI := StoreReads.fixed
    letI := Store.machine .sorted
    let a : ShardActor Store := boot lone .empty []
    let b := (a.applyEntry [] 1 ⟨1, 1, 0, some campaign⟩).1
    ¬ Truthful (.kvDelete "k") (a.state.prepare .sorted (.kvDelete "k") 0) (a.state.applyAt .sorted (.kvDelete "k") 0).1 1
      (a.changes [] 1 ⟨1, 1, 0, some (.kvDelete "k")⟩) ∧
    ¬ Truthful campaign (b.state.prepare .sorted campaign 1) (b.state.applyAt .sorted campaign 1).1 2
      (b.changes [] 2 ⟨1, 2, 1, some campaign⟩) := by
  let := External.fixed
  let := StoreCodec.fixed
  let := StoreReads.fixed
  let := Store.machine .sorted
  have absent : ((boot lone .empty [] : ShardActor Store).state.kv.expireDue 0)["k"]? = none := by decide +kernel
  have leads : ((((boot lone .empty [] : ShardActor Store).applyEntry [] 1 ⟨1, 1, 0, some campaign⟩).1.state.elections.expireDue
      1)["e"]?.map (·.leader)) = some "x" := by decide +kernel
  constructor
  case left => exact fun truthful => (truthful_iff_watched .sorted _ [] 1 1 1 0 rfl).mp truthful absent
  case right =>
    exact fun truthful => (truthful_iff_watched .sorted _ [] 2 1 2 1 rfl).mp truthful (Option.map_eq_some_iff.mp leads)

-- A key that is stored is deleted.
omit [External] [StoreCodec] [StoreReads] in
theorem deletion_told :
    letI := External.fixed
    letI := StoreCodec.fixed
    letI := StoreReads.fixed
    letI := Store.machine .sorted
    let a : ShardActor Store := boot lone .empty []
    let b := (a.applyEntry [] 1 ⟨1, 1, 0, some (.kvPut "k" "v" none none)⟩).1
    (b.changes [] 2 ⟨1, 2, 1, some (.kvDelete "k")⟩).map (fun event => (event.kind, event.key, event.revision)) =
      [("delete", "k", 2)] ∧
    Truthful (.kvDelete "k") (b.state.prepare .sorted (.kvDelete "k") 1) (b.state.applyAt .sorted (.kvDelete "k") 1).1 2
      (b.changes [] 2 ⟨1, 2, 1, some (.kvDelete "k")⟩) := by
  let := External.fixed
  let := StoreCodec.fixed
  let := StoreReads.fixed
  let := Store.machine .sorted
  refine ⟨rfl, (change_events_truthful_iff .sorted _ [] 2 1 2 1 (.kvDelete "k")).mpr fun redundant => ?_⟩
  have stored : (((boot lone .empty [] : ShardActor Store).applyEntry [] 1
      ⟨1, 1, 0, some (.kvPut "k" "v" none none)⟩).1.state.kv.expireDue 1)["k"]?.isSome := by decide +kernel
  rw [redundant] at stored
  contradiction

end ShardActor
