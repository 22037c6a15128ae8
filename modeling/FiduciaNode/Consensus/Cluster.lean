import FiduciaNode.Consensus.Protocol

-- The members of a shard group. Each of them knows the others in some order.
structure ShardGroup where
  members : List String
  nodup   : members.Nodup
  peers   : String → List String
  perm    : ∀ i ∈ members, (i :: peers i).Perm members

section Transport

-- A response is evidence for what its request offered, and never for more than a newer term if it is
-- from one.
def AppendEntriesReq.admission (req : AppendEntriesReq) (resp : AppendEntriesResp) :
    Option AppendEntriesResp :=
  match U64.checkedAdd req.prevLogIndex req.entries.length with
  | none => none
  | some requestedIndex =>
    match admitReplicationReply req.term requestedIndex resp.term resp.success resp.matchIndex with
    | .ignore => none
    | .observeHigherTerm =>
      some { resp with success := false, commandProtocol := Command.legacyCommandProtocol }
    | .deliver => some resp

def InstallSnapshotReq.admission (req : InstallSnapshotReq) (resp : InstallSnapshotResp) :
    Option InstallSnapshotResp :=
  match admitReplicationReply req.term req.lastIncludedIndex resp.term resp.success resp.matchIndex with
  | .ignore => none
  | .observeHigherTerm => some { resp with success := false }
  | .deliver => some resp

namespace Effect

-- The write that an effect is.
def diskStep? : Effect → Option DiskStep
  | .disk step => some step
  | _ => none

-- The peer that a request is for, and what it is there.
def request? : Effect → Option (String × Event)
  | .requestVote peer req => some (peer, .message (.requestVote req))
  | .appendEntries peer _ _ req => some (peer, .message (.appendEntries req))
  | .installSnapshot peer _ _ req => some (peer, .message (.installSnapshot req))
  | _ => none

-- What the reply to a request is where it came from. A request may also time out.
def callback? {σ : Type} [StateMachine σ] : Effect → Option (Reply σ) → Option Event
  | .requestVote peer req, some (.requestVote resp) =>
    some (.message (.voteReply peer req.preVote resp))
  | .appendEntries peer request upTo req, some (.appendEntries resp) =>
    some (.message (.appendReply peer request upTo (req.admission resp)))
  | .appendEntries peer request upTo _, none => some (.message (.appendReply peer request upTo none))
  | .installSnapshot peer request upTo req, some (.installSnapshot resp) =>
    some (.message (.snapshotReply peer request upTo (req.admission resp)))
  | .installSnapshot peer request upTo _, none =>
    some (.message (.snapshotReply peer request upTo none))
  | _, _ => none

end Effect

end Transport

-- The files once the effects have taken place.
def Disk.after (d : Disk) (effects : List Effect) : Disk :=
  d.steps (effects.filterMap Effect.diskStep?)

-- What a process does at one go.
inductive Work
  | boot (b : ShardActor.Boot) (outcomes : List Outcome)
  | handle (env : Env) (e : Event)

namespace Work

def now : Work → Instant
  | boot b _ => b.now
  | handle env _ => env.now

-- A process starts with its peers.
def knows (peers : List String) : Work → Bool
  | boot b _ => b.peers = peers
  | handle .. => true

-- The commands that were proposed since the start of the process.
def commands (commands : List Command) : Work → List Command
  | boot .. => []
  | handle _ (.message (.propose command _)) => commands ++ [command]
  | handle .. => commands

end Work

-- A member has its files, and its actor if the process is running.
structure Member (σ : Type) where
  disk     : Disk
  actor    : Option (ShardActor σ)
  commands : List Command

namespace Member

variable {σ : Type} [StateMachine σ] [PeerPlane]

-- The new actor, what is seen of the work and what is sent back.
def does (m : Member σ) : Work → Option (ShardActor σ × List Effect × Reply σ)
  | .boot b outcomes =>
    if m.actor.isSome then none else
      let a := ShardActor.boot b m.disk outcomes
      some (a, a.out.filter (·.visible), .none)
  | .handle env e =>
    m.actor.map fun a =>
      let (a', reply) := (a.observe env).dispatch e
      (a', (a'.out.drop a.out.length).filter (·.visible), reply)

end Member

-- The group as a whole: its members, all that they have done and all the replies to their requests.
-- Nothing is ever taken from the network, so that it may be delivered late, again or not at all.
structure Cluster (σ : Type) [StateMachine σ] where
  members : String → Member σ
  history : List (String × Effect)
  replies : List (String × Effect × Reply σ)
  clock   : Instant

namespace Cluster

variable {σ : Type} [StateMachine σ]

def initial : Cluster σ where
  members _ := ⟨.empty, none, []⟩
  history   := []
  replies   := []
  clock     := 0

-- The effects on the member's files and on the network take place.
def put (c : Cluster σ) (i : String) (actor : Option (ShardActor σ)) (commands : List Command)
    (effects : List Effect) : Cluster σ :=
  { c with
    members := Function.update c.members i ⟨(c.members i).disk.after effects, actor, commands⟩
    history := c.history ++ effects.map (i, ·)
  }

-- A request gets its reply.
def answer (c : Cluster σ) (request : Option (String × Effect)) (reply : Reply σ) : Cluster σ :=
  { c with replies := c.replies ++ request.toList.map fun (j, effect) => (j, effect, reply) }

-- What can happen at a member, with the request that it is the delivery of.
inductive Allows (g : ShardGroup) (c : Cluster σ) (i : String) : Work → Option (String × Effect) → Prop
  | boot (b : ShardActor.Boot) (outcomes : List Outcome) (name : b.nodeId = i)
    (peers : b.peers = g.peers i) : Allows g c i (.boot b outcomes) none
  | tick (env : Env) : Allows g c i (.handle env .tick) none
  | propose (env : Env) (command : Command) :
    Allows g c i (.handle env (.message (.propose command (c.members i).commands.length))) none
  | query (env : Env) (request : ReadRequest) (client : Nat) :
    Allows g c i (.handle env (.message (.query request client))) none
  | queryLocal (env : Env) (request : ReadRequest) (client : Nat) :
    Allows g c i (.handle env (.message (.queryLocal request client))) none
  | request (env : Env) {j : String} {effect : Effect} {e : Event} (sent : (j, effect) ∈ c.history)
    (dest : effect.request? = some (i, e)) : Allows g c i (.handle env e) (some (j, effect))
  | reply (env : Env) {effect : Effect} {reply : Reply σ} {e : Event}
    (replied : (i, effect, reply) ∈ c.replies) (callback : effect.callback? (some reply) = some e) :
    Allows g c i (.handle env e) none
  | timeout (env : Env) {effect : Effect} {e : Event} (sent : (i, effect) ∈ c.history)
    (callback : effect.callback? (none : Option (Reply σ)) = some e) : Allows g c i (.handle env e) none

variable [PeerPlane]

-- A member does some work or crashes in the middle of it, after any number of effects.
inductive Step (g : ShardGroup) (permits : Cluster σ → String → Work → Prop) (c : Cluster σ) : Cluster σ → Prop
  | done {i : String} {w : Work} {request : Option (String × Effect)} {a : ShardActor σ}
    {effects : List Effect} {reply : Reply σ} (member : i ∈ g.members) (allows : c.Allows g i w request)
    (permitted : permits c i w) (does : (c.members i).does w = some (a, effects, reply)) :
    Step g permits c {
      (c.put i (some a) (w.commands (c.members i).commands) effects).answer request reply with
      clock := w.now
    }
  | crash {i : String} {w : Work} {request : Option (String × Effect)} {a : ShardActor σ}
    {effects : List Effect} {reply : Reply σ} (member : i ∈ g.members) (allows : c.Allows g i w request)
    (permitted : permits c i w) (does : (c.members i).does w = some (a, effects, reply)) (k : Nat) :
    Step g permits c { c.put i none [] (effects.take k) with clock := w.now }

-- The clusters that come of new members with empty files.
inductive Reach (g : ShardGroup) (permits : Cluster σ → String → Work → Prop) : Cluster σ → Prop
  | start : Reach g permits initial
  | step {c c' : Cluster σ} (reach : Reach g permits c) (step : Step g permits c c') : Reach g permits c'

section Play

-- What comes next in a run that is written down. Requests and replies are told by their places.
inductive Cue
  | boot (b : ShardActor.Boot)
  | tick (i : String) (env : Env)
  | propose (i : String) (env : Env) (command : Command)
  | query (i : String) (env : Env) (request : ReadRequest)
  | deliver (place : Nat) (env : Env)
  | reply (place : Nat) (env : Env)

def Cue.work (c : Cluster σ) : Cue → Option (String × Work × Option (String × Effect))
  | boot b => some (b.nodeId, .boot b [], none)
  | tick i env => some (i, .handle env .tick, none)
  | propose i env command =>
    some (i, .handle env (.message (.propose command (c.members i).commands.length)), none)
  | query i env request => some (i, .handle env (.message (.query request 0)), none)
  | deliver place env =>
    c.history[place]?.bind fun (j, effect) =>
      effect.request?.map fun (i, e) => (i, .handle env e, some (j, effect))
  | reply place env =>
    c.replies[place]?.bind fun (i, effect, r) =>
      (effect.callback? (some r)).map fun e => (i, .handle env e, none)

-- The cluster that the run ends in, if each of its steps is possible.
def play (g : ShardGroup) (permits : Cluster σ → String → Work → Bool) (c : Cluster σ) :
    List Cue → Option (Cluster σ)
  | [] => some c
  | cue :: cues =>
    match cue.work c with
    | none => none
    | some (i, w, request) =>
      if i ∈ g.members && w.knows (g.peers i) && permits c i w then
        match (c.members i).does w with
        | none => none
        | some (a, effects, reply) =>
          play g permits {
            (c.put i (some a) (w.commands (c.members i).commands) effects).answer request reply with
            clock := w.now
          } cues
      else none

end Play

end Cluster
