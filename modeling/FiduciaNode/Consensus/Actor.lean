import FiduciaNode.Consensus.Disk

-- The state machine of a shard. Its snapshots are the bytes that a codec makes of it. The protocol of
-- its commands never goes back, and activating the current one has an effect.
class StateMachine (σ : Type) where
  new                : σ
  applyAt            : σ → Command → Nat → σ × ApplyResult
  commandProtocol    : σ → Nat
  snapshot           : σ → Option (List UInt8)
  restore            : List UInt8 → Except String σ
  Response           : Type
  read               : σ → ReadRequest → Response
  protocol_mono      : ∀ s command nowMs,
    commandProtocol s ≤ commandProtocol (applyAt s command nowMs).1
  protocol_activated : ∀ s nowMs, Command.currentCommandProtocol ≤ commandProtocol
    (applyAt s (.activateCommandProtocol Command.currentCommandProtocol) nowMs).1

-- The bounds of the peer plane and the size of an encoded request.
class PeerPlane where
  appendMaxEntries : Nat
  appendMaxBytes   : Nat
  bodyBytes        : AppendEntriesReq → Option Nat

structure Rng where
  state : UInt64

namespace Rng

def seeded (nodeId : String) (shardId nowNanos : Nat) : Rng where
  state :=
    let h := nodeId.toUTF8.data.foldl (fun h b => (h ^^^ b.toUInt64) * 0x100000001b3)
      (0xcbf29ce484222325 : UInt64)
    (h ^^^ UInt64.ofNat shardId ^^^ UInt64.ofNat nowNanos) ||| 1

def nextU64 (rng : Rng) : UInt64 × Rng :=
  let state := rng.state + 0x9e3779b97f4a7c15
  let z := (state ^^^ (state >>> 30)) * 0xbf58476d1ce4e5b9
  let z := (z ^^^ (z >>> 27)) * 0x94d049bb133111eb
  (z ^^^ (z >>> 31), { state })

def below (rng : Rng) (bound : Nat) : Nat × Rng :=
  if bound = 0 then (0, rng) else
    let (z, rng) := rng.nextU64
    (z.toNat % bound, rng)

end Rng

structure LeaderState where
  nextIndex           : HashMap String Nat
  matchIndex          : HashMap String Nat
  inFlight            : HashMap String Bool
  pendingRequests     : HashMap String RequestStamp
  requestSequence     : Nat
  lastContact         : HashMap String Instant
  peerCommandProtocol : HashMap String Nat

def LeaderState.empty : LeaderState where
  nextIndex           := ∅
  matchIndex          := ∅
  inFlight            := ∅
  pendingRequests     := ∅
  requestSequence     := 0
  lastContact         := ∅
  peerCommandProtocol := ∅

structure PendingProposal where
  startedAt : Instant
  client    : Nat

-- What an actor does to its surroundings, in the order in which it does it. The last three are
-- observations: a proposal got its place in the log, a role was taken, an entry was applied.
inductive Effect
  | disk (step : DiskStep)
  | requestVote (peer : String) (req : RequestVoteReq)
  | appendEntries (peer : String) (request : RequestStamp) (upTo : Nat) (req : AppendEntriesReq)
  | installSnapshot (peer : String) (request : RequestStamp) (upTo : Nat) (req : InstallSnapshotReq)
  | answer (client : Nat) (result : Except ProposeError ProposeOutcome)
  | publish (event : ChangeEvent)
  | proposed (client : Nat) (entry : LogEntry)
  | becameLeader (term : Nat)
  | applied (index term : Nat) (entry : LogEntry) (result : Option ApplyResult)

-- `now` and `nowMs` are the readings of the clocks for the event at hand and `out` is what it has
-- caused so far.
structure ShardActor (σ : Type) where
  shardId           : Nat
  nodeId            : String
  peers             : List String
  role              : Role
  currentTerm       : Nat
  votedFor          : Option String
  leaderId          : Option String
  snapshotIndex     : Nat
  snapshotTerm      : Nat
  snapshotState     : List UInt8
  log               : List LogEntry
  commitIndex       : Nat
  lastApplied       : Nat
  store             : Option ShardStore
  storageFault      : Option String
  votes             : Finset String
  campaignStartedAt : Instant
  preVotes          : Finset String
  preVoteTerm       : Nat
  leader            : Option LeaderState
  timing            : RaftTiming
  electionDeadline  : Instant
  heartbeatDeadline : Instant
  lastLeaderContact : Instant
  rng               : Rng
  pending           : HashMap Nat PendingProposal
  state             : σ
  now               : Instant
  nowMs             : Nat
  out               : List Effect

namespace ShardActor

variable {σ : Type}

section Basic

def members (a : ShardActor σ) : Nat :=
  a.peers.length + 1

def majority (a : ShardActor σ) : Nat :=
  a.members / 2 + 1

def lastLogIndex (a : ShardActor σ) : Nat :=
  U64.saturatingAdd a.snapshotIndex a.log.length

def lastLogTerm (a : ShardActor σ) : Nat :=
  a.log.getLast?.elim a.snapshotTerm (·.term)

def termAt (a : ShardActor σ) (index : Nat) : Nat :=
  if index = 0 then 0
  else if index = a.snapshotIndex then a.snapshotTerm
  else if index < a.snapshotIndex then 0
  else a.log[index - a.snapshotIndex - 1]?.elim 0 (·.term)

def emit (a : ShardActor σ) (e : Effect) : ShardActor σ :=
  { a with out := a.out ++ [e] }

def resetElectionDeadline (a : ShardActor σ) : ShardActor σ :=
  let (jitter, rng) := a.rng.below a.timing.electionJitterMs
  { a with rng, electionDeadline := a.now + (a.timing.electionMinMs + jitter) }

end Basic

section Durability

-- Runs an operation on the store. An actor without a store has nothing to make durable.
def onStore (a : ShardActor σ) (op : ShardStore → ShardStore.Result) :
    ShardActor σ × Option String :=
  match a.store with
  | none => (a, none)
  | some store =>
    let (store, steps, error) := op store
    ({ a with store := some store, out := a.out ++ steps.map .disk }, error)

def persistHardStateAt (a : ShardActor σ) (commitIndex : Nat) : ShardActor σ × Option String :=
  a.onStore (·.saveMeta { currentTerm := a.currentTerm, votedFor := a.votedFor, commitIndex })

def persistHardState (a : ShardActor σ) : ShardActor σ × Option String :=
  a.persistHardStateAt a.commitIndex

def persistLogAppend (a : ShardActor σ) : ShardActor σ × Option String :=
  a.onStore (·.appendTail a.log)

def persistLogRewrite (a : ShardActor σ) : ShardActor σ × Option String :=
  a.onStore (·.rewrite a.log)

-- Every waiting client gets the same error.
def drainPending (a : ShardActor σ) (error : ProposeError) : ShardActor σ :=
  { a with
    pending := ∅
    out := a.out ++ a.pending.toList.map fun (_, p) => .answer p.client (.error error)
  }

def failPending (a : ShardActor σ) : ShardActor σ :=
  a.drainPending (.notLeader a.shardId a.leaderId)

def failPendingUnavailable (a : ShardActor σ) : ShardActor σ :=
  a.drainPending (.unavailable a.shardId)

-- The shard takes part in nothing until it is restarted.
def failStorage (a : ShardActor σ) (operation error : String) : ShardActor σ :=
  failPendingUnavailable { a with
    storageFault := a.storageFault.or (some (operation ++ ": " ++ error))
    role         := .follower
    leaderId     := none
    leader       := none
    votes        := ∅
    preVotes     := ∅
  }

-- Only a newer term clears the vote, since a leader can also step down within its term.
def stepDown (a : ShardActor σ) (term : Nat) (leader : Option String) : ShardActor σ :=
  if term < a.currentTerm then a else
    let a := if term > a.currentTerm then { a with currentTerm := term, votedFor := none } else a
    let a := { a with role := .follower, leader := none, votes := ∅, leaderId := leader }
    match a.persistHardState with
    | (a, some error) => a.failStorage "persisting higher term while stepping down" error
    | (a, none) => a.resetElectionDeadline.failPending

end Durability

section Apply

variable [StateMachine σ]

-- A change is only published if the output says that there was one.
def publishChange (a : ShardActor σ) (command : Command) (output : Value) (revision : Nat) :
    ShardActor σ :=
  let flagged (field : String) := output.field field matches some (.bool true)
  let event? : Option ChangeEvent :=
    match command with
    | .kvPut key .. =>
      if flagged "ok"
      then some { scope := "kv", kind := "put", key, revision, detail := none } else none
    | .kvDelete key => some { scope := "kv", kind := "delete", key, revision, detail := none }
    | .electionCampaign name .. =>
      if flagged "won"
      then some {
        scope := "election", kind := "elected", key := name, revision
        detail := output.field "leadership"
      } else none
    | .electionRenew name .. =>
      if flagged "renewed"
      then some {
        scope := "election", kind := "renewed", key := name, revision
        detail := output.field "leadership"
      } else none
    | .electionResign name .. =>
      if flagged "resigned"
      then some { scope := "election", kind := "resigned", key := name, revision, detail := none }
      else none
    | .serviceRegister service .. =>
      if flagged "registered"
      then some {
        scope := "service", kind := "register", key := service, revision
        detail := output.field "instance"
      } else none
    | .serviceHeartbeat service .. =>
      if flagged "heartbeat"
      then some {
        scope := "service", kind := "heartbeat", key := service, revision
        detail := output.field "instance"
      } else none
    | .serviceDeregister service .. =>
      if flagged "deregistered"
      then some {
        scope := "service", kind := "deregister", key := service, revision, detail := none
      } else none
    | _ => none
  event?.elim a fun event => a.emit (.publish event)

-- Folds what has been applied into a snapshot once it has grown past the threshold.
def maybeCompact (a : ShardActor σ) : ShardActor σ :=
  let threshold := a.timing.snapshotThreshold
  if threshold = 0 || a.lastApplied - a.snapshotIndex < threshold then a else
    match StateMachine.snapshot a.state with
    | none => a
    | some state =>
      let snapshot : PersistedSnapshot := {
        lastIncludedIndex := a.lastApplied, lastIncludedTerm := a.termAt a.lastApplied, state
      }
      let remaining := a.log.drop (a.lastApplied - a.snapshotIndex)
      match a.onStore (·.saveSnapshot snapshot remaining) with
      | (a, some error) => a.failStorage "persisting compacted snapshot" error
      | (a, none) => { a with
          log           := remaining
          snapshotIndex := snapshot.lastIncludedIndex
          snapshotTerm  := snapshot.lastIncludedTerm
          snapshotState := state
        }

-- A proposal whose entry has been applied, but whose client has not been answered yet.
structure Completed where
  index   : Nat
  pending : PendingProposal
  result  : ApplyResult

def failCompleted (a : ShardActor σ) (completed : List Completed) : ShardActor σ :=
  { a with
    out := a.out ++ completed.map fun c => .answer c.pending.client (.error (.unavailable a.shardId))
  }

def entryAt? (a : ShardActor σ) (index : Nat) : Option LogEntry :=
  if index ≤ a.snapshotIndex then none else a.log[index - a.snapshotIndex - 1]?

def applyEntry (a : ShardActor σ) (completed : List Completed) (index : Nat) (entry : LogEntry) :
    ShardActor σ × List Completed :=
  let a := { a with lastApplied := index }
  match entry.command with
  | none => (a.emit (.applied index a.currentTerm entry none), completed)
  | some command =>
    let (state, result) := StateMachine.applyAt a.state command entry.proposedAtMs
    let a := { a with state }.emit (.applied index a.currentTerm entry (some result))
    let a := a.publishChange command result.output result.revision
    match a.pending[index]? with
    | none => (a, completed)
    | some pending =>
      ({ a with pending := a.pending.erase index }, completed ++ [⟨index, pending, result⟩])

-- Applies the entries up to the commit index, whose distance is the number of iterations. Ends
-- early, with a fault, if an entry is missing.
def applyLoop (a : ShardActor σ) (completed : List Completed) :
    (fuel : Nat) → ShardActor σ × List Completed × Bool
  | 0 => (a, completed, true)
  | fuel + 1 =>
    match U64.checkedAdd a.lastApplied 1 with
    | none => (a.failStorage "advancing applied index" "applied index overflow", completed, false)
    | some index =>
      match a.entryAt? index with
      | none =>
        (a.failStorage "applying committed log"
          s!"missing durable entry at committed index {index}", completed, false)
      | some entry =>
        let (a, completed) := a.applyEntry completed index entry
        a.applyLoop completed fuel

def succeed (a : ShardActor σ) (completed : List Completed) : ShardActor σ :=
  { a with
    out := a.out ++ completed.map fun c => .answer c.pending.client (.ok {
      shard := a.shardId, logIndex := c.index, revision := c.result.revision
      output := c.result.output
    })
  }

-- The clients are only answered once the compaction has not failed either.
def applyCommitted (a : ShardActor σ) : ShardActor σ :=
  let (a, completed, finished) := a.applyLoop [] (a.commitIndex - a.lastApplied)
  if !finished then a.failCompleted completed else
    let a := a.maybeCompact
    if a.storageFault.isSome then a.failCompleted completed else a.succeed completed

end Apply

end ShardActor
