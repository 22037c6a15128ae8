import FiduciaNode.Consensus.Follower

-- What is sent back to whoever sent the message.
inductive Reply (σ : Type) [StateMachine σ]
  | none
  | appendEntries (resp : AppendEntriesResp)
  | installSnapshot (resp : InstallSnapshotResp)
  | requestVote (resp : RequestVoteResp)
  | read (client : Nat) (result : Except ProposeError (StateMachine.Response σ))

namespace ReadRequest

-- Reads that list a whole shard are answered without regard to the lease.
def isList : ReadRequest → Bool
  | kvPrefix _ | kvList _ | serviceList | scheduleList | electionList => true
  | _ => false

end ReadRequest

namespace ShardActor

variable {σ : Type} [StateMachine σ]

section Clients

def refuse (a : ShardActor σ) (client : Nat) : ShardActor σ :=
  a.emit (.answer client (.error (.unavailable a.shardId)))

def handleQuery (a : ShardActor σ) (request : ReadRequest) :
    Except ProposeError (StateMachine.Response σ) :=
  if a.storageFault.isSome then
    .error (.unavailable a.shardId)
  else if !(request matches .kvPrefix _) && a.role ≠ .leader then
    .error (.notLeader a.shardId a.leaderId)
  else if !request.isList && !a.leaderLeaseHeld then
    .error (.unavailable a.shardId)
  else
    .ok (StateMachine.read a.state request)

def handleQueryLocal (a : ShardActor σ) (request : ReadRequest) : StateMachine.Response σ :=
  StateMachine.read a.state request

variable [PeerPlane]

-- The entry is durable before the client starts to wait for it.
def append (a : ShardActor σ) (command : Command) (client index : Nat) : ShardActor σ :=
  let entry := a.newEntry index (some command)
  match { a with log := a.log ++ [entry] }.persistLogAppend with
  | (a, some error) => (a.failStorage "persisting proposed log entry" error).refuse client
  | (a, none) =>
    let a := { a with pending := a.pending.insert index { startedAt := a.now, client } }
    let a := a.emit (.proposed client entry)
    if a.members = 1
    then a.commitTo index "persisting single-member commit index"
    else a.broadcastAppendEntries

def onPropose (a : ShardActor σ) (command : Command) (client : Nat) : ShardActor σ :=
  if a.storageFault.isSome then a.refuse client
  else if a.role ≠ .leader then
    a.emit (.answer client (.error (.notLeader a.shardId a.leaderId)))
  else if command.isProtocolActivation then a.refuse client
  else
    let a := a.maybeActivateCommandProtocol
    if a.storageFault.isSome then a.refuse client else
      match command.forActiveProtocol a.commandProtocol with
      | .error _ => a.refuse client
      | .ok command =>
        match U64.checkedAdd a.lastLogIndex 1 with
        | none => a.refuse client
        | some index => a.append command client index

end Clients

section Events

variable [PeerPlane]

def onTick (a : ShardActor σ) : ShardActor σ :=
  if a.storageFault.isSome then a else
    match a.role with
    | .leader =>
      let a := a.maybeActivateCommandProtocol
      if a.storageFault.isSome then a else
        let a :=
          if a.now ≥ a.heartbeatDeadline
          then { a with
            heartbeatDeadline := a.now + a.timing.heartbeat
          }.broadcastAppendEntries
          else a
        if a.timing.checkQuorum && a.members > 1 && !a.leaderLeaseHeld
        then a.relinquishNoQuorum
        else a
    | .follower | .candidate =>
      if a.now ≥ a.electionDeadline then
        if a.timing.preVote && a.members > 1 then a.startPreElection else a.startElection
      else a

def handle (a : ShardActor σ) : ShardMsg → ShardActor σ × Reply σ
  | .propose command client => (a.onPropose command client, .none)
  | .query request client => (a, .read client (a.handleQuery request))
  | .queryLocal request client => (a, .read client (.ok (a.handleQueryLocal request)))
  | .appendEntries req =>
    let (a, resp) := a.handleAppendEntries req
    (a, .appendEntries resp)
  | .installSnapshot req =>
    let (a, resp) := a.handleInstallSnapshot req
    (a, .installSnapshot resp)
  | .requestVote req =>
    let (a, resp) := a.handleRequestVote req
    (a, .requestVote resp)
  | .voteReply voter preVote resp => (a.handleVoteReply voter preVote resp, .none)
  | .appendReply peer request upTo resp =>
    let (a, accepted) := a.acceptReplicationCallback peer request (resp.map (·.term))
    (if accepted then a.handleAppendReply request.sentAt peer upTo resp else a, .none)
  | .snapshotReply peer request upTo resp =>
    let (a, accepted) := a.acceptReplicationCallback peer request (resp.map (·.term))
    (if accepted then a.handleSnapshotReply request.sentAt peer upTo resp else a, .none)

end Events

section Boot

-- What an actor does not read from its disk.
structure Boot where
  shardId  : Nat
  nodeId   : String
  peers    : List String
  dataDir  : String
  timing   : RaftTiming
  now      : Instant
  nowMs    : Nat
  nowNanos : Nat

-- A lone member has no one to elect it and leads from the start.
def initial (boot : Boot) (store : ShardStore) (recovered : Recovered) (state : σ) : ShardActor σ :=
  let single := boot.peers.isEmpty
  {
    shardId           := boot.shardId
    nodeId            := boot.nodeId
    peers             := boot.peers
    role              := if single then .leader else .follower
    currentTerm       := max recovered.currentTerm 1
    votedFor          := recovered.votedFor
    leaderId          := if single then some boot.nodeId else none
    snapshotIndex     := recovered.snapshotIndex
    snapshotTerm      := recovered.snapshotTerm
    snapshotState     := recovered.snapshot.elim [] (·.state)
    log               := recovered.log
    commitIndex       := max recovered.commitIndex recovered.snapshotIndex
    lastApplied       := recovered.snapshotIndex
    store             := some store
    storageFault      := none
    votes             := ∅
    campaignStartedAt := boot.now
    preVotes          := ∅
    preVoteTerm       := 0
    leader            := if single then some .empty else none
    timing            := boot.timing
    electionDeadline  := boot.now
    heartbeatDeadline := boot.now
    lastLeaderContact := boot.now
    rng               := .seeded boot.nodeId boot.shardId boot.nowNanos
    pending           := ∅
    state             := state
    now               := boot.now
    nowMs             := boot.nowMs
    out               := []
  }

-- An actor that takes part in nothing, for a shard whose durable state is unusable.
def quarantined (boot : Boot) (reason : String) : ShardActor σ :=
  resetElectionDeadline {
    shardId           := boot.shardId
    nodeId            := boot.nodeId
    peers             := boot.peers
    role              := .follower
    currentTerm       := 1
    votedFor          := none
    leaderId          := none
    snapshotIndex     := 0
    snapshotTerm      := 0
    snapshotState     := []
    log               := []
    commitIndex       := 0
    lastApplied       := 0
    store             := none
    storageFault      := some reason
    votes             := ∅
    campaignStartedAt := boot.now
    preVotes          := ∅
    preVoteTerm       := 0
    leader            := none
    timing            := boot.timing
    electionDeadline  := boot.now
    heartbeatDeadline := boot.now
    lastLeaderContact := boot.now
    rng               := .seeded boot.nodeId boot.shardId boot.nowNanos
    pending           := ∅
    state             := StateMachine.new
    now               := boot.now
    nowMs             := boot.nowMs
    out               := []
  }

-- The entries follow the snapshot without a gap.
def contiguous (shardId snapshotIndex : Nat) : (offset : Nat) → List LogEntry → Except String Unit
  | _, [] => .ok ()
  | offset, entry :: rest =>
    match U64.checkedAdd snapshotIndex offset |>.bind (U64.checkedAdd · 1) with
    | none => .error s!"shard {shardId}: recovered log index overflow"
    | some expected =>
      let index := entry.index
      if index ≠ expected then
        .error (s!"invalid recovered state for shard {shardId}: expected log index {expected}, " ++
          s!"found {index}")
      else
        contiguous shardId snapshotIndex (offset + 1) rest

-- Rebuilds the state machine from the snapshot and the committed entries after it.
def new (boot : Boot) (store : ShardStore) (recovered : Recovered) :
    Except String (ShardActor σ) :=
  let shardId := boot.shardId
  let commitIndex := recovered.commitIndex
  let tail := recovered.log.getLast?.elim recovered.snapshotIndex (·.index)
  match contiguous shardId recovered.snapshotIndex 0 recovered.log with
  | .error error => .error error
  | .ok _ =>
    if commitIndex > tail then
      .error (s!"invalid recovered state for shard {shardId}: commit index {commitIndex} " ++
        s!"exceeds durable tail {tail}")
    else
      match recovered.snapshot.elim (.ok StateMachine.new) fun snapshot =>
        StateMachine.restore snapshot.state with
      | .error error =>
        .error s!"invalid state-machine snapshot for shard {shardId}: {error}"
      | .ok state =>
        let a := (initial boot store recovered state).resetElectionDeadline
        .ok (if a.commitIndex > 0 then a.applyCommitted else a)

-- Opens the store and starts the actor, or quarantines the shard.
def boot (boot : Boot) (d : Disk) (outcomes : List Outcome) : ShardActor σ :=
  let dir := boot.dataDir
  match d.recover with
  | .error error => quarantined boot s!"cannot open durable store under \"{dir}\": {error}"
  | .ok recovered =>
    match ShardStore.canonicalize { durableLen := 0, outcomes } d recovered.log with
    | (_, steps, some error) => {
        quarantined boot s!"cannot open durable store under \"{dir}\": {error}" with
        out := steps.map .disk
      }
    | (store, steps, none) =>
      match new boot store recovered with
      | .error reason => { quarantined boot reason with out := steps.map .disk }
      | .ok a => { a with out := steps.map .disk ++ a.out }

end Boot

end ShardActor
