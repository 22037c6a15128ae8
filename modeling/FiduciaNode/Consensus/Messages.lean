import FiduciaNode.State.Store

-- Instants and durations are milliseconds of one clock.
abbrev Instant := Nat

abbrev Duration := Nat

structure RaftTiming where
  heartbeat         : Duration
  electionMinMs     : Nat
  electionJitterMs  : Nat
  preVote           : Bool
  checkQuorum       : Bool
  snapshotThreshold : Nat

def RaftTiming.default : RaftTiming where
  heartbeat         := 50
  electionMinMs     := 150
  electionJitterMs  := 150
  preVote           := true
  checkQuorum       := true
  snapshotThreshold := 1024

inductive Role
  | follower
  | candidate
  | leader
  deriving DecidableEq

-- A new leader appends an entry without a command.
structure LogEntry where
  term         : Nat
  index        : Nat
  proposedAtMs : Nat
  command      : Option Command

structure ChangeEvent where
  scope    : String
  kind     : String
  key      : String
  revision : Nat
  detail   : Option Value

section Requests

structure AppendEntriesReq where
  term            : Nat
  leaderId        : String
  prevLogIndex    : Nat
  prevLogTerm     : Nat
  entries         : List LogEntry
  leaderCommit    : Nat
  commandProtocol : Nat

structure AppendEntriesResp where
  term            : Nat
  success         : Bool
  matchIndex      : Nat
  commandProtocol : Nat

structure InstallSnapshotReq where
  term              : Nat
  leaderId          : String
  lastIncludedIndex : Nat
  lastIncludedTerm  : Nat
  state             : List UInt8

structure InstallSnapshotResp where
  term       : Nat
  success    : Bool
  matchIndex : Nat

structure RequestVoteReq where
  term         : Nat
  candidateId  : String
  lastLogIndex : Nat
  lastLogTerm  : Nat
  preVote      : Bool

structure RequestVoteResp where
  term    : Nat
  granted : Bool

-- The identity of a replication request. It never leaves the leader.
structure RequestStamp where
  term     : Nat
  sequence : Nat
  sentAt   : Instant
  deriving DecidableEq

end Requests

section Replies

inductive CallbackAdmission
  | higherTerm (term : Nat)
  | current
  | ignore

-- A newer term counts even in the reply to an obsolete request. Everything else only counts in the
-- reply to the outstanding request of this leadership.
def classifyCallback
    (currentTerm : Nat) (active : Option RequestStamp) (request : RequestStamp)
    (responseTerm : Option Nat) (now : Instant) : CallbackAdmission :=
  match responseTerm.filter (· > currentTerm) with
  | some term => .higherTerm term
  | none =>
    if active ≠ some request || request.term ≠ currentTerm || request.sentAt > now
    then .ignore
    else .current

def contactIsFresh (age : Option Duration) (window : Duration) : Bool :=
  age.any (· < window)

def advanceContact (previous : Option Instant) (sentAt : Instant) : Instant :=
  match previous with
  | none => sentAt
  | some previous => max previous sentAt

-- Credits the prefix that was requested, never more than that.
def acknowledgedPrefix (known requested reported : Nat) : Option (Nat × Nat) :=
  if reported < requested then none else
    let matched := max known requested
    some (matched, U64.saturatingAdd matched 1)

inductive ReplyAdmission
  | ignore
  | observeHigherTerm
  | deliver

def admitReplicationReply
    (requestTerm requestedIndex responseTerm : Nat) (success : Bool) (reportedIndex : Nat) :
    ReplyAdmission :=
  match compare responseTerm requestTerm with
  | .lt => .ignore
  | .gt => .observeHigherTerm
  | .eq => if success && reportedIndex < requestedIndex then .ignore else .deliver

end Replies

section Clients

inductive ProposeError
  | notLeader (shard : Nat) (leader : Option String)
  | unavailable (shard : Nat)

structure ProposeOutcome where
  shard    : Nat
  logIndex : Nat
  revision : Nat
  output   : Value

inductive ReadRequest
  | kv (key : String)
  | kvPrefix (keyPrefix : String)
  | counter (key : String)
  | barrier (name : String)
  | task (name : String)
  | effect (name : String)
  | handoff (name : String)
  | decision (name : String)
  | budget (name : String)
  | claim (name : String)
  | lock (key : String)
  | semaphore (key : String)
  | rateLimit (tenant key : String)
  | idempotency (key : String)
  | schedule (name : String)
  | scheduleHistory (name : String)
  | election (name : String)
  | service (service : String)
  | kvList (keyPrefix : String)
  | serviceList
  | scheduleList
  | lockInventory
  | semaphoreInventory
  | electionList

end Clients

-- The inbox of a shard. A client is the channel on which its answer is sent.
inductive ShardMsg
  | propose (command : Command) (client : Nat)
  | query (request : ReadRequest) (client : Nat)
  | queryLocal (request : ReadRequest) (client : Nat)
  | appendEntries (req : AppendEntriesReq)
  | installSnapshot (req : InstallSnapshotReq)
  | requestVote (req : RequestVoteReq)
  | voteReply (voter : String) (preVote : Bool) (resp : RequestVoteResp)
  | appendReply (peer : String) (request : RequestStamp) (upTo : Nat)
    (resp : Option AppendEntriesResp)
  | snapshotReply (peer : String) (request : RequestStamp) (upTo : Nat)
    (resp : Option InstallSnapshotResp)
