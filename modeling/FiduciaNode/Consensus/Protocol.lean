import FiduciaNode.Consensus.Run

-- What the disk, the peers and the history of applied entries see of an effect.
def Effect.visible : Effect → Bool
  | .answer .. | .publish _ | .proposed .. => false
  | _ => true

namespace Event

-- The event shows that a leader of the term is there.
def leads (term : Nat) : Event → Prop
  | .message (.appendEntries req) => req.term = term
  | .message (.installSnapshot req) => req.term = term
  | _ => False

-- The event is the peer's reply to a request of the term that was sent at the time.
def contacts (term : Nat) (peer : String) (sentAt : Instant) : Event → Prop
  | .message (.appendReply p request _ (some resp)) =>
    p = peer ∧ request.term = term ∧ request.sentAt = sentAt ∧ resp.term = term
  | .message (.snapshotReply p request _ (some resp)) =>
    p = peer ∧ request.term = term ∧ request.sentAt = sentAt ∧ resp.term = term
  | _ => False

-- The reply acknowledges the log up to the index.
def acknowledges (term : Nat) (peer : String) (upTo : Nat) : Event → Prop
  | .message (.appendReply p request u (some resp)) =>
    p = peer ∧ u = upTo ∧ request.term = term ∧ resp.term = term ∧ resp.success = true ∧
      upTo ≤ resp.matchIndex
  | .message (.snapshotReply p request u (some resp)) =>
    p = peer ∧ u = upTo ∧ request.term = term ∧ resp.term = term ∧ resp.success = true ∧
      upTo ≤ resp.matchIndex
  | _ => False

-- The reply refuses the request and hints at the index up to which the logs might agree.
def refuses (term : Nat) (peer : String) (hint : Nat) : Event → Prop
  | .message (.appendReply p request u (some resp)) =>
    p = peer ∧ resp.matchIndex = hint ∧ request.term = term ∧ resp.term = term ∧
      ¬(resp.success = true ∧ u ≤ resp.matchIndex)
  | _ => False

end Event

-- An event, and whether the log had room for another entry when it occurred. A new leader appends one
-- without a check.
structure Occasion where
  event : Event
  room  : Prop

namespace LeaderState

-- Without what only decides when a request is sent.
def bare (ls : LeaderState) : LeaderState :=
  { ls with inFlight := ∅, pendingRequests := ∅, requestSequence := 0, peerCommandProtocol := ∅ }

end LeaderState

namespace ShardActor

variable {σ : Type}

-- Without the parts that safety does not depend on.
def bare (a : ShardActor σ) : ShardActor σ :=
  { a with
    leaderId          := none
    store             := a.store.map ({ · with outcomes := [] })
    storageFault      := a.storageFault.map fun _ => ""
    preVotes          := ∅
    leader            := a.leader.map (·.bare)
    electionDeadline  := 0
    heartbeatDeadline := 0
    rng               := { state := 0 }
    pending           := ∅
    out               := []
  }

def hardState (a : ShardActor σ) : Meta where
  currentTerm := a.currentTerm
  votedFor    := a.votedFor
  commitIndex := a.commitIndex

-- What is seen of the writes. There are none without a store.
def writes (a : ShardActor σ) (steps : List DiskStep) : List Effect :=
  if a.store.isSome then steps.map .disk else []

-- The store knows that so many entries of the log are durable.
def stored (a : ShardActor σ) (durableLen : Nat) : ShardActor σ :=
  { a with store := a.store.map ({ · with durableLen }) }

def durableLen (a : ShardActor σ) : Nat :=
  a.store.elim 0 (·.durableLen)

-- The actor takes part in nothing any more.
structure Halted (a : ShardActor σ) : Prop where
  fault    : a.storageFault.isSome
  leader   : a.leader = none
  follower : a.role = .follower

section Updates

def adopted (a : ShardActor σ) (term : Nat) : ShardActor σ :=
  { a with
    currentTerm := term
    votedFor    := if term > a.currentTerm then none else a.votedFor
    role        := .follower
    leader      := none
    votes       := ∅
  }

def campaigning (a : ShardActor σ) : ShardActor σ :=
  { a with
    currentTerm       := a.currentTerm + 1
    campaignStartedAt := a.now
    role              := .candidate
    votedFor          := some a.nodeId
    votes             := { a.nodeId }
  }

def abandoned (a : ShardActor σ) : ShardActor σ :=
  { a with role := .follower, votes := ∅, preVoteTerm := a.currentTerm + 1 }

def following (a : ShardActor σ) : ShardActor σ :=
  { a with role := .follower, leader := none, votes := ∅, lastLeaderContact := a.now }

def relogged (a : ShardActor σ) (log : List LogEntry) : ShardActor σ :=
  { a with log }.stored log.length

def lengthened (a : ShardActor σ) (log : List LogEntry) : ShardActor σ :=
  { a with log }.stored (max a.durableLen log.length)

-- The log of a follower after it has taken over the entries of a request.
def merged (a : ShardActor σ) (s : Appended σ) : ShardActor σ :=
  if s.truncated then a.relogged s.actor.log else if s.grew then a.lengthened s.actor.log else a

def mergeWrites (a : ShardActor σ) (s : Appended σ) : List DiskStep :=
  if s.truncated then [.writeLog s.actor.log]
  else if s.grew then (s.actor.log.drop a.durableLen).map .appendLog
  else []

def followedUpTo (a : ShardActor σ) (leaderCommit : Nat) : ShardActor σ :=
  { a with commitIndex := max a.commitIndex (min leaderCommit a.lastLogIndex) }

def followWrites (a : ShardActor σ) (leaderCommit : Nat) : List DiskStep :=
  if a.commitIndex < min leaderCommit a.lastLogIndex
  then [.writeMeta (a.followedUpTo leaderCommit).hardState]
  else []

variable [StateMachine σ] [PeerPlane]

-- The log of a leader with one more entry.
def nextLog (a : ShardActor σ) (command : Option Command) : List LogEntry :=
  a.log ++ [a.newEntry (a.lastLogIndex + 1) command]

def nextWrites (a : ShardActor σ) (command : Option Command) : List DiskStep :=
  ((a.nextLog command).drop a.durableLen).map .appendLog

def extended (a : ShardActor σ) (command : Option Command) : ShardActor σ :=
  a.lengthened (a.nextLog command)

def leading (a : ShardActor σ) : ShardActor σ :=
  { a with role := .leader, votes := ∅, leader := some a.initialLeaderState.bare }

-- The result is that of the command, if the entry has one.
def appliedNext (a : ShardActor σ) (entry : LogEntry) : ShardActor σ × Option ApplyResult :=
  let next := { a with lastApplied := a.lastApplied + 1 }
  match entry.command with
  | none => (next, none)
  | some command =>
    let (state, result) := StateMachine.applyAt a.state command entry.proposedAtMs
    ({ next with state }, some result)

def folded (a : ShardActor σ) (state : List UInt8) : ShardActor σ :=
  stored { a with
    log           := a.log.drop (a.lastApplied - a.snapshotIndex)
    snapshotIndex := a.lastApplied
    snapshotTerm  := a.termAt a.lastApplied
    snapshotState := state
  } (a.log.drop (a.lastApplied - a.snapshotIndex)).length

def keptSuffix (a : ShardActor σ) (req : InstallSnapshotReq) : List LogEntry :=
  if a.termAt req.lastIncludedIndex = req.lastIncludedTerm
  then a.log.filter (·.index > req.lastIncludedIndex)
  else []

def installed (a : ShardActor σ) (req : InstallSnapshotReq) (restored : σ) : ShardActor σ :=
  stored { a with
    state         := restored
    snapshotIndex := req.lastIncludedIndex
    snapshotTerm  := req.lastIncludedTerm
    snapshotState := req.state
    log           := a.keptSuffix req
    commitIndex   := max a.commitIndex req.lastIncludedIndex
    lastApplied   := req.lastIncludedIndex
  } (a.keptSuffix req).length

end Updates

section Guards

variable [StateMachine σ]

-- How far the peer is known to hold the log.
def matched (a : ShardActor σ) (peer : String) : Nat :=
  a.leader.elim 0 fun ls => ls.matchIndex[peer]?.getD 0

def nextFor (ls : LeaderState) (peer : String) : Nat :=
  ls.nextIndex[peer]?.getD 1

-- A majority holds the log up to the index, as far as the leader knows.
def Replicated (a : ShardActor σ) (index : Nat) : Prop :=
  a.majority ≤ 1 + (a.peers.filter (index ≤ a.matched ·)).length

-- The request has got past everything that is checked before the log changes.
structure Admits (a : ShardActor σ) (req : AppendEntriesReq) : Prop where
  term       : req.term = a.currentTerm
  prevTerm   : req.prevLogTerm ≤ req.term
  wellFormed : wellFormed req.term req.prevLogIndex req.entries
  prev       : req.prevLogIndex = 0 ∨ a.termAt req.prevLogIndex = req.prevLogTerm
  follower   : a.role = .follower

structure Installs (a : ShardActor σ) (req : InstallSnapshotReq) (restored : σ) : Prop where
  term     : req.term = a.currentTerm
  zero     : req.lastIncludedIndex = 0 ↔ req.lastIncludedTerm = 0
  termLe   : req.lastIncludedTerm ≤ req.term
  newer    : a.snapshotIndex < req.lastIncludedIndex
  beyond   : a.commitIndex < req.lastIncludedIndex
  restored : StateMachine.restore req.state = .ok restored
  follower : a.role = .follower

-- The commands that a leader puts into its log: they only need what is active, apart from the record
-- that activates the current protocol.
def Proposable (a : ShardActor σ) (command : Option Command) : Prop :=
  ∀ c ∈ command, c.requiredProtocol ≤ max Command.legacyCommandProtocol a.commandProtocol ∨
    c = .activateCommandProtocol Command.currentCommandProtocol

end Guards

section Actions

variable [StateMachine σ] [PeerPlane]

def voteRequest (a : ShardActor σ) (preVote : Bool) : RequestVoteReq where
  term         := if preVote then a.currentTerm + 1 else a.currentTerm
  candidateId  := a.nodeId
  lastLogIndex := a.lastLogIndex
  lastLogTerm  := a.lastLogTerm
  preVote      := preVote

-- What an actor can do in the course of an event, with what is seen of it.
inductive Act (o : Occasion) (a : ShardActor σ) : List Effect → ShardActor σ → Prop
  | adopt (term : Nat) (le : a.currentTerm ≤ term) :
    Act o a (a.writes [.writeMeta (a.adopted term).hardState]) (a.adopted term)
  | campaign (free : a.role ≠ .leader ∨ a.preVoteTerm = a.currentTerm + 1) :
    Act o a (a.writes [.writeMeta a.campaigning.hardState]) a.campaigning
  | abandon (free : a.role ≠ .leader) : Act o a [] a.abandoned
  | solicit (preVote : Bool) (real : preVote = false → a.role = .candidate) :
    Act o a (a.peers.map (.requestVote · (a.voteRequest preVote))) a
  | grant (req : RequestVoteReq) (asked : o.event = .message (.requestVote req))
    (real : req.preVote = false) (term : req.term = a.currentTerm)
    (free : a.votedFor.all (· = req.candidateId)) (ok : a.logOk req) :
    Act o a (a.writes [.writeMeta { a with votedFor := some req.candidateId }.hardState])
      { a with votedFor := some req.candidateId }
  | count (voter : String) (resp : RequestVoteResp) (reply : o.event = .message (.voteReply voter false resp))
    (candidate : a.role = .candidate) (term : resp.term = a.currentTerm) (granted : resp.granted = true) :
    Act o a [] { a with votes := insert voter a.votes }
  | lead (candidate : a.role = .candidate) (elected : a.majority ≤ a.votes.card)
    (fits : o.room → a.lastLogIndex < U64.max) :
    Act o a (.becameLeader a.currentTerm :: a.writes (a.nextWrites none)) (a.leading.extended none)
  | extend (leader : a.role = .leader) (command : Option Command) (proposable : a.Proposable command)
    (fits : a.lastLogIndex < U64.max) :
    Act o a (a.writes (a.nextWrites command)) (a.extended command)
  | follow (leads : o.event.leads a.currentTerm) : Act o a [] a.following
  | accept (req : AppendEntriesReq) (asked : o.event = .message (.appendEntries req))
    (admits : a.Admits req) (s : Appended σ)
    (stored : appendLoop ⟨a, false, false⟩ req.prevLogIndex req.entries = .ok s) :
    Act o a (a.writes (a.mergeWrites s ++ (a.merged s).followWrites req.leaderCommit))
      ((a.merged s).followedUpTo req.leaderCommit)
  | install (req : InstallSnapshotReq) (asked : o.event = .message (.installSnapshot req)) (restored : σ)
    (installs : a.Installs req restored) :
    Act o a (a.writes [
        .writeSnapshot ⟨req.lastIncludedIndex, req.lastIncludedTerm, req.state⟩,
        .writeLog (a.keptSuffix req),
        .writeMeta { a with commitIndex := max a.commitIndex req.lastIncludedIndex }.hardState
      ]) (a.installed req restored)
  | commit (index : Nat) (leader : a.role = .leader) (newer : a.commitIndex < index)
    (replicated : a.Replicated index) (current : a.termAt index = a.currentTerm) :
    Act o a (a.writes [.writeMeta { a with commitIndex := index }.hardState])
      { a with commitIndex := index }
  | apply (entry : LogEntry) (committed : a.lastApplied < a.commitIndex)
    (present : a.entryAt? (a.lastApplied + 1) = some entry) :
    Act o a [.applied (a.lastApplied + 1) a.currentTerm entry (a.appliedNext entry).2]
      (a.appliedNext entry).1
  | compact (state : List UInt8) (snapshot : StateMachine.snapshot a.state = some state)
    (newer : a.snapshotIndex < a.lastApplied) :
    Act o a (a.writes [
        .writeSnapshot ⟨a.lastApplied, a.termAt a.lastApplied, state⟩,
        .writeLog (a.log.drop (a.lastApplied - a.snapshotIndex))
      ]) (a.folded state)
  | contact (peer : String) (sentAt : Instant) (contacts : o.event.contacts a.currentTerm peer sentAt)
    (member : peer ∈ a.peers) (leader : a.role = .leader) (past : sentAt ≤ a.now) :
    Act o a [] (a.onLeader (contacted peer sentAt))
  | advance (peer : String) (upTo : Nat) (acknowledged : o.event.acknowledges a.currentTerm peer upTo)
    (member : peer ∈ a.peers) (leader : a.role = .leader) :
    Act o a [] (a.onLeader (advanced peer upTo))
  | rewind (peer : String) (hint : Nat) (refused : o.event.refuses a.currentTerm peer hint)
    (member : peer ∈ a.peers) (leader : a.role = .leader) :
    Act o a [] (a.onLeader (rewound peer hint))
  | sendAppend (ls : LeaderState) (leads : a.leader = some ls) (peer : String) (member : peer ∈ a.peers)
    (held : a.snapshotIndex < nextFor ls peer) (caughtUp : a.lastApplied = a.commitIndex)
    (sequence peerProtocol : Nat) :
    Act o a [.appendEntries peer ⟨a.currentTerm, sequence, a.now⟩
      (U64.saturatingAdd (nextFor ls peer - 1)
        (a.appendEntriesReq (nextFor ls peer - 1) peerProtocol).entries.length)
      (a.appendEntriesReq (nextFor ls peer - 1) peerProtocol)] a
  | sendSnapshot (ls : LeaderState) (leads : a.leader = some ls) (peer : String)
    (member : peer ∈ a.peers) (gone : nextFor ls peer ≤ a.snapshotIndex) (sequence : Nat) :
    Act o a [.installSnapshot peer ⟨a.currentTerm, sequence, a.now⟩ a.snapshotIndex a.installSnapshotReq] a

-- A step is an action or a part of one that ends in a fault. What is in the memory of an actor with
-- a fault does not matter.
inductive Step (o : Occasion) : ShardActor σ → List Effect → ShardActor σ → Prop
  | act {a b : ShardActor σ} {effects : List Effect} (alive : a.storageFault = none)
    (act : Act o a effects b) : Step o a effects b
  | broken {a b c : ShardActor σ} {effects : List Effect} (alive : a.storageFault = none)
    (act : Act o a effects b) (k : Nat) (halted : c.Halted) : Step o a (effects.take k) c
  | halt {a c : ShardActor σ} (halted : c.Halted) : Step o a [] c

inductive Steps (o : Occasion) : ShardActor σ → List Effect → ShardActor σ → Prop
  | refl {a : ShardActor σ} : Steps o a [] a
  | tail {a b c : ShardActor σ} {effects effects' : List Effect} (steps : Steps o a effects b)
    (step : Step o b effects' c) : Steps o a (effects ++ effects') c

end Actions

end ShardActor
