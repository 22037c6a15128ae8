import FiduciaNode.Consensus.Protocol

namespace Effect

-- A client is told that its proposal has failed.
def refuses : Effect → Bool
  | .answer _ (.error _) => true
  | _ => false

-- The effect is a request to the peer that holds the log up to an index.
def sent? : Effect → Option (String × RequestStamp × Nat)
  | .appendEntries peer request upTo _ => some (peer, request, upTo)
  | .installSnapshot peer request upTo _ => some (peer, request, upTo)
  | _ => none

end Effect

namespace Event

-- The event is what has come of a request to the peer.
def answers (peer : String) (request : RequestStamp) (upTo : Nat) : Event → Prop
  | .message (.appendReply p r u _) => p = peer ∧ r = request ∧ u = upTo
  | .message (.snapshotReply p r u _) => p = peer ∧ r = request ∧ u = upTo
  | _ => False

-- The event may make a member lead.
def elects : Event → Bool
  | .tick | .message (.voteReply ..) => true
  | _ => false

-- The peer says which protocol it parses, in a reply to a request of the term.
def advertises (term : Nat) (peer : String) (protocol : Nat) : Event → Prop
  | .message (.appendReply p request _ (some resp)) =>
    p = peer ∧ request.term = term ∧ resp.term = term ∧ resp.commandProtocol = protocol
  | _ => False

end Event

namespace ShardActor

variable {σ : Type}

-- Only what elections and timers change is different.
def Elects (a b : ShardActor σ) : Prop :=
  b = { a with
    role              := b.role
    currentTerm       := b.currentTerm
    votedFor          := b.votedFor
    leaderId          := b.leaderId
    votes             := b.votes
    campaignStartedAt := b.campaignStartedAt
    preVotes          := b.preVotes
    preVoteTerm       := b.preVoteTerm
    leader            := b.leader
    electionDeadline  := b.electionDeadline
    heartbeatDeadline := b.heartbeatDeadline
    lastLeaderContact := b.lastLeaderContact
    rng               := b.rng
  }

-- The leader waits for the answer to the request.
def Expects (a : ShardActor σ) (peer : String) (request : RequestStamp) : Prop :=
  a.role = .leader ∧ ∃ ls, a.leader = some ls ∧ ls.pendingRequests[peer]? = some request

variable [StateMachine σ] [PeerPlane]

-- How an actor may come to commit the log up to the index.
inductive Commits (a : ShardActor σ) (index : Nat) : Prop
  | majority (leader : a.role = .leader) (candidate : index = a.commitCandidate)
    (newer : a.commitIndex < index) (current : a.termAt index = a.currentTerm)
  | lone (leader : a.role = .leader) (lone : a.members = 1)
    (last : index = a.snapshotIndex + a.log.length)
  | follower (follower : a.role = .follower) (newer : a.commitIndex < index)
    (held : index ≤ a.lastLogIndex)

-- The actor numbers a request and waits for the answer to it.
def requesting (a : ShardActor σ) (ls : LeaderState) (peer : String) (sequence : Nat) : ShardActor σ :=
  { a with leader := some { ls with
    requestSequence := sequence
    pendingRequests := ls.pendingRequests.insert peer ⟨a.currentTerm, sequence, a.now⟩
    inFlight        := ls.inFlight.insert peer true
  } }

def shipment (a : ShardActor σ) (ls : LeaderState) (peer : String) (sequence : Nat) : Effect :=
  let next := nextFor ls peer
  let request : RequestStamp := ⟨a.currentTerm, sequence, a.now⟩
  if next ≤ a.snapshotIndex then
    .installSnapshot peer request a.snapshotIndex a.installSnapshotReq
  else
    let req := a.appendEntriesReq (next - 1)
      (ls.peerCommandProtocol[peer]?.getD Command.legacyCommandProtocol)
    .appendEntries peer request (U64.saturatingAdd (next - 1) req.entries.length) req

-- The smallest changes that an event makes to an actor, in full. The event has found the actor as it
-- was at the start. Only the first two are made by an actor with a fault.
inductive Move (e : Event) (start a : ShardActor σ) : ShardActor σ → Prop
  | refuse (effects : List Effect) (refusals : ∀ effect ∈ effects, effect.refuses) :
    Move e start a { a with out := a.out ++ effects }
  | resign (fault : a.storageFault.isSome) : Move e start a (a.stepDown a.currentTerm none)
  | poll {b : ShardActor σ} (alive : a.storageFault = none) (elects : Elects a b)
    (role : b.role = a.role ∨ a.role ≠ .leader ∧ b.role = .follower)
    (term : b.currentTerm = a.currentTerm) (leader : b.leader = a.leader) : Move e start a b
  | withdraw {b : ShardActor σ} (alive : a.storageFault = none) (elects : Elects a b)
    (role : b.role = .follower) (term : a.currentTerm ≤ b.currentTerm) (leader : b.leader = none) :
    Move e start a b
  | campaign {b : ShardActor σ} (alive : a.storageFault = none) (free : a.role ≠ .leader)
    (elects : Elects a b) (role : b.role = .candidate) (term : b.currentTerm = a.currentTerm + 1)
    (leader : b.leader = a.leader) : Move e start a b
  | lead (alive : a.storageFault = none) (candidate : a.role = .candidate) :
    Move e start a (emit { a with
      role := .leader, leaderId := some a.nodeId, votes := ∅, leader := some a.initialLeaderState
    } (.becameLeader a.currentTerm))
  | solicit (alive : a.storageFault = none) (term : Nat) (preVote : Bool) :
    Move e start a (a.solicitVotes term preVote)
  | drain (alive : a.storageFault = none) (error : ProposeError) : Move e start a (a.drainPending error)
  | save {b : ShardActor σ} (alive : a.storageFault = none) (op : ShardStore → ShardStore.Result)
    (saved : a.onStore op = (b, none)) : Move e start a b
  | fail {b : ShardActor σ} {error : String} (alive : a.storageFault = none)
    (op : ShardStore → ShardStore.Result) (failed : a.onStore op = (b, some error))
    (operation : String) : Move e start a (b.failStorage operation error)
  | stop (alive : a.storageFault = none) (operation error : String) :
    Move e start a (a.failStorage operation error)
  | extend (alive : a.storageFault = none) (leader : a.role = .leader) (command : Option Command)
    (proposable : a.Proposable command)
    (fits : a.lastLogIndex < U64.max ∨
      e.elects ∧ start.role ≠ .leader ∧ a.lastLogIndex = start.lastLogIndex) :
    Move e start a { a with log := a.nextLog command }
  | wait (alive : a.storageFault = none) (index client : Nat) (entry : LogEntry) (command : Command)
    (last : a.log.getLast? = some entry) (proposes : entry.command = some command)
    (active : command.requiredProtocol ≤ max Command.legacyCommandProtocol a.commandProtocol) :
    Move e start a (emit { a with
      pending := a.pending.insert index { startedAt := a.now, client } } (.proposed client entry))
  | merge (alive : a.storageFault = none) (req : AppendEntriesReq)
    (asked : e = .message (.appendEntries req)) (admits : a.Admits req) (appended : Appended σ)
    (stored : appendLoop ⟨a, false, false⟩ req.prevLogIndex req.entries = .ok appended)
    (unchanged : a.lastLogIndex = start.lastLogIndex) :
    Move e start a { a with log := appended.actor.log }
  | install (alive : a.storageFault = none) (req : InstallSnapshotReq)
    (asked : e = .message (.installSnapshot req)) (restored : σ) (installs : a.Installs req restored) :
    Move e start a { a with
      state         := restored
      snapshotIndex := req.lastIncludedIndex
      snapshotTerm  := req.lastIncludedTerm
      snapshotState := req.state
      log           := a.keptSuffix req
      commitIndex   := max a.commitIndex req.lastIncludedIndex
      lastApplied   := req.lastIncludedIndex
    }
  | commit (alive : a.storageFault = none) (index : Nat) (commits : a.Commits index) :
    Move e start a { a with commitIndex := index }
  | apply (alive : a.storageFault = none) (completed : List Completed) (entry : LogEntry)
    (committed : a.lastApplied < a.commitIndex)
    (present : a.entryAt? (a.lastApplied + 1) = some entry) :
    Move e start a (a.applyEntry completed (a.lastApplied + 1) entry).1
  | answer (alive : a.storageFault = none) (completed : List Completed) :
    Move e start a (a.succeed completed)
  | compact (alive : a.storageFault = none) (state : List UInt8)
    (newer : a.snapshotIndex < a.lastApplied) :
    Move e start a { a with
      log           := a.log.drop (a.lastApplied - a.snapshotIndex)
      snapshotIndex := a.lastApplied
      snapshotTerm  := a.termAt a.lastApplied
      snapshotState := state
    }
  | send (alive : a.storageFault = none) (ls : LeaderState) (leads : a.leader = some ls)
    (peer : String) (member : peer ∈ a.peers) :
    Move e start a (emit (a.requesting ls peer (ls.requestSequence + 1))
      (a.shipment ls peer (ls.requestSequence + 1)))
  | callback (alive : a.storageFault = none) (peer : String) :
    Move e start a (a.onLeader fun ls => { ls with pendingRequests := ls.pendingRequests.erase peer })
  | land (alive : a.storageFault = none) (peer : String) : Move e start a (a.onLeader (landed peer))
  | contact (alive : a.storageFault = none) (peer : String) (sentAt : Instant) :
    Move e start a (a.onLeader (contacted peer sentAt))
  | advertise (alive : a.storageFault = none) (peer : String) (protocol : Nat)
    (advertises : e.advertises a.currentTerm peer protocol) :
    Move e start a (a.onLeader fun ls => { ls with
      peerCommandProtocol := ls.peerCommandProtocol.insert peer protocol })
  | advance (alive : a.storageFault = none) (peer : String) (request : RequestStamp) (upTo : Nat)
    (answers : e.answers peer request upTo) (acknowledged : e.acknowledges a.currentTerm peer upTo)
    (expected : start.Expects peer request) (member : peer ∈ a.peers) :
    Move e start a (a.onLeader (advanced peer upTo))
  | rewind (alive : a.storageFault = none) (peer : String) (hint : Nat) :
    Move e start a (a.onLeader (rewound peer hint))

def Moves (e : Event) (start : ShardActor σ) : ShardActor σ → ShardActor σ → Prop :=
  Relation.ReflTransGen (Move e start)

end ShardActor
