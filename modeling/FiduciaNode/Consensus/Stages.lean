import FiduciaNode.Consensus.Moves

namespace ShardActor

variable {σ : Type}

-- A failed operation on the store is a fault.
def settled (a : ShardActor σ) (operation : String) (error : Option String) : ShardActor σ :=
  error.elim a (a.failStorage operation)

-- What is in the memory of a candidate when it saves its vote for itself.
def standing (a : ShardActor σ) : ShardActor σ :=
  resetElectionDeadline { a with
    currentTerm       := a.currentTerm + 1
    campaignStartedAt := a.now
    role              := .candidate
    votedFor          := some a.nodeId
    leaderId          := none
    votes             := { a.nodeId }
  }

-- A straw poll has been started.
def polling (a : ShardActor σ) : ShardActor σ :=
  { resetElectionDeadline { a with role := .follower, votes := ∅ } with
    preVoteTerm := a.currentTerm + 1, preVotes := { a.nodeId } }

variable [StateMachine σ] [PeerPlane]

def acclaimed (a : ShardActor σ) : ShardActor σ :=
  emit { a with
    role := .leader, leaderId := some a.nodeId, votes := ∅, leader := some a.initialLeaderState
  } (.becameLeader a.currentTerm)

-- What is in the memory of a leader when it saves one more entry.
def longer (a : ShardActor σ) (command : Option Command) : ShardActor σ :=
  { a with log := a.nextLog command }

-- What a handler does in one go, between two of its checks, and what it has checked until then. The
-- event has found the actor as it was at the start.
inductive Deed (e : Event) (start a : ShardActor σ) : ShardActor σ → Prop
  | stepDown (term : Nat) (leader : Option String) : Deed e start a (a.stepDown term leader)
  | resign (fault : (a.stepDown a.currentTerm none).storageFault.isSome) :
    Deed e start a ((a.stepDown a.currentTerm none).stepDown a.currentTerm none)
  | stop (operation error : String) : Deed e start a (a.failStorage operation error)
  | schedule : Deed e start a { a with heartbeatDeadline := a.now + a.timing.heartbeat }
  | poll (free : a.role ≠ .leader) : Deed e start a a.polling
  | agree (voter : String) : Deed e start a { a with preVotes := insert voter a.preVotes }
  | campaign {b : ShardActor σ} {error : Option String} (free : a.role ≠ .leader)
    (saved : a.standing.persistHardState = (b, error)) (operation : String) :
    Deed e start a (b.settled operation error)
  | solicit (preVote : Bool) (real : preVote = false → a.role = .candidate) :
    Deed e start a (a.solicitVotes (if preVote then a.currentTerm + 1 else a.currentTerm) preVote)
  | count (voter : String) (resp : RequestVoteResp)
    (reply : e = .message (.voteReply voter false resp)) (candidate : a.role = .candidate)
    (term : resp.term = a.currentTerm) (granted : resp.granted = true) :
    Deed e start a { a with votes := insert voter a.votes }
  | lead {b : ShardActor σ} {error : Option String} (candidate : a.role = .candidate)
    (majority : a.majority ≤ a.votes.card) (elects : e.elects) (unled : start.role ≠ .leader)
    (unchanged : a.lastLogIndex = start.lastLogIndex)
    (saved : (a.acclaimed.longer none).persistLogAppend = (b, error)) (operation : String) :
    Deed e start a (b.settled operation error)
  | grant {b : ShardActor σ} {error : Option String} (req : RequestVoteReq)
    (asked : e = .message (.requestVote req)) (real : req.preVote = false)
    (term : req.term = a.currentTerm) (free : a.votedFor.all (· = req.candidateId)) (ok : a.logOk req)
    (saved : (resetElectionDeadline { a with
      votedFor := some req.candidateId }).persistHardState = (b, error)) (operation : String) :
    Deed e start a (b.settled operation error)
  | follow (leads : e.leads a.currentTerm) (leader : String) : Deed e start a (a.becomeFollowerOf leader)
  | accept {b : ShardActor σ} {error : Option String} (req : AppendEntriesReq)
    (asked : e = .message (.appendEntries req)) (admits : a.Admits req) (appended : Appended σ)
    (stored : appendLoop ⟨a, false, false⟩ req.prevLogIndex req.entries = .ok appended)
    (unchanged : a.lastLogIndex = start.lastLogIndex)
    (saved : persistAppended appended = (b, error)) (operation : String) :
    Deed e start a (error.elim (b.followCommit req.leaderCommit) (b.failStorage operation))
  | install (req : InstallSnapshotReq) (asked : e = .message (.installSnapshot req)) (restored : σ)
    (installs : a.Installs req restored) : Deed e start a (a.install req restored).1
  | extend {b : ShardActor σ} {error : Option String} (leader : a.role = .leader)
    (command : Option Command) (proposable : a.Proposable command) (fits : a.lastLogIndex < U64.max)
    (saved : (a.longer command).persistLogAppend = (b, error)) (operation : String) :
    Deed e start a (b.settled operation error)
  | wait (index client : Nat) (entry : LogEntry) (command own : Command)
    (asked : e = .message (.propose command client)) (last : a.log.getLast? = some entry)
    (proposes : entry.command = some own)
    (active : own.requiredProtocol ≤ max Command.legacyCommandProtocol a.commandProtocol) :
    Deed e start a (emit { a with
      pending := a.pending.insert index { startedAt := a.now, client } } (.proposed client entry))
  | commit (leader : a.role = .leader) (index : Nat) (commits : a.Commits index)
    (newer : a.commitIndex < index) (current : a.termAt index = a.currentTerm) (operation : String) :
    Deed e start a (a.commitTo index operation)
  | send (ls : LeaderState) (leads : a.leader = some ls) (peer : String) (member : peer ∈ a.peers) :
    Deed e start a (emit (a.requesting ls peer (ls.requestSequence + 1))
      (a.shipment ls peer (ls.requestSequence + 1)))
  | callback (peer : String) :
    Deed e start a (a.onLeader fun ls => { ls with pendingRequests := ls.pendingRequests.erase peer })
  | land (peer : String) : Deed e start a (a.onLeader (landed peer))
  | advertise (peer : String) (protocol : Nat) (advertises : e.advertises a.currentTerm peer protocol) :
    Deed e start a (a.onLeader fun ls => { ls with
      peerCommandProtocol := ls.peerCommandProtocol.insert peer protocol })
  | contact (leader : a.role = .leader) (peer : String) (member : peer ∈ a.peers) (sentAt : Instant)
    (contacts : e.contacts a.currentTerm peer sentAt) (past : sentAt ≤ a.now) :
    Deed e start a (a.onLeader (contacted peer sentAt))
  | advance (leader : a.role = .leader) (peer : String) (member : peer ∈ a.peers)
    (request : RequestStamp) (upTo : Nat) (answers : e.answers peer request upTo)
    (acknowledged : e.acknowledges a.currentTerm peer upTo) (expected : start.Expects peer request) :
    Deed e start a (a.onLeader (advanced peer upTo))
  | rewind (leader : a.role = .leader) (peer : String) (member : peer ∈ a.peers) (hint : Nat)
    (refused : e.refuses a.currentTerm peer hint) : Deed e start a (a.onLeader (rewound peer hint))

-- An actor with a fault only refuses proposals.
inductive Stage (e : Event) (start a : ShardActor σ) : ShardActor σ → Prop
  | refuse (command : Command) (client : Nat) (asked : e = .message (.propose command client))
    (error : ProposeError) : Stage e start a (a.emit (.answer client (.error error)))
  | act {b : ShardActor σ} (alive : a.storageFault = none) (deed : Deed e start a b) : Stage e start a b

def Stages (e : Event) (start : ShardActor σ) : ShardActor σ → ShardActor σ → Prop :=
  Relation.ReflTransGen (Stage e start)

end ShardActor
