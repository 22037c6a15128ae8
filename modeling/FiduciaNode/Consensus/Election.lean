import FiduciaNode.Consensus.Replication

namespace ShardActor

variable {σ : Type} [StateMachine σ]

def solicitVotes (a : ShardActor σ) (term : Nat) (preVote : Bool) : ShardActor σ :=
  let req : RequestVoteReq := {
    term, candidateId := a.nodeId, lastLogIndex := a.lastLogIndex, lastLogTerm := a.lastLogTerm
    preVote
  }
  { a with out := a.out ++ a.peers.map fun peer => .requestVote peer req }

section Leader

variable [PeerPlane]

-- The votes are evidence of contact as of the start of the campaign.
def initialLeaderState (a : ShardActor σ) : LeaderState where
  nextIndex           := a.peers.foldl (fun m peer => m.insert peer (a.lastLogIndex + 1)) ∅
  matchIndex          := a.peers.foldl (fun m peer => m.insert peer 0) ∅
  inFlight            := a.peers.foldl (fun m peer => m.insert peer false) ∅
  pendingRequests     := ∅
  requestSequence     := 0
  lastContact         := a.peers.foldl (fun m peer =>
    if peer ∈ a.votes then m.insert peer a.campaignStartedAt else m) ∅
  peerCommandProtocol :=
    a.peers.foldl (fun m peer => m.insert peer Command.legacyCommandProtocol) ∅

-- The entry without a command lets the leader commit what it inherited.
def becomeLeader (a : ShardActor σ) : ShardActor σ :=
  if a.storageFault.isSome then a else
    let ls := a.initialLeaderState
    let a := { a with
      role := .leader, leaderId := some a.nodeId, votes := ∅, leader := some ls
    }.emit (.becameLeader a.currentTerm)
    let entry := a.newEntry (a.lastLogIndex + 1) none
    match { a with log := a.log ++ [entry] }.persistLogAppend with
    | (a, some error) => a.failStorage "persisting leader no-op" error
    | (a, none) =>
      { a with heartbeatDeadline := a.now + a.timing.heartbeat }
        |>.maybeAdvanceCommit |>.broadcastAppendEntries

-- The vote for oneself is durable before anyone is asked for another one.
def startElection (a : ShardActor σ) : ShardActor σ :=
  if a.storageFault.isSome then a else
    let a := resetElectionDeadline { a with
      currentTerm       := a.currentTerm + 1
      campaignStartedAt := a.now
      role              := .candidate
      votedFor          := some a.nodeId
      leaderId          := none
      votes             := { a.nodeId }
    }
    match a.persistHardState with
    | (a, some error) => a.failStorage "persisting election term and self-vote" error
    | (a, none) =>
      if a.votes.card ≥ a.majority
      then a.becomeLeader
      else a.solicitVotes a.currentTerm false

-- A straw poll for the next term. It abandons a candidacy, but changes nothing durable.
def startPreElection (a : ShardActor σ) : ShardActor σ :=
  if a.storageFault.isSome then a else
    let a := resetElectionDeadline { a with role := .follower, votes := ∅ }
    let wouldBeTerm := a.currentTerm + 1
    let a := { a with preVoteTerm := wouldBeTerm, preVotes := { a.nodeId } }
    if a.preVotes.card ≥ a.majority
    then a.startElection
    else a.solicitVotes wouldBeTerm true

def handleVoteReply (a : ShardActor σ) (voter : String) (preVote : Bool) (resp : RequestVoteResp) :
    ShardActor σ :=
  if a.storageFault.isSome then a
  else if resp.term > a.currentTerm then a.stepDown resp.term none
  else if preVote then
    if a.preVoteTerm ≠ a.currentTerm + 1 || !resp.granted then a else
      let a := { a with preVotes := insert voter a.preVotes }
      if a.preVotes.card ≥ a.majority then a.startElection else a
  else
    if a.role ≠ .candidate || resp.term ≠ a.currentTerm || !resp.granted then a else
      let a := { a with votes := insert voter a.votes }
      if a.votes.card ≥ a.majority then a.becomeLeader else a

end Leader

section Voter

def logOk (a : ShardActor σ) (req : RequestVoteReq) : Bool :=
  req.lastLogTerm > a.lastLogTerm ||
  (req.lastLogTerm = a.lastLogTerm && req.lastLogIndex ≥ a.lastLogIndex)

-- Answered without any change. A member that has heard from a leader lately does not agree.
def handlePreVote (a : ShardActor σ) (req : RequestVoteReq) : RequestVoteResp :=
  let leaderAlive := a.leaderId.isSome && a.now - a.lastLeaderContact < a.timing.electionMinMs
  {
    term    := a.currentTerm
    granted := req.term ≥ a.currentTerm && a.logOk req && !leaderAlive
  }

def denied (a : ShardActor σ) : ShardActor σ × RequestVoteResp :=
  (a, { term := a.currentTerm, granted := false })

-- The vote is durable before the candidate learns of it.
def grantVote (a : ShardActor σ) (candidateId : String) : ShardActor σ × RequestVoteResp :=
  match (resetElectionDeadline { a with votedFor := some candidateId }).persistHardState with
  | (a, some error) => (a.failStorage "persisting granted vote" error).denied
  | (a, none) => (a, { term := a.currentTerm, granted := true })

def handleRequestVote (a : ShardActor σ) (req : RequestVoteReq) : ShardActor σ × RequestVoteResp :=
  if a.storageFault.isSome || req.lastLogTerm > req.term then a.denied
  else if req.preVote then (a, a.handlePreVote req)
  else if req.term < a.currentTerm then a.denied
  else
    let a := if req.term > a.currentTerm then a.stepDown req.term none else a
    if a.storageFault.isSome then a.denied
    else if a.votedFor.all (· = req.candidateId) && a.logOk req then a.grantVote req.candidateId
    else a.denied

end Voter

end ShardActor
