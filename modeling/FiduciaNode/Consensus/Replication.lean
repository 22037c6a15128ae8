import FiduciaNode.Consensus.Actor

-- A request that cannot be written counts as one of the largest size.
def AppendEntriesReq.bodyBytes [PeerPlane] (request : AppendEntriesReq) : Nat :=
  (PeerPlane.bodyBytes request).getD U64.max

-- The next batch within the bounds. It holds at least one entry if there is one to be sent.
def boundedAppendRequest [PeerPlane] (request : AppendEntriesReq) (maxEntries maxBytes : Nat) :
    (batch suffix : List LogEntry) → AppendEntriesReq
  | batch, [] => { request with entries := batch }
  | batch, entry :: suffix =>
    if batch.length ≥ max maxEntries 1 then { request with entries := batch } else
      let extended := batch ++ [entry]
      let tooLarge := { request with entries := extended }.bodyBytes > max maxBytes 1
      if ¬ tooLarge then boundedAppendRequest request maxEntries maxBytes extended suffix
      else if extended.length > 1 then { request with entries := batch }
      else { request with entries := extended }

-- An entry can be sent if the peer is able to parse it or if its protocol is active.
def appendableProtocolPrefix (suffix : List LogEntry) (peerProtocol activeProtocol : Nat) :
    List LogEntry :=
  suffix.takeWhile fun entry => entry.command.all fun command =>
    command.requiredProtocol ≤ peerProtocol || command.requiredProtocol ≤ activeProtocol

namespace ShardActor

variable {σ : Type} [StateMachine σ]

def commandProtocol (a : ShardActor σ) : Nat :=
  StateMachine.commandProtocol a.state

def allPeersSupportCurrentCommandProtocol (a : ShardActor σ) : Bool :=
  a.members = 1 || a.leader.any fun leader => a.peers.all fun peer =>
    leader.peerCommandProtocol[peer]?.getD Command.legacyCommandProtocol ≥
      Command.currentCommandProtocol

section Commit

-- The highest index that a majority is known to hold, but not past a command that some member might
-- not be able to parse.
def commitCandidate (a : ShardActor σ) : Nat :=
  let matched := a.lastLogIndex :: a.leader.elim [] fun leader =>
    a.peers.map fun peer => leader.matchIndex[peer]?.getD 0
  let n := (matched.insertionSort (· ≥ ·))[a.majority - 1]?.getD 0
  if a.commandProtocol < Command.currentCommandProtocol &&
    !a.allPeersSupportCurrentCommandProtocol
  then
    let newer := a.log.find? fun entry =>
      entry.index > a.commitIndex &&
      entry.command.any (·.requiredProtocol > a.commandProtocol)
    newer.elim n fun entry => min n (entry.index - 1)
  else
    n

-- The commit index is durable before anything up to it is applied.
def commitTo (a : ShardActor σ) (index : Nat) (operation : String) : ShardActor σ :=
  match a.persistHardStateAt index with
  | (a, some error) => a.failStorage operation error
  | (a, none) => { a with commitIndex := index }.applyCommitted

def maybeAdvanceCommit (a : ShardActor σ) : ShardActor σ :=
  if a.role ≠ .leader || a.storageFault.isSome then a else
    let n := a.commitCandidate
    if n > a.commitIndex && a.termAt n = a.currentTerm
    then a.commitTo n "persisting leader commit index"
    else a

end Commit

section Send

variable [PeerPlane]

def installSnapshotReq (a : ShardActor σ) : InstallSnapshotReq where
  term              := a.currentTerm
  leaderId          := a.nodeId
  lastIncludedIndex := a.snapshotIndex
  lastIncludedTerm  := a.snapshotTerm
  state             := a.snapshotState

def appendEntriesReq (a : ShardActor σ) (prevLogIndex peerProtocol : Nat) : AppendEntriesReq :=
  let suffix := appendableProtocolPrefix
    (a.log.drop (prevLogIndex - a.snapshotIndex)) peerProtocol a.commandProtocol
  let req : AppendEntriesReq := {
    term            := a.currentTerm
    leaderId        := a.nodeId
    prevLogIndex    := prevLogIndex
    prevLogTerm     := a.termAt prevLogIndex
    entries         := []
    leaderCommit    := a.commitIndex
    commandProtocol := Command.currentCommandProtocol
  }
  boundedAppendRequest req PeerPlane.appendMaxEntries PeerPlane.appendMaxBytes [] suffix

-- One request at a time is outstanding to a peer.
def sendAppendTo (a : ShardActor σ) (peer : String) : ShardActor σ :=
  if !a.peers.contains peer then a else
    match a.leader with
    | none => a
    | some ls =>
      if ls.inFlight[peer]?.getD false then a else
        match U64.checkedAdd ls.requestSequence 1 with
        | none => a.stepDown a.currentTerm none
        | some sequence =>
          let request : RequestStamp := { term := a.currentTerm, sequence, sentAt := a.now }
          let next := ls.nextIndex[peer]?.getD 1
          let peerProtocol := ls.peerCommandProtocol[peer]?.getD Command.legacyCommandProtocol
          let a := { a with leader := some { ls with
            requestSequence := sequence
            pendingRequests := ls.pendingRequests.insert peer request
            inFlight        := ls.inFlight.insert peer true
          } }
          if next ≤ a.snapshotIndex then
            a.emit (.installSnapshot peer request a.snapshotIndex a.installSnapshotReq)
          else
            let req := a.appendEntriesReq (next - 1) peerProtocol
            let upTo := U64.saturatingAdd (next - 1) req.entries.length
            a.emit (.appendEntries peer request upTo req)

def broadcastAppendEntries (a : ShardActor σ) : ShardActor σ :=
  if a.role ≠ .leader then a else a.peers.foldl sendAppendTo a

end Send

section Activation

variable [PeerPlane]

def activationLogged (a : ShardActor σ) : Bool :=
  a.log.any fun entry => entry.command.any fun
    | .activateCommandProtocol version => version = Command.currentCommandProtocol
    | _ => false

def newEntry (a : ShardActor σ) (index : Nat) (command : Option Command) : LogEntry where
  term         := a.currentTerm
  index        := index
  proposedAtMs := a.nowMs
  command      := command

-- Once every peer has shown that it parses the current protocol, the leader appends the record that
-- activates it, unless an earlier leader already did.
def maybeActivateCommandProtocol (a : ShardActor σ) : ShardActor σ :=
  if a.storageFault.isSome || a.role ≠ .leader ||
    a.commandProtocol ≥ Command.currentCommandProtocol ||
    !a.allPeersSupportCurrentCommandProtocol
  then a
  else if a.activationLogged then
    if a.members = 1 then a.maybeAdvanceCommit else a
  else
    match U64.checkedAdd a.lastLogIndex 1 with
    | none =>
      a.failStorage "allocating command-protocol activation index" "Raft log index overflow"
    | some index =>
      let entry := a.newEntry index
        (some (.activateCommandProtocol Command.currentCommandProtocol))
      match { a with log := a.log ++ [entry] }.persistLogAppend with
      | (a, some error) => a.failStorage "persisting command-protocol activation" error
      | (a, none) =>
        if a.members = 1
        then a.commitTo index "persisting command-protocol activation commit"
        else a.broadcastAppendEntries

end Activation

section Replies

-- Nothing of a reply is looked at before it is known to be the one that is waited for.
def acceptReplicationCallback (a : ShardActor σ) (peer : String) (request : RequestStamp)
    (responseTerm : Option Nat) : ShardActor σ × Bool :=
  if a.storageFault.isSome || !a.peers.contains peer then (a, false) else
    let active :=
      if a.role = .leader then a.leader.bind (·.pendingRequests[peer]?) else none
    match classifyCallback a.currentTerm active request responseTerm a.now with
    | .higherTerm term => (a.stepDown term none, false)
    | .ignore => (a, false)
    | .current =>
      ({ a with leader := a.leader.map fun ls =>
        { ls with pendingRequests := ls.pendingRequests.erase peer } }, true)

def onLeader (a : ShardActor σ) (f : LeaderState → LeaderState) : ShardActor σ :=
  { a with leader := a.leader.map f }

-- The peer can take another request.
def landed (peer : String) (ls : LeaderState) : LeaderState :=
  { ls with inFlight := ls.inFlight.insert peer false }

def contacted (peer : String) (sentAt : Instant) (ls : LeaderState) : LeaderState :=
  { ls with lastContact := ls.lastContact.insert peer (advanceContact ls.lastContact[peer]? sentAt) }

-- A success credits the prefix that was sent.
def advanced (peer : String) (upTo : Nat) (ls : LeaderState) : LeaderState :=
  let matched := max (ls.matchIndex[peer]?.getD 0) upTo
  { ls with
    matchIndex := ls.matchIndex.insert peer matched
    nextIndex  := ls.nextIndex.insert peer (U64.saturatingAdd matched 1)
  }

-- A mismatch rewinds, by one or to the hint, but not into what the peer acknowledged.
def rewound (peer : String) (hint : Nat) (ls : LeaderState) : LeaderState :=
  let current := ls.nextIndex[peer]?.getD 1
  let backoff := min (U64.saturatingAdd hint 1) (current - 1)
  let acknowledgedNext := U64.saturatingAdd (ls.matchIndex[peer]?.getD 0) 1
  { ls with nextIndex := ls.nextIndex.insert peer (max backoff acknowledgedNext) }

variable [PeerPlane]

def handleAppendReply (a : ShardActor σ) (sentAt : Instant) (peer : String) (upTo : Nat)
    (resp : Option AppendEntriesResp) : ShardActor σ :=
  if a.storageFault.isSome then a else
    let a := a.onLeader (landed peer)
    match resp with
    | none => a
    | some resp =>
      if resp.term > a.currentTerm then a.stepDown resp.term none
      else if a.role ≠ .leader || resp.term ≠ a.currentTerm then a
      else
        let a := a.onLeader fun ls => { ls with
          peerCommandProtocol := ls.peerCommandProtocol.insert peer resp.commandProtocol
        }
        let a := a.onLeader (contacted peer sentAt)
        if resp.success && resp.matchIndex ≥ upTo then
          let a := a.onLeader (advanced peer upTo)
          let more := a.leader.any fun ls => ls.matchIndex[peer]?.getD 0 < a.lastLogIndex
          let a := a.maybeAdvanceCommit.maybeActivateCommandProtocol
          if more then a.sendAppendTo peer else a
        else
          (a.onLeader (rewound peer resp.matchIndex)).maybeActivateCommandProtocol

def handleSnapshotReply (a : ShardActor σ) (sentAt : Instant) (peer : String) (upTo : Nat)
    (resp : Option InstallSnapshotResp) : ShardActor σ :=
  if a.storageFault.isSome then a else
    let a := a.onLeader (landed peer)
    match resp with
    | none => a
    | some resp =>
      if resp.term > a.currentTerm then a.stepDown resp.term none
      else if a.role ≠ .leader || resp.term ≠ a.currentTerm || !resp.success then a
      else
        match a.leader with
        | none => a.sendAppendTo peer
        | some ls =>
          match acknowledgedPrefix (ls.matchIndex[peer]?.getD 0) upTo resp.matchIndex with
          | none => a
          | some (matched, next) =>
            let ls := contacted peer sentAt { ls with
              matchIndex := ls.matchIndex.insert peer matched
              nextIndex  := ls.nextIndex.insert peer next
            }
            { a with leader := some ls }.sendAppendTo peer

end Replies

section Lease

def leaderLeaseHeld (a : ShardActor σ) : Bool :=
  if !a.timing.checkQuorum || a.members = 1 then true else
    match a.leader with
    | none => false
    | some ls =>
      let fresh := a.peers.filter fun peer =>
        let age := ls.lastContact[peer]?.bind fun sent =>
          if sent ≤ a.now then some (a.now - sent) else none
        contactIsFresh age a.timing.electionMinMs
      1 + fresh.length ≥ a.majority

def relinquishNoQuorum (a : ShardActor σ) : ShardActor σ :=
  a.stepDown a.currentTerm none

end Lease

end ShardActor
