import FiduciaNode.Consensus.Election

namespace ShardActor

variable {σ : Type} [StateMachine σ]

def becomeFollowerOf (a : ShardActor σ) (leader : String) : ShardActor σ :=
  let a := { a with
    role := .follower, leaderId := some leader, leader := none, votes := ∅
    lastLeaderContact := a.now
  }
  a.resetElectionDeadline.failPending

section Snapshot

def snapshotResp (a : ShardActor σ) (success : Bool) (matchIndex : Nat) :
    ShardActor σ × InstallSnapshotResp :=
  (a, { term := a.currentTerm, success, matchIndex })

-- Keeps the entries after the snapshot if the log agrees with its last one.
def install (a : ShardActor σ) (req : InstallSnapshotReq) (restored : σ) :
    ShardActor σ × InstallSnapshotResp :=
  let keepSuffix := a.termAt req.lastIncludedIndex = req.lastIncludedTerm
  let remaining :=
    if keepSuffix then a.log.filter (·.index > req.lastIncludedIndex) else []
  let snapshot : PersistedSnapshot := {
    lastIncludedIndex := req.lastIncludedIndex, lastIncludedTerm := req.lastIncludedTerm
    state := req.state
  }
  match a.onStore (·.saveSnapshot snapshot remaining) with
  | (a, some error) =>
    let a := a.failStorage "persisting installed snapshot" error
    a.snapshotResp false a.commitIndex
  | (a, none) =>
    let commitIndex := max a.commitIndex req.lastIncludedIndex
    match a.persistHardStateAt commitIndex with
    | (a, some error) =>
      let a := a.failStorage "persisting installed snapshot commit index" error
      a.snapshotResp false a.commitIndex
    | (a, none) =>
      snapshotResp { a with
        state         := restored
        snapshotIndex := req.lastIncludedIndex
        snapshotTerm  := req.lastIncludedTerm
        snapshotState := req.state
        log           := remaining
        commitIndex   := commitIndex
        lastApplied   := req.lastIncludedIndex
      } true req.lastIncludedIndex

def handleInstallSnapshot (a : ShardActor σ) (req : InstallSnapshotReq) :
    ShardActor σ × InstallSnapshotResp :=
  if a.storageFault.isSome then a.snapshotResp false a.commitIndex
  else if req.term < a.currentTerm then a.snapshotResp false a.lastLogIndex
  else
    let a := if req.term > a.currentTerm then a.stepDown req.term none else a
    if a.storageFault.isSome then a.snapshotResp false a.commitIndex
    else if (req.lastIncludedIndex == 0) != (req.lastIncludedTerm == 0) ||
      req.lastIncludedTerm > req.term
    then a.snapshotResp false a.lastLogIndex
    else
      let a := a.becomeFollowerOf req.leaderId
      if req.lastIncludedIndex ≤ a.snapshotIndex then a.snapshotResp true a.snapshotIndex
      else if req.lastIncludedIndex ≤ a.commitIndex then a.snapshotResp true a.lastLogIndex
      else
        match StateMachine.restore req.state with
        | .error _ => a.snapshotResp false a.lastLogIndex
        | .ok restored => a.install req restored

end Snapshot

section Append

def appendResp (a : ShardActor σ) (success : Bool) (matchIndex : Nat) :
    ShardActor σ × AppendEntriesResp :=
  (a, {
    term := a.currentTerm, success, matchIndex, commandProtocol := Command.currentCommandProtocol
  })

-- The entries follow one another and none of them is from a later term than the request.
def wellFormed (term : Nat) : (expectedIndex : Nat) → List LogEntry → Bool
  | _, [] => true
  | expectedIndex, entry :: rest =>
    match U64.checkedAdd expectedIndex 1 with
    | none => false
    | some next =>
      entry.index = next && entry.term ≠ 0 && entry.term ≤ term && wellFormed term next rest

-- What the follower has done to its log: the flags say whether it replaced a suffix and whether it
-- added to the end.
structure Appended (σ : Type) where
  actor     : ShardActor σ
  truncated : Bool
  grew      : Bool

-- Appends the entries and drops the log from the first one on that conflicts with it. Gives up
-- instead of dropping what is committed.
def appendLoop (s : Appended σ) : (index : Nat) → List LogEntry → Except (ShardActor σ) (Appended σ)
  | _, [] => .ok s
  | index, entry :: rest =>
    let a := s.actor
    let index := index + 1
    if index ≤ a.snapshotIndex then appendLoop s index rest else
      let offset := index - a.snapshotIndex - 1
      match a.log[offset]? with
      | none =>
        appendLoop { s with actor := { a with log := a.log ++ [entry] }, grew := true } index rest
      | some existing =>
        if existing.term = entry.term then appendLoop s index rest
        else if index ≤ a.commitIndex then .error a
        else
          appendLoop { s with
            actor := { a with log := a.log.take offset ++ [entry] }, truncated := true
          } index rest

def persistAppended (s : Appended σ) : ShardActor σ × Option String :=
  if s.truncated then s.actor.persistLogRewrite
  else if s.grew then s.actor.persistLogAppend
  else (s.actor, none)

-- The follower commits what the leader has committed, as far as its own log reaches.
def followCommit (a : ShardActor σ) (leaderCommit : Nat) : ShardActor σ :=
  if leaderCommit > a.commitIndex && min leaderCommit a.lastLogIndex > a.commitIndex
  then a.commitTo (min leaderCommit a.lastLogIndex) "persisting follower commit index"
  else a

def appendFrom (a : ShardActor σ) (req : AppendEntriesReq) : ShardActor σ × AppendEntriesResp :=
  if req.prevLogIndex > 0 && a.termAt req.prevLogIndex ≠ req.prevLogTerm then
    a.appendResp false (min a.lastLogIndex (req.prevLogIndex - 1))
  else
    match appendLoop { actor := a, truncated := false, grew := false } req.prevLogIndex
      req.entries with
    | .error a => a.appendResp false a.commitIndex
    | .ok appended =>
      match persistAppended appended with
      | (a, some error) =>
        let a := a.failStorage "persisting follower log update" error
        a.appendResp false a.commitIndex
      | (a, none) =>
        let a := a.followCommit req.leaderCommit
        if a.storageFault.isSome
        then a.appendResp false a.commitIndex
        else a.appendResp true a.lastLogIndex

def handleAppendEntries (a : ShardActor σ) (req : AppendEntriesReq) :
    ShardActor σ × AppendEntriesResp :=
  if a.storageFault.isSome then a.appendResp false a.commitIndex
  else if req.term < a.currentTerm then a.appendResp false a.lastLogIndex
  else
    let a := if req.term > a.currentTerm then a.stepDown req.term none else a
    if a.storageFault.isSome then a.appendResp false a.commitIndex
    else if req.prevLogTerm > req.term || !wellFormed req.term req.prevLogIndex req.entries
    then a.appendResp false a.lastLogIndex
    else (a.becomeFollowerOf req.leaderId).appendFrom req

end Append

end ShardActor
