import FiduciaNode.Consensus.Messages

structure Meta where
  currentTerm : Nat
  votedFor    : Option String
  commitIndex : Nat

structure PersistedSnapshot where
  lastIncludedIndex : Nat
  lastIncludedTerm  : Nat
  state             : List UInt8

-- The files of a shard. The log file holds its complete records only: recovery drops a torn one.
structure Disk where
  hardState : Option Meta
  log       : List LogEntry
  snapshot  : Option PersistedSnapshot

-- The writes between which a process can crash. All files but the tail of the log are replaced by
-- renaming.
inductive DiskStep
  | writeMeta (hardState : Meta)
  | appendLog (entry : LogEntry)
  | writeLog (log : List LogEntry)
  | writeSnapshot (snapshot : PersistedSnapshot)

structure Recovered where
  currentTerm : Nat
  votedFor    : Option String
  commitIndex : Nat
  log         : List LogEntry
  snapshot    : Option PersistedSnapshot

namespace Recovered

def snapshotIndex (r : Recovered) : Nat :=
  r.snapshot.elim 0 (·.lastIncludedIndex)

def snapshotTerm (r : Recovered) : Nat :=
  r.snapshot.elim 0 (·.lastIncludedTerm)

end Recovered

namespace Disk

def empty : Disk where
  hardState := none
  log       := []
  snapshot  := none

def step (d : Disk) : DiskStep → Disk
  | .writeMeta hardState => { d with hardState := some hardState }
  | .appendLog entry => { d with log := d.log ++ [entry] }
  | .writeLog log => { d with log }
  | .writeSnapshot snapshot => { d with snapshot := some snapshot }

def steps (d : Disk) (steps : List DiskStep) : Disk :=
  steps.foldl step d

-- Adds a record of the log file to those that follow the snapshot. A record that contradicts the
-- one before it or the snapshot is corruption.
def addRecord
    (snapshotIndex snapshotTerm line : Nat) (previous : Option LogEntry) (log : List LogEntry)
    (entry : LogEntry) : Except String (List LogEntry) :=
  let index := entry.index
  let term := entry.term
  let previousTerm := previous.elim 0 (·.term)
  let suffixIndex := U64.checkedAdd snapshotIndex log.length |>.bind (U64.checkedAdd · 1)
  if index = 0 || term = 0 then
    .error s!"raft log record at line {line} has zero index or term"
  else if term < previousTerm then
    .error s!"raft log term descends at line {line}: previous {previousTerm}, found {term}"
  else
    match previous.elim (some index) (U64.checkedAdd ·.index 1) with
    | none => .error "raft log index overflow"
    | some expected =>
      if index ≠ expected then
        .error s!"raft log index gap at line {line}: expected {expected}, found {index}"
      else if index = snapshotIndex && term ≠ snapshotTerm then
        .error (s!"raft log term {term} at snapshot index {snapshotIndex} disagrees with " ++
          s!"snapshot term {snapshotTerm}")
      else if index ≤ snapshotIndex then
        .ok log
      else
        match suffixIndex with
        | none => .error "raft log suffix index overflow"
        | some expected =>
          if index ≠ expected then
            .error (s!"raft log suffix gap after snapshot: expected index {expected}, " ++
              s!"found {index}")
          else
            .ok (log ++ [entry])

def scanLog (snapshotIndex snapshotTerm : Nat) :
    (line : Nat) → (previous : Option LogEntry) → (log : List LogEntry) → List LogEntry →
    Except String (List LogEntry)
  | _, _, log, [] => .ok log
  | line, previous, log, entry :: rest =>
    match addRecord snapshotIndex snapshotTerm line previous log entry with
    | .error error => .error error
    | .ok log => scanLog snapshotIndex snapshotTerm (line + 1) (some entry) log rest

-- What is read back when the store is opened. A snapshot proves that what it covers is committed.
def recover (d : Disk) : Except String Recovered :=
  let hardState := d.hardState.getD { currentTerm := 0, votedFor := none, commitIndex := 0 }
  let durableTerm := hardState.currentTerm
  let commitIndex := hardState.commitIndex
  let snapshotIndex := d.snapshot.elim 0 (·.lastIncludedIndex)
  let snapshotTerm := d.snapshot.elim 0 (·.lastIncludedTerm)
  if durableTerm = 0 && hardState.votedFor.isSome then
    .error "raft meta contains a vote in term zero"
  else if (snapshotIndex == 0) != (snapshotTerm == 0) then
    .error s!"snapshot index/term mismatch: index={snapshotIndex}, term={snapshotTerm}"
  else
    match scanLog snapshotIndex snapshotTerm 1 none [] d.log with
    | .error error => .error error
    | .ok log =>
      let durableTail := log.getLast?.elim snapshotIndex (·.index)
      if d.hardState.isNone && (d.snapshot.isSome || !log.isEmpty) then
        .error "raft meta is missing while durable snapshot/log state exists"
      else if snapshotTerm > durableTerm || log.any (·.term > durableTerm) then
        .error s!"durable snapshot/log term exceeds persisted current term {durableTerm}"
      else if commitIndex > durableTail then
        .error (s!"persisted commit index {commitIndex} exceeds durable snapshot/log tail " ++
          s!"{durableTail}")
      else
        .ok {
          currentTerm := durableTerm
          votedFor    := hardState.votedFor
          commitIndex := max commitIndex snapshotIndex
          log         := log
          snapshot    := d.snapshot
        }

end Disk

-- What comes of an operation on the store. A failed operation may have made some of its writes.
inductive Outcome
  | ok
  | failed (written : Nat) (error : String)

-- The outcomes are those of the next operations. Once they are used up, every operation succeeds.
structure ShardStore where
  durableLen : Nat
  outcomes   : List Outcome

namespace ShardStore

abbrev Result := ShardStore × List DiskStep × Option String

def perform (store : ShardStore) (steps : List DiskStep) : Result :=
  match store.outcomes with
  | [] => (store, steps, none)
  | .ok :: outcomes => ({ store with outcomes }, steps, none)
  | .failed written error :: outcomes => ({ store with outcomes }, steps.take written, some error)

def saveMeta (store : ShardStore) (hardState : Meta) : Result :=
  store.perform [.writeMeta hardState]

-- The length that is known to be durable only changes if the operation succeeds.
def replacing (durableLen : Nat) : Result → Result
  | (store, steps, none) => ({ store with durableLen }, steps, none)
  | (store, steps, some error) => (store, steps, some error)

def appendTail (store : ShardStore) (log : List LogEntry) : Result :=
  if log.length ≤ store.durableLen
  then (store, [], none)
  else replacing log.length (store.perform (log.drop store.durableLen |>.map .appendLog))

def rewrite (store : ShardStore) (log : List LogEntry) : Result :=
  replacing log.length (store.perform [.writeLog log])

-- The snapshot is written first. Recovery skips the records that it covers.
def saveSnapshot (store : ShardStore) (snapshot : PersistedSnapshot) (remaining : List LogEntry) :
    Result :=
  replacing remaining.length (store.perform [.writeSnapshot snapshot, .writeLog remaining])

-- Opening makes the log file canonical, and a fresh shard gets its first hard state.
def canonicalize (store : ShardStore) (d : Disk) (log : List LogEntry) : Result :=
  match store.rewrite log with
  | (store, steps, none) =>
    if d.hardState.isSome then (store, steps, none) else
      let (store, steps', error) :=
        store.saveMeta { currentTerm := 0, votedFor := none, commitIndex := 0 }
      (store, steps ++ steps', error)
  | failed => failed

end ShardStore
