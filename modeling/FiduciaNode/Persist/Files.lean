import FiduciaNode.Consensus.Disk
import FiduciaNode.Primitives.Lines

-- How the records of a shard are written and read.
class Json where
  logEntry  : Codec LogEntry
  hardState : Codec Meta
  snapshot  : Codec PersistedSnapshot

-- The bytes of the files of a shard, where a file may be missing.
structure Files where
  hardState : Option (List UInt8)
  log       : Option (List UInt8)
  snapshot  : Option (List UInt8)

-- A store that is open. `durableLen` counts the entries that are known to be in the log file.
structure OpenStore where
  dir        : String
  files      : Files
  durableLen : Nat

def readOptionalJson (c : Codec α) (path description : String) :
    Option (List UInt8) → Except String (Option α)
  | none => .ok none
  | some [] => .error s!"{description} file is empty: {path}"
  | some bytes =>
    match c.fromSlice bytes with
    | .error error => .error s!"invalid {description}: {error}"
    | .ok value => .ok (some value)

namespace Files

def empty : Files where
  hardState := none
  log       := none
  snapshot  := none

variable [Json]

-- Reads the lines of the log file. Only what follows the last newline can be a torn record.
def scanLines (snapshotIndex snapshotTerm : Nat) (terminated isEmpty : Bool) :
    (line : Nat) → (previous : Option LogEntry) → (log : List LogEntry) → List (List UInt8) →
    Except String (List LogEntry)
  | _, _, log, [] => .ok log
  | line, previous, log, bytes :: rest =>
    if bytes = [] then
      if rest.isEmpty && (terminated || isEmpty)
      then scanLines snapshotIndex snapshotTerm terminated isEmpty (line + 1) previous log rest
      else .error s!"raft log contains an empty record at line {line}"
    else
      match Json.logEntry.fromSlice bytes with
      | .error error =>
        if rest.isEmpty && !terminated
        then .ok log
        else .error s!"invalid raft log record at line {line}: {error}"
      | .ok entry =>
        match Disk.addRecord snapshotIndex snapshotTerm line previous log entry with
        | .error error => .error error
        | .ok log =>
          scanLines snapshotIndex snapshotTerm terminated isEmpty (line + 1) (some entry) log rest

def readLog (snapshotIndex snapshotTerm : Nat) (bytes : List UInt8) :
    Except String (List LogEntry) :=
  scanLines snapshotIndex snapshotTerm (bytes.getLast? = some newline) bytes.isEmpty 1 none []
    (bytes.splitOn newline)

-- The checks across the files, once each of them is read.
def crossCheck (hardState : Option Meta) (snapshot : Option PersistedSnapshot)
    (log : List LogEntry) : Except String Recovered :=
  let durable := hardState.getD { currentTerm := 0, votedFor := none, commitIndex := 0 }
  let durableTerm := durable.currentTerm
  let commitIndex := durable.commitIndex
  let snapshotIndex := snapshot.elim 0 (·.lastIncludedIndex)
  let snapshotTerm := snapshot.elim 0 (·.lastIncludedTerm)
  let durableTail := log.getLast?.elim snapshotIndex (·.index)
  if hardState.isNone && (snapshot.isSome || !log.isEmpty) then
    .error "raft meta is missing while durable snapshot/log state exists"
  else if snapshotTerm > durableTerm || log.any (·.term > durableTerm) then
    .error s!"durable snapshot/log term exceeds persisted current term {durableTerm}"
  else if commitIndex > durableTail then
    .error (s!"persisted commit index {commitIndex} exceeds durable snapshot/log tail " ++
      s!"{durableTail}")
  else
    .ok {
      currentTerm := durableTerm
      votedFor    := durable.votedFor
      commitIndex := max commitIndex snapshotIndex
      log         := log
      snapshot    := snapshot
    }

def recover (dir : String) (files : Files) : Except String (Option Meta × Recovered) := do
  let hardState ← readOptionalJson Json.hardState (dir ++ "/meta") "raft meta" files.hardState
  if hardState.any fun m => m.currentTerm = 0 && m.votedFor.isSome then
    .error "raft meta contains a vote in term zero"
  else
    let snapshot ←
      readOptionalJson Json.snapshot (dir ++ "/snapshot") "raft snapshot" files.snapshot
    let snapshotIndex := snapshot.elim 0 (·.lastIncludedIndex)
    let snapshotTerm := snapshot.elim 0 (·.lastIncludedTerm)
    if (snapshotIndex == 0) != (snapshotTerm == 0) then
      .error s!"snapshot index/term mismatch: index={snapshotIndex}, term={snapshotTerm}"
    else
      let log ← readLog snapshotIndex snapshotTerm (files.log.getD [])
      let recovered ← crossCheck hardState snapshot log
      .ok (hardState, recovered)

end Files

namespace OpenStore

variable [Json]

def saveMeta (store : OpenStore) (hardState : Meta) : OpenStore :=
  { store with files.hardState := some (Json.hardState.toVec hardState) }

-- The bytes that are added to the log file.
def batch (store : OpenStore) (log : List LogEntry) : List UInt8 :=
  Json.logEntry.lines (log.drop store.durableLen)

def appendTail (store : OpenStore) (log : List LogEntry) : OpenStore :=
  if log.length ≤ store.durableLen then store else
    { store with
      files.log := some (store.files.log.getD [] ++ store.batch log), durableLen := log.length }

def rewrite (store : OpenStore) (log : List LogEntry) : OpenStore :=
  { store with files.log := some (Json.logEntry.lines log), durableLen := log.length }

def saveSnapshot (store : OpenStore) (snapshot : PersistedSnapshot) (remaining : List LogEntry) :
    OpenStore :=
  { store with files.snapshot := some (Json.snapshot.toVec snapshot) }.rewrite remaining

-- An append that was interrupted when `written` had reached the file.
def interrupted (store : OpenStore) (written : List UInt8) : Files :=
  { store.files with log := some (store.files.log.getD [] ++ written) }

end OpenStore

namespace Files

variable [Json]

-- Opening rewrites the log file to what is trusted, and gives a fresh shard its first hard state.
def openStore (dir : String) (files : Files) : Except String (OpenStore × Recovered) := do
  let (hardState, recovered) ← files.recover dir
  let store := OpenStore.rewrite { dir, files, durableLen := 0 } recovered.log
  if hardState.isSome then
    .ok (store, recovered)
  else
    .ok (store.saveMeta { currentTerm := 0, votedFor := none, commitIndex := 0 }, recovered)

end Files
