import FiduciaNode.Http.Coordination
import FiduciaNode.Persist.Codec
import FiduciaNode.Persist.Theorems.RoundTrip

open Text

namespace Command

variable [OtherCommands] {c : Command}

-- The value that the caller may choose freely, if the command has one.
def value : Command → Option Value
  | taskCreate _ _ payload _ => some payload
  | taskProgress _ _ _ _ checkpoint => some checkpoint
  | taskComplete _ _ _ result => some result
  | effectPrepare _ _ payload _ _ _ => some payload
  | effectCommit _ result => some result
  | handoffOffer _ _ _ _ _ context _ => some context
  | claimAssert _ _ _ value _ _ _ _ => some value
  | _ => none

def confidence : Command → Option Float32
  | decisionVote _ _ _ confidence _ _ _ => some confidence
  | claimAssert _ _ _ _ confidence _ _ _ => some confidence
  | _ => none

-- The commands of tasks, effects, handoffs, decisions and claims.
def isFollowed : Command → Bool
  | taskCreate .. | taskClaim .. | taskProgress .. | taskComplete .. | taskFail .. | taskCancel ..
  | effectPrepare .. | effectApprove .. | effectCommit .. | effectAbort .. | handoffOffer ..
  | handoffAccept .. | handoffReject .. | decisionPropose .. | decisionVote .. | claimAssert ..
  | claimSupport .. | claimContest .. | claimResolve .. | claimSupersede .. => true
  | _ => false

omit [OtherCommands] in
theorem read_write_policy (policy : DecisionPolicy) : Text.read (Text.write policy) = some policy := by
  cases policy <;> rfl

theorem ofText_tagged {op : String} {fields : List (String × Text)} {reader : Text → Option Command}
    (found : readers.lookup op = some reader) : ofText (tagged op fields) = reader (tagged op fields) := by
  have tag : (tagged op fields).field "op" = some op := rfl
  simp only [ofText, tag, Option.bind_eq_bind, Option.bind_some, found]

theorem ofText_toText (h : c.isFollowed) :
    ofText c.toText = if ∀ x ∈ c.confidence, x.isFinite then some c else none := by
  cases c <;> try contradiction
  case decisionPropose =>
    rw [toText, ofText_tagged rfl]
    simp [tagged, field, confidence, List.lookup, read_write_policy]
  case decisionVote _ _ _ x _ _ _ =>
    rw [toText, ofText_tagged rfl]
    cases finite : x.isFinite <;>
      simp [tagged, field, confidence, List.lookup, read_write_float, finite]
  case claimAssert _ _ _ _ x _ _ _ =>
    rw [toText, ofText_tagged rfl]
    cases finite : x.isFinite <;>
      simp [tagged, field, confidence, List.lookup, read_write_float, finite]
  all_goals
    rw [toText, ofText_tagged rfl]
    simp [tagged, field, confidence, List.lookup]

omit [OtherCommands] in
theorem depth_policy (policy : DecisionPolicy) : (Text.write policy).depth = 1 := by
  cases policy <;> rfl

-- A command adds one level to the value in it.
theorem depth_toText (h : c.isFollowed) {n : Nat} (le : 2 ≤ n) :
    c.toText.depth ≤ n ↔ ∀ v ∈ c.value, (ofValue v).depth + 1 ≤ n := by
  have written (v : Value) : (Text.write v).depth = (ofValue v).depth := rfl
  have number (n : Option Nat) : (Text.write n).depth = 0 := depth_option depth_nat n
  have text (s : Option String) : (Text.write s).depth = 0 := depth_option depth_string s
  have texts (l : List String) : (Text.write l).depth = 1 := depth_list depth_string l
  cases c <;> try contradiction
  all_goals
    simp [toText, tagged, depth, depthFields, value, written, number, text, texts, depth_policy]
    omega

end Command

namespace LogEntry

variable [OtherCommands] {entry : LogEntry} {c : Command}

theorem read_command (h : c.isFollowed) :
    Text.read (Text.write (some c)) = if ∀ x ∈ c.confidence, x.isFinite then some (some c) else none := by
  have read : Text.read c.toText = if ∀ x ∈ c.confidence, x.isFinite then some c else none := c.ofText_toText h
  have object : ∃ fields, c.toText = object fields := by cases c <;> first | contradiction | exact ⟨_, rfl⟩
  obtain ⟨fields, eq⟩ := object
  rw [show Text.write (some c) = c.toText from rfl]
  rw [eq] at read ⊢
  rw [show Text.read (Text.object fields) = (Text.read (Text.object fields) : Option Command).map some from rfl, read]
  split <;> rfl

-- The entry adds one more level around its command.
theorem depth_toText (followed : c.isFollowed) (command : entry.command = some c) :
    entry.toText.depth ≤ maxDepth ↔ ∀ v ∈ c.value, (ofValue v).depth + 2 ≤ maxDepth := by
  have nested := Command.depth_toText followed (show 2 ≤ maxDepth - 1 by decide)
  have wrapped : entry.toText.depth = 1 + c.toText.depth := by
    have : (Text.write (some c)).depth = c.toText.depth := rfl
    simp [toText, Text.depth, depthFields, command, this]
  rw [wrapped, Nat.add_comm, ← Nat.le_sub_iff_add_le (by decide), nested]
  refine forall₂_congr fun v _ => ?_
  simp only [maxDepth]
  omega

theorem ofText_toText (followed : c.isFollowed) (command : entry.command = some c) :
    ofText entry.toText = if ∀ x ∈ c.confidence, x.isFinite then some entry else none := by
  obtain ⟨term, index, proposedAtMs, _⟩ := entry
  cases command
  simp only [ofText, toText, field, fieldOr, List.lookup]
  simp [read_command followed]
  split <;> simp

theorem readBack_eq (followed : c.isFollowed) (command : entry.command = some c) :
    entry.readBack = if (∀ v ∈ c.value, (ofValue v).depth + 2 ≤ maxDepth) ∧ ∀ x ∈ c.confidence, x.isFinite
      then some entry else none := by
  simp only [readBack, parse, depth_toText followed command, Option.bind_eq_bind]
  by_cases shallow : ∀ v ∈ c.value, (ofValue v).depth + 2 ≤ maxDepth
  case neg =>
    rw [if_neg shallow, if_neg fun h => shallow h.1]
    rfl
  case pos =>
    rw [if_pos shallow, Option.bind_some, ofText_toText followed command]
    exact if_congr ⟨fun finite => ⟨shallow, finite⟩, And.right⟩ rfl rfl

end LogEntry

namespace Http.Write

-- The value in the body of a request that the caller may choose freely.
def value : Write → Option Value
  | tasks (.create body) => some body.payload
  | tasks (.progress body) => some body.checkpoint
  | tasks (.complete body) => some body.result
  | effects (.prepare body) => some body.payload
  | effects (.commit body) => some body.result
  | handoffs (.offer body) => some body.context
  | claims (.assert body) => some body.value
  | _ => none

def confidence : Write → Option Float32
  | decisions (.vote body) => some body.confidence
  | claims (.assert body) => some body.confidence
  | _ => none

-- The requests to decisions, claims, tasks, effects and handoffs.
def isFollowed : Write → Bool
  | decisions _ | claims _ | tasks _ | effects _ | handoffs _ => true
  | _ => false

-- The value leaves room for the two levels around it, and the confidence is a number that can be written.
def Writable (write : Write) : Prop :=
  (∀ v ∈ write.value, (ofValue v).depth + 2 ≤ maxDepth) ∧ ∀ x ∈ write.confidence, x.isFinite

instance (write : Write) : Decidable write.Writable :=
  inferInstanceAs (Decidable (_ ∧ _))

variable [External] {write : Write} {org : OrgScope} {command : Command}

-- The handlers pass both of them on as they are.
theorem handle_kept (followed : write.isFollowed) (accepted : write.handle org = .ok command) :
    command.isFollowed ∧ command.value = write.value ∧ command.confidence = write.confidence := by
  cases write <;> try contradiction
  all_goals
    rename_i request
    cases request
    all_goals
      obtain ⟨_, accepted⟩ := Except.seq_eq_ok_iff.mp accepted
      cases accepted
      exact ⟨rfl, rfl, rfl⟩

end Http.Write

-- What is taken as given of the parser: a text has one line, and one that is cut off is refused.
structure Json.Given [Json] [OtherCommands] (entry : LogEntry) : Prop where
  ne_nil  : Json.logEntry.toVec entry ≠ []
  newline : newline ∉ Json.logEntry.toVec entry
  torn    : ∀ p, p <+: Json.logEntry.toVec entry → p ≠ Json.logEntry.toVec entry →
              ∃ e, Json.logEntry.fromSlice p = .error e
  read    : (Json.logEntry.fromSlice (Json.logEntry.toVec entry)).toOption = entry.readBack

namespace Json.Given

variable [Json] [OtherCommands] {entry : LogEntry}

theorem refused (given : Json.Given entry) (unread : entry.readBack = none) :
    ∃ e, Json.logEntry.fromSlice (Json.logEntry.toVec entry) = .error e := by
  have read := given.read
  rw [unread] at read
  cases parsed : Json.logEntry.fromSlice (Json.logEntry.toVec entry)
  case error e => exact ⟨e, rfl⟩
  case ok => simp [parsed, Except.toOption] at read

theorem framed (given : Json.Given entry) (readBack : entry.readBack = some entry) :
    Json.logEntry.Framed entry where
  ne_nil  := given.ne_nil
  newline := given.newline
  torn    := given.torn
  decode  := by
    have read := given.read
    rw [readBack] at read
    cases parsed : Json.logEntry.fromSlice (Json.logEntry.toVec entry)
    case error => simp [parsed, Except.toOption] at read
    case ok => simpa [parsed, Except.toOption] using read

end Json.Given

namespace Files

variable [Json] {store : OpenStore} {s : Saved} {entry : LogEntry}

theorem readLog_refused {snapshotIndex snapshotTerm : Nat} {log : List LogEntry} {recovered : List LogEntry}
    {e : String} (c : Continues snapshotIndex log) (framed : ∀ entry ∈ log, Json.logEntry.Framed entry)
    (ne_nil : Json.logEntry.toVec entry ≠ []) (single : newline ∉ Json.logEntry.toVec entry)
    (refused : Json.logEntry.fromSlice (Json.logEntry.toVec entry) = .error e) :
    readLog snapshotIndex snapshotTerm (Json.logEntry.lines (log ++ [entry])) ≠ .ok recovered := by
  have lines : ∀ e ∈ log ++ [entry], newline ∉ Json.logEntry.toVec e := by
    simp only [List.mem_append, or_imp, forall_and, List.mem_singleton, forall_eq]
    exact ⟨fun e mem => (framed e mem).newline, single⟩
  have split : (Json.logEntry.lines (log ++ [entry]) ++ []).splitOn newline = _ :=
    Codec.splitOn_lines lines (by simp)
  have none_eq : (none : Option LogEntry) = ([] : List LogEntry).getLast? := rfl
  rw [List.append_nil] at split
  rw [readLog, split, List.map_append, List.append_assoc, none_eq, scanLines_append (by simpa using c) framed]
  simp [scanLines, ne_nil, refused]

theorem recover_log {dir : String} {files : Files} {hardState : Option Meta} {recovered : Recovered} {s : Saved}
    (snapshot : readOptionalJson Json.snapshot (dir ++ "/snapshot") "raft snapshot" files.snapshot = .ok s.snapshot)
    (ok : files.recover dir = .ok (hardState, recovered)) :
    readLog s.snapshotIndex s.snapshotTerm (files.log.getD []) = .ok recovered.log := by
  simp only [recover, Except.bind_eq_ok_iff, Except.ite_error_eq_ok_iff, snapshot] at ok
  obtain ⟨_, _, _, _, eq, _, log, read, _, check, eq'⟩ := ok
  cases eq
  cases eq'
  simp only [crossCheck, Except.ite_error_eq_ok_iff] at check
  cases check.2.2.2
  exact read

-- A log that was appended to is read back if each of its entries is.
theorem openStore_appended (holds : store.Holds s) (valid : s.Valid)
    (framed : ∀ e ∈ s.log ++ [entry], Json.logEntry.Framed e)
    (continues : Continues s.snapshotIndex (s.log ++ [entry])) (term : entry.term ≤ s.hardState.currentTerm) :
    ∃ store', (store.appendTail (s.log ++ [entry])).files.openStore store.dir =
      .ok (store', { s.recovered with log := s.log ++ [entry] }) := by
  have legal : s.Legal (.appendTail (s.log ++ [entry])) := ⟨[entry], rfl⟩
  have holds' : (store.appendTail (s.log ++ [entry])).Holds { s with log := s.log ++ [entry] } := holds.call legal
  have dir : (store.appendTail (s.log ++ [entry])).dir = store.dir := @OpenStore.calls_dir _ store [.appendTail _]
  have valid' : Saved.Valid { s with log := s.log ++ [entry] } := { valid with
    continues
    terms e mem := by
      rcases List.mem_append.mp mem with mem | mem
      case inl => exact valid.terms e mem
      case inr => exact List.mem_singleton.mp mem ▸ term
    commit := by
      have := valid.commit
      simp [Saved.snapshotIndex] at this ⊢
      omega
  }
  generalize store.appendTail (s.log ++ [entry]) = appended at holds' dir
  have whole : Continues s.snapshotIndex (s.log ++ [entry] ++ []) := by rwa [List.append_nil]
  have framed : ∀ e ∈ s.log ++ [entry] ++ [], Json.logEntry.Framed e := by rwa [List.append_nil]
  obtain ⟨k, recovered⟩ := recover_interrupted holds' valid' whole (by simp) framed List.nil_prefix
  have same : appended.interrupted [] = appended.files := by
    obtain ⟨dir, ⟨hardState, log, snapshot⟩, durableLen⟩ := appended
    have : log = _ := holds'.log
    simp [OpenStore.interrupted, this]
  have recovered : appended.files.recover store.dir =
      .ok (some s.hardState, { s.recovered with log := s.log ++ [entry] }) := by
    rw [same, dir, List.take_nil, List.append_nil] at recovered
    exact recovered
  exact ⟨_, by simp [openStore, recovered, bind, Except.bind]; rfl⟩

theorem openStore_refused {e : String} {store' : OpenStore} {recovered : Recovered} (holds : store.Holds s)
    (continues : Continues s.snapshotIndex s.log) (framed : ∀ e ∈ s.log, Json.logEntry.Framed e)
    (ne_nil : Json.logEntry.toVec entry ≠ []) (single : newline ∉ Json.logEntry.toVec entry)
    (refused : Json.logEntry.fromSlice (Json.logEntry.toVec entry) = .error e) :
    (store.appendTail (s.log ++ [entry])).files.openStore store.dir ≠ .ok (store', recovered) := by
  intro opened
  have legal : s.Legal (.appendTail (s.log ++ [entry])) := ⟨[entry], rfl⟩
  have holds' : (store.appendTail (s.log ++ [entry])).Holds { s with log := s.log ++ [entry] } := holds.call legal
  have dir : (store.appendTail (s.log ++ [entry])).dir = store.dir := @OpenStore.calls_dir _ store [.appendTail _]
  have ⟨⟨hardState, log⟩, found, _⟩ := Except.bind_eq_ok_iff.mp opened
  have read := recover_log (dir ▸ holds'.snapshot) found
  rw [holds'.log, Option.getD_some] at read
  exact readLog_refused continues framed ne_nil single refused read

variable [OtherCommands] {command : Command}

section Sample

-- One record between two braces, and it reads as the text of the entry does.
def sampleText (entry : LogEntry) : Codec LogEntry where
  toVec _ := [123, 125]
  fromSlice
    | [123, 125] => entry.readBack.elim (.error "invalid type: null, expected f32") .ok
    | _ => .error "EOF while parsing an object"

omit [Json] in
theorem given_sampleText (entry : LogEntry) :
    letI : Json := ⟨sampleText entry, sampleHardState, sampleSnapshot⟩
    Json.Given entry := by
  let : Json := ⟨sampleText entry, sampleHardState, sampleSnapshot⟩
  constructor
  case ne_nil => simp [sampleText]
  case newline => simp [sampleText, newline]
  case torn =>
    intro p le ne
    rcases p with _ | ⟨a, _ | ⟨_, _ | _⟩⟩
    case nil => exact ⟨_, rfl⟩
    case cons.nil =>
      obtain rfl : a = 123 := (List.cons_prefix_cons.mp le).1
      exact ⟨_, rfl⟩
    case cons.cons.nil => exact absurd (le.eq_of_length rfl) ne
    case cons.cons.cons =>
      have := le.length_le
      simp [sampleText] at this
  case read =>
    cases h : entry.readBack <;> simp [sampleText, h, Except.toOption]

-- The state of a shard that has just entered its first term.
def sampleSaved : Saved := ⟨⟨1, none, 0⟩, [], none⟩

def sampleStore : OpenStore := ⟨"d", ⟨some (sampleHardState.toVec ⟨1, none, 0⟩), some [], none⟩, 0⟩

omit [Json] [OtherCommands] in
theorem sampleSaved_valid : sampleSaved.Valid where
  vote          := nofun
  snapshot      := Iff.rfl
  snapshot_term := by decide
  continues     := ⟨nofun, nofun, .nil, nofun⟩
  terms         := nofun
  commit        := by decide

omit [Json] [OtherCommands] in
theorem sampleStore_holds {logEntry : Codec LogEntry} :
    letI : Json := ⟨logEntry, sampleHardState, sampleSnapshot⟩
    sampleStore.Holds sampleSaved := by
  let : Json := ⟨logEntry, sampleHardState, sampleSnapshot⟩
  exact ⟨rfl, rfl, rfl, rfl⟩

def arrays : Nat → Value
  | 0 => .null
  | n + 1 => .array [arrays n]

abbrev noOthers : OtherCommands := ⟨fun _ => .null, fun _ => none⟩

-- The shard does not open again once the entry is in its log.
def Refused (entry : LogEntry) : Prop :=
  letI : Json := ⟨sampleText entry, sampleHardState, sampleSnapshot⟩
  Json.Given entry ∧ ∀ opened, (sampleStore.appendTail [entry]).files.openStore "d" ≠ .ok opened

omit [Json] in
theorem refused_of_unwritable [External] {write : Http.Write} {org : OrgScope} (followed : write.isFollowed)
    (accepted : write.handle org = .ok command) (unwritable : ¬ write.Writable) :
    Refused ⟨1, 1, 0, some command⟩ := by
  let entry : LogEntry := ⟨1, 1, 0, some command⟩
  let : Json := ⟨sampleText entry, sampleHardState, sampleSnapshot⟩
  have given : Json.Given entry := given_sampleText entry
  have ⟨followed, value, confidence⟩ := write.handle_kept followed accepted
  have readBack : entry.readBack = none := by
    rw [LogEntry.readBack_eq followed rfl, value, confidence]
    exact if_neg unwritable
  have ⟨_, refused⟩ := given.refused readBack
  refine ⟨given, fun ⟨store', recovered⟩ => ?_⟩
  exact openStore_refused sampleStore_holds sampleSaved_valid.continues nofun given.ne_nil given.newline refused

end Sample

end Files
