import FiduciaNode.Persist.Files
import FiduciaNode.Primitives.Result

-- A log that continues a snapshot: its indices follow each other, and its terms do not descend.
structure Continues (snapshotIndex : Nat) (log : List LogEntry) : Prop where
  index   : ∀ i entry, log[i]? = some entry → entry.index = snapshotIndex + i + 1
  bounded : ∀ entry ∈ log, entry.index ≤ U64.max
  terms   : log.Pairwise (·.term ≤ ·.term)
  term_ne : ∀ entry ∈ log, entry.term ≠ 0

namespace Continues

variable {snapshotIndex : Nat} {log log₁ log₂ : List LogEntry} {entry : LogEntry}

theorem of_append (c : Continues snapshotIndex (log₁ ++ log₂)) : Continues snapshotIndex log₁ where
  index i entry h := c.index i entry (by rw [List.getElem?_append_left (by grind), h])
  bounded entry h := c.bounded entry (List.mem_append_left _ h)
  terms           := (List.pairwise_append.mp c.terms).1
  term_ne entry h := c.term_ne entry (List.mem_append_left _ h)

theorem tail_index (c : Continues snapshotIndex log) :
    log.getLast?.elim snapshotIndex (·.index) = snapshotIndex + log.length := by
  cases h : log.getLast?
  case none => simp [List.getLast?_eq_none_iff.mp h]
  case some entry =>
    have ne : log ≠ [] := by
      rintro rfl
      simp at h
    have pos := List.length_pos_iff.mpr ne
    rw [List.getLast?_eq_getElem?] at h
    have := c.index _ entry h
    simp only [Option.elim_some]
    omega

-- What follows a log that was read so far is read as the next entry.
theorem addRecord (c : Continues snapshotIndex (log ++ [entry])) (snapshotTerm line : Nat) :
    Disk.addRecord snapshotIndex snapshotTerm line log.getLast? log entry =
    .ok (log ++ [entry]) := by
  have index : entry.index = snapshotIndex + log.length + 1 := c.index log.length entry (by simp)
  have bounded := c.bounded entry (by simp)
  have term_ne := c.term_ne entry (by simp)
  have tail := c.of_append.tail_index
  have suffix : (U64.checkedAdd snapshotIndex log.length).bind (U64.checkedAdd · 1) =
      some entry.index := by
    rw [U64.checkedAdd_eq_some_iff.mpr ⟨rfl, by omega⟩]
    exact U64.checkedAdd_eq_some_iff.mpr ⟨index.symm, bounded⟩
  have descends : ¬entry.term < log.getLast?.elim 0 (·.term) := by
    cases h : log.getLast?
    case none => simp
    case some previous =>
      have := (List.pairwise_append.mp c.terms).2.2 previous (List.mem_of_getLast? h) entry (by simp)
      simpa using this
  have expected : log.getLast?.elim (some entry.index) (U64.checkedAdd ·.index 1) =
      some entry.index := by
    cases h : log.getLast?
    case none => rfl
    case some previous =>
      simp only [h, Option.elim_some] at tail ⊢
      exact U64.checkedAdd_eq_some_iff.mpr ⟨by omega, bounded⟩
  have ne : entry.index ≠ 0 := by omega
  have gt : ¬entry.index ≤ snapshotIndex := by omega
  have ne' : entry.index ≠ snapshotIndex := by omega
  simp [Disk.addRecord, ne, term_ne, descends, expected, ne', gt, suffix]

end Continues

namespace Files

variable [Json] {snapshotIndex snapshotTerm line : Nat} {terminated isEmpty : Bool}
variable {log l : List LogEntry} {tail : List UInt8} {rest : List (List UInt8)}

-- The complete lines, by induction on what is still to be read.
theorem scanLines_append (c : Continues snapshotIndex (log ++ l))
    (framed : ∀ entry ∈ l, Json.logEntry.Framed entry) :
    scanLines snapshotIndex snapshotTerm terminated isEmpty line log.getLast? log
      (l.map Json.logEntry.toVec ++ rest) =
    scanLines snapshotIndex snapshotTerm terminated isEmpty (line + l.length)
      (log ++ l).getLast? (log ++ l) rest := by
  induction l generalizing log line
  case nil => simp
  case cons entry l ih =>
    have ⟨f, fs⟩ := List.forall_mem_cons.mp framed
    have c' : Continues snapshotIndex ((log ++ [entry]) ++ l) := by simpa using c
    have read := c'.of_append.addRecord snapshotTerm line
    simp only [List.map_cons, List.cons_append, scanLines, f.ne_nil, ↓reduceIte, f.decode, read]
    have last : some entry = (log ++ [entry]).getLast? := by simp
    rw [last, ih c' fs]
    simp [Nat.add_comm, Nat.add_left_comm]

-- What is left at the end: nothing, a record without its newline, or a part of a record.
theorem scanLines_tail {next : Option LogEntry} (h : tail = [] → terminated ∨ isEmpty)
    (torn : tail ≠ [] → ¬terminated)
    (cut : tail = [] ∨ ∃ entry, next = some entry ∧ Continues snapshotIndex (log ++ [entry]) ∧
      Json.logEntry.Framed entry ∧ tail <+: Json.logEntry.toVec entry) :
    ∃ extra, scanLines snapshotIndex snapshotTerm terminated isEmpty line log.getLast? log [tail] =
        .ok (log ++ extra) ∧ (extra = [] ∨ extra = next.toList) := by
  by_cases nil : tail = []
  case pos =>
    have := h nil
    exact ⟨[], by simp_all [scanLines], .inl rfl⟩
  case neg =>
    obtain ⟨entry, rfl, c, f, within⟩ := cut.resolve_left nil
    by_cases whole : tail = Json.logEntry.toVec entry
    case pos =>
      have read := c.addRecord snapshotTerm line
      exact ⟨[entry], by simp [scanLines, whole, f.ne_nil, f.decode, read], .inr rfl⟩
    case neg =>
      have ⟨e, error⟩ := f.torn tail within whole
      have := torn nil
      exact ⟨[], by simp_all [scanLines], .inl rfl⟩

-- Complete lines, and what follows the last newline.
theorem readLog_append {next : Option LogEntry} (snapshotTerm : Nat) (c : Continues snapshotIndex l)
    (framed : ∀ entry ∈ l, Json.logEntry.Framed entry) (noNewline : newline ∉ tail)
    (cut : tail = [] ∨ ∃ entry, next = some entry ∧ Continues snapshotIndex (l ++ [entry]) ∧
      Json.logEntry.Framed entry ∧ tail <+: Json.logEntry.toVec entry) :
    ∃ extra, readLog snapshotIndex snapshotTerm (Json.logEntry.lines l ++ tail) =
        .ok (l ++ extra) ∧ (extra = [] ∨ extra = next.toList) := by
  have none_eq : (none : Option LogEntry) = ([] : List LogEntry).getLast? := rfl
  rw [readLog, Codec.splitOn_lines (fun entry h => (framed entry h).newline) noNewline, none_eq,
    scanLines_append (by simpa using c) framed, List.nil_append]
  refine scanLines_tail ?_ ?_ cut
  case refine_1 =>
    rintro rfl
    by_cases nil : l = []
    case pos => simp [nil]
    case neg => simp [Codec.getLast_lines nil]
  case refine_2 =>
    intro ne
    rw [decide_eq_true_eq, List.getLast?_append_of_ne_nil _ ne]
    exact fun h => noNewline (List.mem_of_getLast? h)

-- A log file that ends with a prefix of a batch is read up to the last complete record.
theorem readLog_interrupted {batch : List LogEntry} {written : List UInt8} (snapshotTerm : Nat)
    (c : Continues snapshotIndex (log ++ batch))
    (framed : ∀ entry ∈ log ++ batch, Json.logEntry.Framed entry)
    (within : written <+: Json.logEntry.lines batch) :
    ∃ k, readLog snapshotIndex snapshotTerm (Json.logEntry.lines log ++ written) =
      .ok (log ++ batch.take k) := by
  have ⟨k, tail, _, cut, last⟩ := Codec.prefix_lines within
  have prefix_of (j : Nat) : Continues snapshotIndex (log ++ batch.take j) := by
    have whole : Continues snapshotIndex ((log ++ batch.take j) ++ batch.drop j) := by
      rwa [List.append_assoc, List.take_append_drop]
    exact whole.of_append
  have framed' : ∀ entry ∈ log ++ batch.take k, Json.logEntry.Framed entry := by
    intro entry h
    refine framed entry ?_
    rcases List.mem_append.mp h with h | h
    case inl => exact List.mem_append_left _ h
    case inr => exact List.mem_append_right _ (List.mem_of_mem_take h)
  have noNewline : newline ∉ tail := by
    rcases last with rfl | ⟨entry, next, within⟩
    case inl => simp
    case inr =>
      have f := framed entry (List.mem_append_right _ (List.mem_of_getElem? next))
      exact fun h => f.newline (within.subset h)
  have cut' : tail = [] ∨ ∃ entry, batch[k]? = some entry ∧
      Continues snapshotIndex ((log ++ batch.take k) ++ [entry]) ∧
      Json.logEntry.Framed entry ∧ tail <+: Json.logEntry.toVec entry := by
    refine last.imp_right fun ⟨entry, next, within⟩ => ⟨entry, next, ?_, ?_, within⟩
    case refine_1 =>
      have c := prefix_of (k + 1)
      rwa [List.take_add_one, next, Option.toList_some, ← List.append_assoc] at c
    case refine_2 => exact framed entry (List.mem_append_right _ (List.mem_of_getElem? next))
  have ⟨extra, read, hx⟩ := readLog_append snapshotTerm (prefix_of k) framed' noNewline cut'
  rw [Codec.lines_append, List.append_assoc, ← cut] at read
  rcases hx with rfl | rfl
  case inl => exact ⟨k, by simpa using read⟩
  case inr => exact ⟨k + 1, by rw [read, List.take_add_one, List.append_assoc]⟩

end Files

-- What the store has acknowledged: the last hard state, log and snapshot that were saved.
structure Saved where
  hardState : Meta
  log       : List LogEntry
  snapshot  : Option PersistedSnapshot

inductive Call
  | saveMeta (hardState : Meta)
  | appendTail (log : List LogEntry)
  | rewrite (log : List LogEntry)
  | saveSnapshot (snapshot : PersistedSnapshot) (remaining : List LogEntry)

namespace Saved

def snapshotIndex (s : Saved) : Nat :=
  s.snapshot.elim 0 (·.lastIncludedIndex)

def snapshotTerm (s : Saved) : Nat :=
  s.snapshot.elim 0 (·.lastIncludedTerm)

def call (s : Saved) : Call → Saved
  | .saveMeta hardState => { s with hardState }
  | .appendTail log => { s with log }
  | .rewrite log => { s with log }
  | .saveSnapshot snapshot remaining => { s with snapshot := some snapshot, log := remaining }

-- An append only ever extends the log, and what is saved can be read back.
def Legal [Json] (s : Saved) : Call → Prop
  | .saveMeta hardState => Json.hardState.RoundTrips hardState
  | .appendTail log => s.log <+: log
  | .rewrite _ => True
  | .saveSnapshot snapshot _ => Json.snapshot.RoundTrips snapshot

def calls (s : Saved) (cs : List Call) : Saved :=
  cs.foldl call s

def AllLegal [Json] : Saved → List Call → Prop
  | _, [] => True
  | s, c :: cs => s.Legal c ∧ (s.call c).AllLegal cs

end Saved

theorem Codec.RoundTrips.read {α : Type} {codec : Codec α} {a : α} (r : codec.RoundTrips a)
    (path description : String) :
    readOptionalJson codec path description (some (codec.toVec a)) = .ok (some a) := by
  have ne := r.ne_nil
  have decode := r.decode
  generalize codec.toVec a = bytes at ne decode
  cases bytes
  case nil => contradiction
  case cons => simp [readOptionalJson, decode]

namespace OpenStore

variable [Json] {store : OpenStore} {s : Saved} {c : Call}

def call (store : OpenStore) : Call → OpenStore
  | .saveMeta hardState => store.saveMeta hardState
  | .appendTail log => store.appendTail log
  | .rewrite log => store.rewrite log
  | .saveSnapshot snapshot remaining => store.saveSnapshot snapshot remaining

def calls (store : OpenStore) (cs : List Call) : OpenStore :=
  cs.foldl call store

-- The files hold what was acknowledged, and the count of durable entries is right.
structure Holds (store : OpenStore) (s : Saved) : Prop where
  hardState  : readOptionalJson Json.hardState (store.dir ++ "/meta") "raft meta"
                 store.files.hardState = .ok (some s.hardState)
  snapshot   : readOptionalJson Json.snapshot (store.dir ++ "/snapshot") "raft snapshot"
                 store.files.snapshot = .ok s.snapshot
  log        : store.files.log = some (Json.logEntry.lines s.log)
  durableLen : store.durableLen = s.log.length

theorem Holds.call (h : store.Holds s) (legal : s.Legal c) : (store.call c).Holds (s.call c) := by
  cases c
  case saveMeta => exact { h with hardState := legal.read _ _ }
  case rewrite => exact { h with log := rfl, durableLen := rfl }
  case saveSnapshot => exact { h with snapshot := legal.read _ _, log := rfl, durableLen := rfl }
  case appendTail log =>
    obtain ⟨added, rfl⟩ := legal
    simp only [OpenStore.call, Saved.call, OpenStore.appendTail, h.durableLen]
    split
    case isTrue le =>
      have nil : added = [] := by simpa using le
      exact nil ▸ by simpa using h
    case isFalse =>
      refine { h with log := ?_, durableLen := rfl }
      simp [OpenStore.batch, h.log, h.durableLen, Codec.lines_append]

theorem calls_dir {cs : List Call} : (store.calls cs).dir = store.dir := by
  induction cs generalizing store
  case nil => rfl
  case cons c cs ih =>
    refine ih.trans ?_
    cases c
    case appendTail =>
      simp only [OpenStore.call, OpenStore.appendTail]
      split <;> rfl
    all_goals rfl

theorem Holds.calls {cs : List Call} (h : store.Holds s) (legal : s.AllLegal cs) :
    (store.calls cs).Holds (s.calls cs) := by
  induction cs generalizing store s
  case nil => exact h
  case cons c cs ih => exact ih (h.call legal.1) legal.2

end OpenStore

namespace Saved

-- What is read back of it.
def recovered (s : Saved) : Recovered where
  currentTerm := s.hardState.currentTerm
  votedFor    := s.hardState.votedFor
  commitIndex := max s.hardState.commitIndex s.snapshotIndex
  log         := s.log
  snapshot    := s.snapshot

-- The log continues the snapshot within the term and the commit index of the hard state.
structure Valid (s : Saved) : Prop where
  vote          : s.hardState.currentTerm = 0 → s.hardState.votedFor = none
  snapshot      : s.snapshotIndex = 0 ↔ s.snapshotTerm = 0
  snapshot_term : s.snapshotTerm ≤ s.hardState.currentTerm
  continues     : Continues s.snapshotIndex s.log
  terms         : ∀ entry ∈ s.log, entry.term ≤ s.hardState.currentTerm
  commit        : s.hardState.commitIndex ≤ s.snapshotIndex + s.log.length

end Saved

namespace Files

variable [Json] {dir : String} {files : Files} {store : OpenStore} {s : Saved}

omit [Json] in
theorem crossCheck_eq_ok {log : List LogEntry} (v : s.Valid) (c : Continues s.snapshotIndex log)
    (terms : ∀ entry ∈ log, entry.term ≤ s.hardState.currentTerm) (le : s.log.length ≤ log.length) :
    crossCheck (some s.hardState) s.snapshot log = .ok { s.recovered with log } := by
  have tail := c.tail_index
  have commit : ¬s.hardState.commitIndex > log.getLast?.elim s.snapshotIndex (·.index) := by
    have := v.commit
    omega
  have term : ¬(s.snapshotTerm > s.hardState.currentTerm) := by
    have := v.snapshot_term
    omega
  have terms : (log.any fun entry => entry.term > s.hardState.currentTerm) = false := by
    simpa using terms
  simp only [Saved.snapshotIndex, Saved.snapshotTerm] at commit term
  simp [crossCheck, Saved.recovered, Saved.snapshotIndex, terms, term, commit]

theorem recover_interrupted (h : store.Holds s) {batch : List LogEntry} {written : List UInt8}
    (v : Saved.Valid s) (c : Continues s.snapshotIndex (s.log ++ batch))
    (terms : ∀ entry ∈ batch, entry.term ≤ s.hardState.currentTerm)
    (framed : ∀ entry ∈ s.log ++ batch, Json.logEntry.Framed entry)
    (within : written <+: store.batch (s.log ++ batch)) :
    ∃ k, (store.interrupted written).recover store.dir =
      .ok (some s.hardState, { s.recovered with log := s.log ++ batch.take k }) := by
  have within : written <+: Json.logEntry.lines batch := by
    simpa [OpenStore.batch, h.durableLen] using within
  have ⟨k, read⟩ := readLog_interrupted s.snapshotTerm c framed within
  have c' : Continues s.snapshotIndex (s.log ++ batch.take k) := by
    have whole : Continues s.snapshotIndex ((s.log ++ batch.take k) ++ batch.drop k) := by
      rwa [List.append_assoc, List.take_append_drop]
    exact whole.of_append
  have terms' : ∀ entry ∈ s.log ++ batch.take k, entry.term ≤ s.hardState.currentTerm := by
    intro entry h
    rcases List.mem_append.mp h with h | h
    case inl => exact v.terms entry h
    case inr => exact terms entry (List.mem_of_mem_take h)
  have checked := crossCheck_eq_ok v c' terms' (by simp)
  have vote : ((some s.hardState).any fun m => m.currentTerm = 0 && m.votedFor.isSome) = false := by
    have := v.vote
    simp_all
  have mismatch : ((s.snapshotIndex == 0) != (s.snapshotTerm == 0)) = false := by
    have := v.snapshot
    simp_all
  refine ⟨k, ?_⟩
  simp only [Saved.snapshotIndex, Saved.snapshotTerm] at read mismatch
  simp only [recover, OpenStore.interrupted, h.hardState, h.snapshot, h.log, Option.getD_some,
    bind, Except.bind, vote, mismatch, read, checked, Bool.false_eq_true, ↓reduceIte]

theorem recover_eq_ok {hardState : Option Meta} {recovered : Recovered}
    (h : files.recover dir = .ok (hardState, recovered)) :
    (readOptionalJson Json.hardState (dir ++ "/meta") "raft meta" files.hardState = .ok hardState) ∧
    ∃ snapshot log,
      (readOptionalJson Json.snapshot (dir ++ "/snapshot") "raft snapshot" files.snapshot =
        .ok snapshot) ∧
      crossCheck hardState snapshot log = .ok recovered := by
  simp only [recover, Except.bind_eq_ok_iff, Except.ite_error_eq_ok_iff] at h
  have ⟨_, hm, _, _, hs, _, log, _, _, hc, eq⟩ := h
  cases eq
  exact ⟨hm, _, log, hs, hc⟩

-- A store that was opened holds what was recovered.
theorem openStore_holds {recovered : Recovered}
    (zero : Json.hardState.RoundTrips { currentTerm := 0, votedFor := none, commitIndex := 0 })
    (opened : files.openStore dir = .ok (store, recovered)) :
    ∃ s : Saved, store.dir = dir ∧ store.Holds s ∧ s.recovered = recovered := by
  simp only [openStore, Except.bind_eq_ok_iff] at opened
  obtain ⟨⟨hardState, recovered'⟩, read, opened⟩ := opened
  have ⟨hm, snapshot, log, hs, hc⟩ := recover_eq_ok read
  simp only [crossCheck, Except.ite_error_eq_ok_iff] at hc
  have hr := hc.2.2.2
  clear hc
  cases hr
  cases hardState
  case some m =>
    cases opened
    exact ⟨⟨m, log, snapshot⟩, rfl, ⟨hm, hs, rfl, rfl⟩, rfl⟩
  case none =>
    cases opened
    exact ⟨⟨⟨0, none, 0⟩, log, snapshot⟩, rfl, ⟨zero.read _ _, hs, rfl, rfl⟩, rfl⟩

-- The round trip: whatever was saved is read back, and of an append that was interrupted the records
-- that are complete.
theorem recovery_round_trip {recovered : Recovered}
    (zero : Json.hardState.RoundTrips { currentTerm := 0, votedFor := none, commitIndex := 0 })
    (opened : files.openStore dir = .ok (store, recovered)) :
    ∃ s₀ : Saved, s₀.recovered = recovered ∧
      ∀ cs : List Call, s₀.AllLegal cs →
        let s := s₀.calls cs
        ∀ (batch : List LogEntry) (written : List UInt8), s.Valid →
          Continues s.snapshotIndex (s.log ++ batch) →
          (∀ entry ∈ batch, entry.term ≤ s.hardState.currentTerm) →
          (∀ entry ∈ s.log ++ batch, Json.logEntry.Framed entry) →
          written <+: (store.calls cs).batch (s.log ++ batch) →
          ∃ store' k, ((store.calls cs).interrupted written).openStore dir =
            .ok (store', { s.recovered with log := s.log ++ batch.take k }) := by
  have ⟨s₀, hd, holds, hr⟩ := openStore_holds zero opened
  refine ⟨s₀, hr, fun cs legal batch written v c terms framed within => ?_⟩
  have holds := holds.calls legal
  have ⟨k, read⟩ := recover_interrupted holds v c terms framed within
  rw [OpenStore.calls_dir, hd] at read
  exact ⟨_, k, by simp [openStore, read, bind, Except.bind]; rfl⟩

end Files

section Sample

-- Small records between two braces, which is all that the runs below save.
def sampleEntry : Codec LogEntry where
  toVec entry := [123, UInt8.ofNat entry.index, UInt8.ofNat entry.term, 125]
  fromSlice
    | [123, index, term, 125] => .ok ⟨term.toNat, index.toNat, 0, none⟩
    | _ => .error "EOF while parsing an object"

def sampleHardState : Codec Meta where
  toVec m := [123, UInt8.ofNat m.currentTerm, if m.votedFor.isSome then 1 else 0,
    UInt8.ofNat m.commitIndex, 125]
  fromSlice
    | [123, term, vote, commit, 125] =>
      .ok ⟨term.toNat, if vote = 1 then some "x" else none, commit.toNat⟩
    | _ => .error "EOF while parsing an object"

def sampleSnapshot : Codec PersistedSnapshot where
  toVec s := [123, UInt8.ofNat s.lastIncludedIndex, UInt8.ofNat s.lastIncludedTerm, 125]
  fromSlice
    | [123, index, term, 125] => .ok ⟨index.toNat, term.toNat, []⟩
    | _ => .error "EOF while parsing an object"

abbrev sampleJson : Json where
  logEntry  := sampleEntry
  hardState := sampleHardState
  snapshot  := sampleSnapshot

theorem ofNat_ne_newline {n : Nat} (h : n < 10) : newline ≠ UInt8.ofNat n := by
  intro eq
  have := congrArg UInt8.toNat eq
  simp [newline] at this
  omega

theorem sampleEntry_framed {index term : Nat} (hi : index < 10) (ht : term < 10) :
    sampleEntry.Framed ⟨term, index, 0, none⟩ where
  ne_nil  := by simp [sampleEntry]
  decode  := by
    have hi : index % 256 = index := Nat.mod_eq_of_lt (by omega)
    have ht : term % 256 = term := Nat.mod_eq_of_lt (by omega)
    simp [sampleEntry, hi, ht]
  newline := by
    have hi := ofNat_ne_newline hi
    have ht := ofNat_ne_newline ht
    simp only [sampleEntry, List.mem_cons, List.not_mem_nil, or_false, hi, ht, false_or]
    decide
  torn p h ne := by
    have lt : p.length < 4 := Nat.lt_of_le_of_ne h.length_le fun eq => ne (h.eq_of_length eq)
    match p, lt with
    | [], _ | [_], _ | [_, _], _ | [_, _, _], _ =>
      exact ⟨"EOF while parsing an object", by simp [sampleEntry]⟩

end Sample

namespace Files

-- One entry is acknowledged. Of the two that follow, the first and half of the second reach the file.
theorem recovery_round_trip_torn :
    letI := sampleJson
    let e₁ : LogEntry := ⟨1, 1, 0, none⟩
    let batch : List LogEntry := [⟨1, 2, 0, none⟩, ⟨1, 3, 0, none⟩]
    let saves : List Call := [.saveMeta ⟨1, none, 0⟩, .appendTail [e₁]]
    ∃ store recovered, Files.empty.openStore "d" = .ok (store, recovered) ∧
      ∃ store' k, ((store.calls saves).interrupted
          [123, 2, 1, 125, 10, 123, 3]).openStore "d" =
        .ok (store', {
          currentTerm := 1, votedFor := none, commitIndex := 0, log := e₁ :: batch.take k
          snapshot := none
        }) := by
  let := sampleJson
  intro e₁ batch saves
  have zero : Json.hardState.RoundTrips ⟨0, none, 0⟩ := ⟨by decide, rfl⟩
  let store : OpenStore :=
    ⟨"d", ⟨some (sampleHardState.toVec ⟨0, none, 0⟩), some [], none⟩, 0⟩
  have opened : Files.empty.openStore "d" = .ok (store, ⟨0, none, 0, [], none⟩) := rfl
  refine ⟨store, _, opened, ?_⟩
  obtain ⟨⟨⟨term, vote, commit⟩, log, snapshot⟩, hr, h⟩ := recovery_round_trip zero opened
  simp only [Saved.recovered, Saved.snapshotIndex, Recovered.mk.injEq] at hr
  obtain ⟨rfl, rfl, hc, rfl, rfl⟩ := hr
  have hc : commit = 0 := by simpa using hc
  subst hc
  have f₁ : sampleEntry.Framed e₁ := sampleEntry_framed (by decide) (by decide)
  have f₂ : sampleEntry.Framed ⟨1, 2, 0, none⟩ := sampleEntry_framed (by decide) (by decide)
  have f₃ : sampleEntry.Framed ⟨1, 3, 0, none⟩ := sampleEntry_framed (by decide) (by decide)
  have c : Continues 0 (e₁ :: batch) := {
    index i entry h := by
      match i with
      | 0 | 1 | 2 => cases h; rfl
      | _ + 3 => simp [batch] at h
    bounded := by simp [e₁, batch, U64.max]
    terms   := by simp [e₁, batch]
    term_ne := by simp [e₁, batch]
  }
  have c₁ : Continues 0 ([e₁] ++ batch) := c
  refine h saves ?_ batch _ ?_ c (by simp [batch, saves, Saved.calls, Saved.call]) ?_ ?_
  case refine_1 => exact ⟨⟨by decide, rfl⟩, List.nil_prefix, trivial⟩
  case refine_2 =>
    exact {
      vote          := by simp [saves, Saved.calls, Saved.call]
      snapshot      := by simp [saves, Saved.calls, Saved.call, Saved.snapshotIndex, Saved.snapshotTerm]
      snapshot_term := Nat.zero_le _
      continues     := c₁.of_append
      terms         := by simp [saves, Saved.calls, Saved.call, e₁]
      commit        := Nat.zero_le _
    }
  case refine_3 =>
    intro entry h
    simp only [saves, Saved.calls, Saved.call, List.foldl_cons, List.foldl_nil, batch,
      List.cons_append, List.nil_append, List.mem_cons, List.not_mem_nil, or_false] at h
    rcases h with rfl | rfl | rfl
    case inl => exact f₁
    case inr.inl => exact f₂
    case inr.inr => exact f₃
  case refine_4 => exact ⟨[1, 125, 10], rfl⟩

-- A vote is saved for term zero. Nothing else was ever saved, and the store does not open again.
theorem recovery_round_trip_vote_in_term_zero :
    letI := sampleJson
    ∃ store recovered, Files.empty.openStore "d" = .ok (store, recovered) ∧
      Json.hardState.RoundTrips ⟨0, some "x", 0⟩ ∧
      (store.saveMeta ⟨0, some "x", 0⟩).files.openStore "d" =
        .error "raft meta contains a vote in term zero" := by
  let := sampleJson
  exact ⟨_, _, rfl, ⟨by decide, rfl⟩, rfl⟩

end Files
