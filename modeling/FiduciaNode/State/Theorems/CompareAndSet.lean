import FiduciaNode.State.Theorems.Frames

-- What a write can name: a key of the store or a counter.
inductive Cell
  | kv (key : String)
  | counter (key : String)
  deriving DecidableEq

namespace Cell

-- The field of an answer that tells the revision of the write.
def revisionField : Cell → String
  | kv _ => "revision"
  | counter _ => "mod_revision"

end Cell

namespace Command

-- The cell that a write names, and the revision that it expects there.
def write : Command → Option (Cell × Option Nat)
  | .kvPut key _ _ prevRevision => some (.kv key, prevRevision)
  | .counterAdd key _ prevRevision | .counterSet key _ prevRevision => some (.counter key, prevRevision)
  | _ => none

end Command

namespace Applied

-- A write that succeeds, with the revision that it expected and the one that it was answered.
def Writes (e : Applied) (cell : Cell) (expected : Option Nat) (revision : Nat) : Prop :=
  e.command.write = some (cell, expected) ∧ e.output.flag "ok" = some true ∧
  e.output.integer cell.revisionField = some (revision : Int)

end Applied

namespace Store

def modRevision (s : Store) : Cell → Option Nat
  | .kv key => s.kv[key]?.map KvEntry.modRevision
  | .counter key => s.counters[key]?.map CounterEntry.modRevision

end Store

namespace Cell

-- What a command at a revision can do to the revision of a cell.
inductive Step (cell : Cell) (e : Applied) (revision : Nat) : Option Nat → Option Nat → Prop
  | keep (writes : ∀ expected rev, ¬e.Writes cell expected rev) : Step cell e revision m m
  | erase (writes : ∀ expected rev, ¬e.Writes cell expected rev) : Step cell e revision m none
  | write (expected : Option Nat) (current : ∀ r, expected = some r → m.getD 0 = r)
    (writes : ∀ expected' rev, e.Writes cell expected' rev → expected' = expected ∧ rev = revision) :
    Step cell e revision m (some revision)

variable {cell : Cell} {e : Applied} {revision now : Nat} {m : Option Nat} {c : Command} {v : Value}

theorem Step.of_other (h : ∀ expected, c.write ≠ some (cell, expected)) :
    Step cell ⟨c, now, v⟩ revision m m :=
  .keep fun expected _ writes => h expected writes.1

theorem Step.refused (h : v.flag "ok" = some false) : Step cell ⟨c, now, v⟩ revision m m := by
  refine .keep fun _ _ ⟨_, ok, _⟩ => ?_
  simp [h] at ok

theorem Step.of_write {expected : Option Nat} (command : c.write = some (cell, expected))
    (answer : v.integer cell.revisionField = some (revision : Int))
    (current : ¬expected.any (m.getD 0 ≠ ·)) :
    Step cell ⟨c, now, v⟩ revision m (some revision) := by
  refine .write expected ?_ fun expected' rev ⟨command', _, answer'⟩ => ?_
  case refine_1 =>
    rintro r rfl
    simpa using current
  case refine_2 =>
    simp only [answer, Option.some.injEq, Nat.cast_inj] at answer'
    simp_all

theorem Step.written {m' expected : Option Nat} {rev : Nat} (t : Step cell e revision m m')
    (h : e.Writes cell expected rev) : m' = some rev := by
  cases t
  case keep writes | erase writes => exact absurd h (writes expected rev)
  case write _ writes => rw [(writes expected rev h).2]

end Cell

section Tables

open Cell (Step)

variable {revision now : Nat} {key key' : String} {expected : Option Nat}

theorem Kv.applyKvPut_step {kv : Kv} (value : String) (ttlMs : Option Nat) :
    Step (.kv key) ⟨.kvPut key' value ttlMs expected, now,
        (kv.applyKvPut revision now key' value ttlMs expected).2⟩ revision
      (kv[key]?.map KvEntry.modRevision)
      ((kv.applyKvPut revision now key' value ttlMs expected).1[key]?.map KvEntry.modRevision) := by
  simp only [applyKvPut]
  split
  case isTrue => exact .refused rfl
  case isFalse current =>
    simp only [HashMap.get_insert]
    split
    case isTrue same => exact same ▸ .of_write rfl rfl current
    case isFalse ne => exact .of_other (by simp [Command.write, ne])

theorem Kv.applyKvDelete_step {kv : Kv} :
    Step (.kv key) ⟨.kvDelete key', now, (kv.applyKvDelete revision key').2⟩ revision
      (kv[key]?.map KvEntry.modRevision)
      ((kv.applyKvDelete revision key').1[key]?.map KvEntry.modRevision) := by
  simp only [applyKvDelete, HashMap.get_erase]
  split
  case isTrue => exact .erase (by simp [Applied.Writes, Command.write])
  case isFalse => exact .of_other (by simp [Command.write])

theorem Counters.applyCounterSet_step {counters : Counters} {c : Command} (value : Int)
    (command : c.write = some (.counter key', expected)) :
    Step (.counter key) ⟨c, now, (counters.applyCounterSet revision key' value expected).2⟩ revision
      (counters[key]?.map CounterEntry.modRevision)
      ((counters.applyCounterSet revision key' value expected).1[key]?.map CounterEntry.modRevision) := by
  simp only [applyCounterSet]
  split
  case isTrue => exact .refused rfl
  case isFalse current =>
    simp only [HashMap.get_insert]
    split
    case isTrue same => exact same ▸ .of_write command rfl current
    case isFalse ne => exact .of_other (by simp [command, ne])

theorem Kv.applyKvPut_mismatch {kv : Kv} {value : String} {ttlMs : Option Nat}
    (reason : (kv.applyKvPut revision now key value ttlMs expected).2.text "reason" = some "cas_mismatch") :
    (kv.applyKvPut revision now key value ttlMs expected).1 = kv := by
  simp only [applyKvPut] at reason ⊢
  split
  case isTrue => rfl
  case isFalse current =>
    rw [if_neg current] at reason
    cases reason

theorem Counters.applyCounterSet_mismatch {counters : Counters} {value : Int}
    (reason : (counters.applyCounterSet revision key value expected).2.text "reason" = some "cas_mismatch") :
    (counters.applyCounterSet revision key value expected).1 = counters := by
  simp only [applyCounterSet] at reason ⊢
  split
  case isTrue => rfl
  case isFalse current =>
    rw [if_neg current] at reason
    cases reason

end Tables

namespace Store

open Cell (Step)

variable [External] {s : Store} {o : IterOrder} {c : Command} {revision now : Nat} {cell : Cell}

theorem applyCommand_cellStep :
    Step cell ⟨c, now, (s.applyCommand o revision now c).2⟩ revision (s.modRevision cell)
      ((s.applyCommand o revision now c).1.modRevision cell) := by
  cases cell
  case kv key =>
    by_cases h : c.part = .kv
    case neg =>
      have same : (s.applyCommand o revision now c).1.kv = s.kv := applyCommand_touches.frame .kv (Ne.symm h)
      simp only [modRevision, same]
      exact .of_other (by cases c <;> simp_all [Command.write, Command.part])
    case pos =>
      cases c <;> try contradiction
      case kvPut => exact Kv.applyKvPut_step _ _
      case kvDelete => exact Kv.applyKvDelete_step
  case counter key =>
    by_cases h : c.part = .counters
    case neg =>
      have same : (s.applyCommand o revision now c).1.counters = s.counters :=
        applyCommand_touches.frame .counters (Ne.symm h)
      simp only [modRevision, same]
      exact .of_other (by cases c <;> simp_all [Command.write, Command.part])
    case pos =>
      cases c <;> try contradiction
      case counterAdd | counterSet => exact Counters.applyCounterSet_step _ rfl

omit [External] in
theorem prepare_modRevision :
    (s.prepare o c now).modRevision cell = s.modRevision cell ∨ (s.prepare o c now).modRevision cell = none := by
  cases cell
  case counter =>
    have same : (s.prepare o c now).counters = s.counters := prepare_frame .counters rfl
    simp [modRevision, same]
  case kv key =>
    simp only [prepare]
    split
    case isTrue => exact .inl rfl
    case isFalse =>
      simp only [modRevision, expireDue, Kv.expireDue, HashMap.get_filter]
      cases s.kv[key]?
      case none => exact .inl rfl
      case some entry =>
        simp only [Option.filter_some]
        split
        case isTrue => exact .inl rfl
        case isFalse => exact .inr rfl

-- A write counts as a revision.
omit [External] in
theorem revision_lt_prepare (h : c.write ≠ none) : s.revision < (s.prepare o c now).revision := by
  have : c.isProtocolActivation = false := by cases c <;> simp_all [Command.write, Command.isProtocolActivation]
  simp [prepare, this, expireDue]

omit [External] in
theorem revision_le_prepare : s.revision ≤ (s.prepare o c now).revision := by
  simp only [prepare]
  split <;> simp [expireDue]

theorem applyAt_revision : (s.applyAt o c now).1.revision = (s.prepare o c now).revision :=
  applyCommand_touches.frame .revision (by cases c <;> simp [Command.part])

section Linear

variable {e : Applied} {events : List Applied} {old new : Nat} {m m' : Option Nat}

-- The writes of a cell, and the revision that the cell has, are in the order of the revisions. What a
-- write expects comes before it.
structure Linear (cell : Cell) (events : List Applied) (revision : Nat) (m : Option Nat) : Prop where
  ordered : events.Pairwise fun e e' => ∀ expected rev expected' rev',
    e.Writes cell expected rev → e'.Writes cell expected' rev' →
    rev' < rev ∧ ∀ r, 0 < r → ¬(expected = some r ∧ expected' = some r)
  past    : ∀ e ∈ events, ∀ expected rev, e.Writes cell expected rev →
    rev ≤ revision ∧ ∀ r, expected = some r → r < rev
  latest  : ∀ r ∈ m, r ≤ revision ∧ ∀ e ∈ events, ∀ expected rev, e.Writes cell expected rev → rev ≤ r

omit [External] in
theorem Linear.later (i : Linear cell events old m) (le : old ≤ new) (same : m' = m ∨ m' = none) :
    Linear cell events new m' := by
  refine ⟨i.ordered, fun e mem expected rev writes => ?past, fun r mem => ?latest⟩
  case past =>
    have ⟨bound, before⟩ := i.past e mem expected rev writes
    exact ⟨bound.trans le, before⟩
  case latest =>
    rcases same with rfl | rfl
    case inl => exact ⟨(i.latest r mem).1.trans le, (i.latest r mem).2⟩
    case inr => contradiction

omit [External] in
theorem Linear.unwritten (i : Linear cell events old m) (writes : ∀ expected rev, ¬e.Writes cell expected rev) :
    Linear cell (e :: events) old m := by
  refine ⟨.cons (fun _ _ expected rev _ _ h => absurd h (writes expected rev)) i.ordered, ?_, fun r mem => ?_⟩
  case refine_1 =>
    exact List.forall_mem_cons.mpr ⟨fun expected rev h => absurd h (writes expected rev), i.past⟩
  case refine_2 =>
    have ⟨bound, latest⟩ := i.latest r mem
    exact ⟨bound, List.forall_mem_cons.mpr ⟨fun expected rev h => absurd h (writes expected rev), latest⟩⟩

omit [External] in
theorem Linear.write {expected : Option Nat} (i : Linear cell events old m) (le : old ≤ new)
    (lt : e.command.write ≠ none → old < new) (current : ∀ r, expected = some r → m.getD 0 = r)
    (writes : ∀ expected' rev, e.Writes cell expected' rev → expected' = expected ∧ rev = new) :
    Linear cell (e :: events) new (some new) := by
  have lt {expected rev} (h : e.Writes cell expected rev) : old < new := lt (by simp [h.1])
  refine ⟨.cons ?ordered i.ordered, List.forall_mem_cons.mpr ⟨?now, ?before⟩, ?latest⟩
  case ordered =>
    intro e' mem expected₁ rev expected' rev' h h'
    have ⟨bound, before⟩ := i.past e' mem expected' rev' h'
    obtain ⟨rfl, rfl⟩ := writes expected₁ rev h
    refine ⟨bound.trans_lt (lt h), fun r pos ⟨same, same'⟩ => ?_⟩
    have expects := current r same
    cases m
    case none => simp_all
    case some m =>
      -- The earlier write raised the cell above the revision that it expected.
      have := (i.latest m rfl).2 e' mem expected' rev' h'
      have := before r same'
      simp at expects
      omega
  case now =>
    intro expected₁ rev h
    obtain ⟨rfl, rfl⟩ := writes expected₁ rev h
    refine ⟨le_rfl, fun r same => ?_⟩
    have expects := current r same
    have := lt h
    cases m
    case none => simp at expects; omega
    case some m =>
      have := (i.latest m rfl).1
      simp at expects
      omega
  case before => exact (i.later le (.inl rfl)).past
  case latest =>
    rintro _ ⟨⟩
    refine ⟨le_rfl, List.forall_mem_cons.mpr ⟨fun expected₁ rev h => (writes expected₁ rev h).2.le, ?_⟩⟩
    exact fun e' mem expected' rev' h' => (i.past e' mem expected' rev' h').1.trans le

omit [External] in
theorem Linear.step (i : Linear cell events old m) (t : Step cell e new m m') (le : old ≤ new)
    (lt : e.command.write ≠ none → old < new) : Linear cell (e :: events) new m' := by
  cases t
  case keep writes => exact (i.later le (.inl rfl)).unwritten writes
  case erase writes => exact (i.later le (.inr rfl)).unwritten writes
  case write expected current writes => exact i.write le lt current writes

theorem History.linear (h : History events s) : Linear cell events s.revision (s.modRevision cell) := by
  induction h
  case empty => exact ⟨.nil, by simp, by cases cell <;> simp [modRevision, Store.empty]⟩
  case apply s o c now _ ih =>
    rw [applyAt_revision]
    exact (ih.later le_rfl prepare_modRevision).step applyCommand_cellStep revision_le_prepare revision_lt_prepare

end Linear

-- A write leaves the other table alone, and one that is refused leaves its own alone as well.
theorem applyAt_mismatch (h : c.write ≠ none)
    (reason : (s.applyAt o c now).2.output.text "reason" = some "cas_mismatch") :
    (s.applyAt o c now).1.kv = s.kv.expireDue now ∧ (s.applyAt o c now).1.counters = s.counters := by
  cases c <;> try contradiction
  case kvPut => exact ⟨Kv.applyKvPut_mismatch reason, rfl⟩
  case counterAdd | counterSet => exact ⟨rfl, Counters.applyCounterSet_mismatch reason⟩

-- A write that succeeds leaves its revision at the cell.
theorem applyAt_written {expected : Option Nat} {rev : Nat}
    (h : Applied.Writes ⟨c, now, (s.applyAt o c now).2.output⟩ cell expected rev) :
    (s.applyAt o c now).1.modRevision cell = some rev :=
  applyCommand_cellStep.written h

theorem compare_and_set_linear {events : List Applied} (h : History events s) (cell : Cell) :
    (events.Pairwise fun e e' => ∀ expected rev expected' rev',
      e.Writes cell expected rev → e'.Writes cell expected' rev' →
      rev' < rev ∧ ∀ r, 0 < r → ¬(expected = some r ∧ expected' = some r)) ∧
    ∀ o c now,
      (∀ expected rev, Applied.Writes ⟨c, now, (s.applyAt o c now).2.output⟩ cell expected rev →
        (s.applyAt o c now).1.modRevision cell = some rev) ∧
      (c.write ≠ none → (s.applyAt o c now).2.output.text "reason" = some "cas_mismatch" →
        (s.applyAt o c now).1.kv = s.kv.expireDue now ∧ (s.applyAt o c now).1.counters = s.counters) :=
  ⟨h.linear.ordered, fun _ _ _ => ⟨fun _ _ => applyAt_written, applyAt_mismatch⟩⟩

section Writers

-- Two writers that have both read the first revision of the key.
def put (expected : Option Nat) : Command :=
  .kvPut "k" "v" none expected

omit [External] in
theorem second_writer_refused :
    letI := External.fixed
    ∃ s e e' events, History (e :: e' :: events) s ∧ e'.Writes (.kv "k") (some 1) 2 ∧
      e.command = put (some 1) ∧ ∀ rev, ¬e.Writes (.kv "k") (some 1) rev := by
  let := External.fixed
  have h : History _ _ := .apply .sorted (put (some 1)) 0 (
    .apply .sorted (put (some 1)) 0 (
    .apply .sorted (put none) 0 .empty))
  have ⟨once, _⟩ := List.pairwise_cons.mp (compare_and_set_linear h (.kv "k")).1
  refine ⟨_, _, _, _, h, ?first, rfl, fun rev again =>
    (once _ (.head _) _ rev (some 1) 2 again ?first).2 1 (by decide) ⟨rfl, rfl⟩⟩
  case first => exact ⟨rfl, by decide +kernel⟩

end Writers

end Store
