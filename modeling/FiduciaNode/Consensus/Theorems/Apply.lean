import FiduciaNode.Consensus.Theorems.Log

-- The state machine of closed runs. It counts the commands.
structure Tally where
  commands : Nat

instance : StateMachine Tally where
  new                := ⟨0⟩
  applyAt s _ _      := (⟨s.commands + 1⟩, { revision := s.commands + 1, output := .null })
  commandProtocol _  := Command.currentCommandProtocol
  snapshot s         := some (List.replicate s.commands 0)
  restore bytes      := .ok ⟨bytes.length⟩
  Response           := Nat
  read s _           := s.commands
  protocol_mono      := by simp
  protocol_activated := by simp

-- The peer plane of closed runs. It sends one entry at a time.
@[reducible]
def PeerPlane.fixed : PeerPlane where
  appendMaxEntries := 1
  appendMaxBytes   := 0
  bodyBytes _      := some 0

namespace ShardActor

variable {σ : Type} [StateMachine σ] {a : ShardActor σ} {l : List LogEntry} {i fuel : Nat}

-- The effect of an entry on the state machine.
def applied (state : σ) (entry : LogEntry) : σ :=
  match entry.command with
  | none => state
  | some command => (StateMachine.applyAt state command entry.proposedAtMs).1

theorem commandProtocol_congr {b : ShardActor σ} (r : b.replica = a.replica) :
    b.commandProtocol = a.commandProtocol :=
  congrArg StateMachine.commandProtocol (congrArg Replica.state r)

theorem le_applied_commandProtocol (state : σ) (entry : LogEntry) :
    StateMachine.commandProtocol state ≤ StateMachine.commandProtocol (applied state entry) := by
  simp only [applied]
  split
  case h_1 => exact le_rfl
  case h_2 => exact StateMachine.protocol_mono _ _ _

-- The state machine after a whole log.
def replay (l : List LogEntry) : σ :=
  l.foldl applied StateMachine.new

omit [StateMachine σ] in
theorem publishChange_eq (command : Command) (output : Value) (revision : Nat) :
    ∃ out, a.publishChange command output revision = { a with out := a.out ++ out } ∧
      ∀ e ∈ out, ∃ event, e = .publish event := by
  have published (event? : Option ChangeEvent) :
      ∃ out, event?.elim a (fun event => a.emit (.publish event)) = { a with out := a.out ++ out } ∧
        ∀ e ∈ out, ∃ event, e = .publish event := by
    cases event?
    case none => exact ⟨[], by simp, by simp⟩
    case some event => exact ⟨[.publish event], rfl, by simp⟩
  exact published _

-- What applying an entry can be seen to do.
def AppliesEntry (index term : Nat) (entry : LogEntry) (e : Effect) : Prop :=
  (∃ event, e = .publish event) ∨ ∃ result, e = .applied index term entry result

theorem applyEntry_eq (completed : List Completed) (i : Nat) (entry : LogEntry) :
    ∃ pending out,
      (a.applyEntry completed i entry).1 = { a with
        lastApplied := i, state := applied a.state entry, pending := pending, out := a.out ++ out
      } ∧
      ∀ e ∈ out, AppliesEntry i a.currentTerm entry e := by
  simp only [applyEntry, applied]
  cases entry.command
  case none => exact ⟨a.pending, [_], rfl, by simp [AppliesEntry]⟩
  case some command =>
    simp only
    generalize StateMachine.applyAt a.state command entry.proposedAtMs = r
    obtain ⟨state, result⟩ := r
    obtain ⟨out, eq, events⟩ := publishChange_eq (a := emit { a with lastApplied := i, state }
      (.applied i a.currentTerm entry (some result))) command result.output result.revision
    have all : ∀ e ∈ .applied i a.currentTerm entry (some result) :: out,
        AppliesEntry i a.currentTerm entry e := by
      intro e he
      cases List.mem_cons.mp he
      case inl he => exact .inr ⟨_, he⟩
      case inr he => exact .inl (events e he)
    simp only [emit] at eq ⊢
    rw [eq]
    split
    case h_1 => exact ⟨a.pending, _, by simp, all⟩
    case h_2 => exact ⟨a.pending.erase i, _, by simp, all⟩

-- What applying the entries of a log between two positions can be seen to do.
def Applies (l : List LogEntry) (first last term : Nat) (e : Effect) : Prop :=
  ∃ i entry, first < i ∧ i ≤ last ∧ l[i - 1]? = some entry ∧ AppliesEntry i term entry e

theorem applyLoop_eq (h : a.Holds l) (hs : a.snapshotIndex ≤ a.lastApplied)
    (hf : a.lastApplied + fuel ≤ l.length) (completed : List Completed) :
    ∃ pending out,
      (a.applyLoop completed fuel).1 = { a with
        lastApplied := a.lastApplied + fuel
        state := ((l.drop a.lastApplied).take fuel).foldl applied a.state
        pending := pending
        out := a.out ++ out
      } ∧
      (a.applyLoop completed fuel).2.2 = true ∧
      ∀ e ∈ out, Applies l a.lastApplied (a.lastApplied + fuel) a.currentTerm e := by
  induction fuel generalizing a completed
  case zero => exact ⟨a.pending, [], by simp [applyLoop], rfl, by simp⟩
  case succ fuel ih =>
    have next : U64.checkedAdd a.lastApplied 1 = some (a.lastApplied + 1) :=
      U64.checkedAdd_eq_some_iff.mpr ⟨rfl, by have := h.fits; omega⟩
    have lt : a.lastApplied < l.length := by omega
    have entry : a.entryAt? (a.lastApplied + 1) = some l[a.lastApplied] := by
      rw [entryAt?, if_neg (by omega)]
      have : a.lastApplied + 1 - a.snapshotIndex - 1 = a.lastApplied - a.snapshotIndex := by omega
      rw [this, h.entryAt hs, List.getElem?_eq_getElem lt]
    have ⟨p₁, out₁, eq₁, all₁⟩ := applyEntry_eq (a := a) completed (a.lastApplied + 1)
      l[a.lastApplied]
    simp only [applyLoop, next, entry, eq₁]
    have h' : Holds { a with
        lastApplied := a.lastApplied + 1, state := applied a.state l[a.lastApplied]
        pending := p₁, out := a.out ++ out₁ } l :=
      ⟨h.log, h.snapshot, h.term, h.fits⟩
    have ⟨p₂, out₂, eq₂, finished, all₂⟩ := ih h' (by simp only; omega) (by simp only; omega)
      (a.applyEntry completed (a.lastApplied + 1) l[a.lastApplied]).2
    refine ⟨p₂, out₁ ++ out₂, ?_, finished, ?_⟩
    case refine_1 =>
      rw [eq₂, List.drop_eq_getElem_cons lt, List.take_succ_cons, List.foldl_cons]
      simp only [List.append_assoc]
      congr 1
      omega
    case refine_2 =>
      intro e he
      cases List.mem_append.mp he
      case inl he =>
        exact ⟨a.lastApplied + 1, _, by omega, by omega, List.getElem?_eq_getElem lt, all₁ e he⟩
      case inr he =>
        have ⟨i, entry, h₁, h₂, h⟩ := all₂ e he
        simp only at h₁ h₂
        exact ⟨i, entry, by omega, by omega, h⟩

-- Compaction moves the border between the snapshot and the log.
theorem maybeCompact_holds (h : a.Holds l) (hs : a.snapshotIndex ≤ a.lastApplied)
    (hl : a.lastApplied ≤ l.length) :
    a.maybeCompact.Holds l ∧ a.maybeCompact.commitIndex = a.commitIndex := by
  simp only [maybeCompact]
  split
  case isTrue => exact ⟨h, rfl⟩
  case isFalse =>
    split
    case h_1 => exact ⟨h, rfl⟩
    case h_2 =>
      split
      all_goals
        rename_i he
        have r := congrArg (replica ·.1) he
        simp only [replica_onStore] at r
        have commit := congrArg Replica.commitIndex r
      case h_1 => exact ⟨h.congr (by simp [r]), commit.symm⟩
      case h_2 =>
        refine ⟨⟨?_, hl, ?_, h.fits⟩, commit.symm⟩
        case refine_1 =>
          simp only
          rw [h.log, List.drop_drop]
          congr 1
          omega
        case refine_2 => exact h.termAt hs

theorem applyCommitted_holds (h : a.Holds l) (hs : a.snapshotIndex ≤ a.lastApplied)
    (hc : a.commitIndex ≤ l.length) (ha : a.lastApplied ≤ a.commitIndex) :
    a.applyCommitted.Holds l ∧ a.applyCommitted.commitIndex = a.commitIndex := by
  have fuel : a.lastApplied + (a.commitIndex - a.lastApplied) ≤ l.length := by omega
  have ⟨p, out, eq, finished, _⟩ := applyLoop_eq h hs fuel []
  generalize hr : a.applyLoop [] (a.commitIndex - a.lastApplied) = r at eq finished
  obtain ⟨b, completed, f⟩ := r
  simp only at eq finished
  have hb : b.Holds l := by
    rw [eq]
    exact ⟨h.log, h.snapshot, h.term, h.fits⟩
  have ⟨holds, commit⟩ := maybeCompact_holds hb (by rw [eq]; simp only; omega)
    (by rw [eq]; simp only; omega)
  have hcommit : b.commitIndex = a.commitIndex := by rw [eq]
  simp only [applyCommitted, hr, finished]
  split
  case isTrue => contradiction
  case isFalse =>
    split
    all_goals exact ⟨holds.congr rfl, commit.trans hcommit⟩

end ShardActor
