import FiduciaNode.Consensus.Theorems.Refinement.Basic

-- The elements up to a position of a list that descends are as large as the one there.
theorem List.le_countP_of_getElem? {l : List Nat} {k v : Nat} (sorted : l.Pairwise (· ≥ ·))
    (h : l[k]? = some v) : k + 1 ≤ l.countP (v ≤ ·) := by
  have ⟨lt, eq⟩ := List.getElem?_eq_some_iff.mp h
  have all : ∀ x ∈ l.take (k + 1), decide (v ≤ x) = true := by
    intro x hx
    have ⟨i, hi, eq'⟩ := List.mem_take_iff_getElem.mp hx
    rcases Nat.lt_or_ge i k with h' | h'
    case inl =>
      have := List.pairwise_iff_getElem.mp sorted i k (by omega) lt h'
      simpa [← eq, ← eq'] using this
    case inr =>
      obtain rfl : i = k := by omega
      simp [← eq, ← eq']
  calc k + 1
    _ = (l.take (k + 1)).length := by simp; omega
    _ = (l.take (k + 1)).countP (v ≤ ·) := (List.countP_eq_length.mpr all).symm
    _ ≤ l.countP (v ≤ ·) := (List.take_sublist _ _).countP_le

namespace ShardActor

variable {σ : Type} {a b c : ShardActor σ} {o : Occasion}

-- Answers to clients are not seen.
theorem seen_answers (completed : List Completed) (f : Completed → Except ProposeError ProposeOutcome) :
    { a with out := a.out ++ completed.map fun (c : Completed) => Effect.answer c.pending.client (f c)
    }.seen =
      a.seen := by
  have : (completed.map fun c => Effect.answer c.pending.client (f c)).filter (·.visible) = [] := by
    refine List.filter_eq_nil_iff.mpr fun _ h => ?_
    obtain ⟨_, _, rfl⟩ := List.mem_map.mp h
    simp [Effect.visible]
  simp only [seen, List.filter_append, this, List.append_nil]

theorem performs_longer (command : Option Command) : (a.longer command).Performs (a.nextWrites command)
    (a.extended command) (a.longer command).persistLogAppend :=
  performs_appendTail _

variable [StateMachine σ]

theorem applyEntry_next (completed : List Completed) (entry : LogEntry) :
    ∃ pending hidden, (a.applyEntry completed (a.lastApplied + 1) entry).1 =
      { (a.appliedNext entry).1 with
        pending := pending
        out     := a.out ++ .applied (a.lastApplied + 1) a.currentTerm entry (a.appliedNext entry).2 ::
          hidden
      } ∧ ∀ effect ∈ hidden, effect.visible = false := by
  simp only [applyEntry, appliedNext]
  cases entry.command
  case none => exact ⟨a.pending, [], rfl, by simp⟩
  case some command =>
    simp only
    generalize StateMachine.applyAt a.state command entry.proposedAtMs = r
    obtain ⟨state, result⟩ := r
    obtain ⟨out, eq, events⟩ := publishChange_eq (a := emit { a with
      lastApplied := a.lastApplied + 1, state } (.applied (a.lastApplied + 1) a.currentTerm entry
        (some result))) command result.output result.revision
    have hidden : ∀ effect ∈ out, effect.visible = false := by
      intro effect h
      obtain ⟨event, rfl⟩ := events effect h
      rfl
    simp only [emit] at eq ⊢
    rw [eq]
    split
    case h_1 => exact ⟨a.pending, out, by simp, hidden⟩
    case h_2 => exact ⟨a.pending.erase (a.lastApplied + 1), out, by simp, hidden⟩

theorem applyEntry_frame (completed : List Completed) (entry : LogEntry) :
    (a.applyEntry completed (a.lastApplied + 1) entry).1.storageFault = a.storageFault ∧
    (a.applyEntry completed (a.lastApplied + 1) entry).1.lastApplied = a.lastApplied + 1 ∧
    (a.applyEntry completed (a.lastApplied + 1) entry).1.commitIndex = a.commitIndex := by
  have ⟨pending, hidden, eq, _⟩ := applyEntry_next (a := a) completed entry
  rw [eq]
  simp only [appliedNext]
  cases entry.command <;> exact ⟨rfl, rfl, rfl⟩

theorem commitCandidate_replicated (pos : 0 < a.commitCandidate) :
    a.Replicated a.commitCandidate := by
  set indices := a.lastLogIndex :: a.leader.elim [] fun leader =>
    a.peers.map fun peer => leader.matchIndex[peer]?.getD 0 with hi
  set n := (indices.insertionSort (· ≥ ·))[a.majority - 1]?.getD 0 with hn
  have le : a.commitCandidate ≤ n := by
    simp only [commitCandidate, ← hi, ← hn]
    split
    case isTrue =>
      generalize a.log.find? _ = newer
      cases newer
      case none => exact le_rfl
      case some entry => exact Nat.min_le_left _ _
    case isFalse => exact le_rfl
  cases h : (indices.insertionSort (· ≥ ·))[a.majority - 1]?
  case none =>
    rw [h] at hn
    simp only [Option.getD_none] at hn
    omega
  case some v =>
    rw [h, Option.getD_some] at hn
    have count := List.le_countP_of_getElem? (List.pairwise_insertionSort _ indices) h
    rw [(List.perm_insertionSort _ indices).countP_eq] at count
    have peers : indices.countP (v ≤ ·) ≤ 1 + (a.peers.filter (v ≤ a.matched ·)).length := by
      rw [hi, List.countP_cons]
      have : (a.leader.elim [] fun leader => a.peers.map fun peer =>
          leader.matchIndex[peer]?.getD 0).countP (v ≤ ·) ≤
          (a.peers.filter (v ≤ a.matched ·)).length := by
        cases hl : a.leader
        case none => simp
        case some ls => simp [← List.countP_eq_length_filter, matched, hl, Function.comp_def]
      split <;> omega
    have mono : (a.peers.filter (v ≤ a.matched ·)).length ≤
        (a.peers.filter (a.commitCandidate ≤ a.matched ·)).length := by
      refine (List.monotone_filter_right _ fun peer hp => ?_).length_le
      simp only [decide_eq_true_eq] at hp ⊢
      omega
    have : a.majority - 1 + 1 = a.majority := Nat.sub_add_cancel (Nat.succ_pos _)
    rw [Replicated]
    omega

variable [PeerPlane]

section Apply

theorem reaches_applyEntry {entry : LogEntry} (alive : a.storageFault = none)
    (lt : a.lastApplied < a.commitIndex) (present : a.entryAt? (a.lastApplied + 1) = some entry)
    (completed : List Completed) :
    Reaches o a (a.applyEntry completed (a.lastApplied + 1) entry).1 := by
  have ⟨pending, hidden, eq, invisible⟩ := applyEntry_next (a := a) completed entry
  rw [eq]
  refine .act alive (.apply entry lt present) rfl ?_
  have : hidden.filter (·.visible) = [] := List.filter_eq_nil_iff.mpr (by simpa using invisible)
  simp only [seen, List.filter_append, List.filter_cons, this]
  rfl

theorem reaches_applyLoop (fuel : Nat) (alive : a.storageFault = none)
    (h : a.lastApplied + fuel = a.commitIndex) (completed : List Completed) :
    Reaches o a (a.applyLoop completed fuel).1 ∧
    ((a.applyLoop completed fuel).2.2 = true → (a.applyLoop completed fuel).1.storageFault = none ∧
      (a.applyLoop completed fuel).1.lastApplied = (a.applyLoop completed fuel).1.commitIndex) ∧
    ((a.applyLoop completed fuel).2.2 = false → (a.applyLoop completed fuel).1.Halted) := by
  induction fuel generalizing a completed
  case zero => exact ⟨.refl, fun _ => ⟨alive, h⟩, by simp [applyLoop]⟩
  case succ fuel ih =>
    have stopped (operation error : String) : Reaches o a (a.failStorage operation error) :=
      .halt (failStorage_halted _ _) (seen_failStorage _ _)
    simp only [applyLoop]
    split
    case h_1 => exact ⟨stopped _ _, by simp, fun _ => failStorage_halted _ _⟩
    case h_2 index next =>
      obtain rfl := (U64.checkedAdd_eq_some_iff.mp next).1
      split
      case h_1 => exact ⟨stopped _ _, by simp, fun _ => failStorage_halted _ _⟩
      case h_2 entry present =>
        obtain ⟨fault, last, commit⟩ := applyEntry_frame (a := a) completed entry
        have first := reaches_applyEntry (o := o) alive (by omega) present completed
        obtain ⟨rest, finished, stopped⟩ := ih (a := (a.applyEntry completed (a.lastApplied + 1) entry).1)
          (fault.trans alive) (by omega) (a.applyEntry completed (a.lastApplied + 1) entry).2
        exact ⟨first.trans rest, finished, stopped⟩

theorem goes_maybeCompact (t : a.Tidy) (alive : a.storageFault = none) : Goes o a a.maybeCompact := by
  simp only [maybeCompact]
  split
  case isTrue => exact .refl t
  case isFalse threshold =>
    simp only [Bool.or_eq_true, decide_eq_true_eq, not_or, Nat.not_lt] at threshold
    split
    case h_1 => exact .refl t
    case h_2 state snapshot =>
      have act := Act.compact (o := o) state snapshot (by omega)
      split
      case h_1 b error h => exact .failed h (performs_saveSnapshot _ _) alive act rfl rfl _
      case h_2 b h =>
        exact .updated (fun b => { b with
          log           := a.log.drop (a.lastApplied - a.snapshotIndex)
          snapshotIndex := a.lastApplied
          snapshotTerm  := a.termAt a.lastApplied
          snapshotState := state
        }) h (performs_saveSnapshot _ _) alive act t.caughtUp rfl rfl (fun _ => rfl) (fun _ => rfl) rfl

theorem goes_applyCommitted (s : a.Sane) (alive : a.storageFault = none) :
    Goes o a a.applyCommitted := by
  have ⟨loop, finished, stopped⟩ := reaches_applyLoop (o := o)
    (a.commitIndex - a.lastApplied) alive (by have := (s.bounded alive).applied; omega) []
  simp only [applyCommitted]
  generalize a.applyLoop [] (a.commitIndex - a.lastApplied) = r at loop finished stopped ⊢
  obtain ⟨b, completed, done⟩ := r
  cases done
  case false =>
    have halted := stopped rfl
    have g : Goes o a b := ⟨loop, halted.caughtUp⟩
    exact g.trans (.halt ⟨halted.fault, halted.leader, halted.follower⟩ (seen_answers _ _))
  case true =>
    obtain ⟨alive', caughtUp⟩ := finished rfl
    have g : Goes o a b := ⟨loop, fun _ => caughtUp⟩
    have t : b.Tidy := ⟨g.reaches.sane s, g.caughtUp⟩
    have g := g.trans (goes_maybeCompact (o := o) t alive')
    have t : b.maybeCompact.Tidy := ⟨g.reaches.sane s, g.caughtUp⟩
    simp only [Bool.not_true, Bool.false_eq_true, if_false]
    split
    case isTrue | isFalse => exact g.trans (.quiet t rfl (seen_answers _ _))

-- The actor commits once the commit index is durable, and applies what it has committed.
theorem goes_commitTo {index : Nat} (s : a.Sane) (alive : a.storageFault = none) (operation : String)
    (act : Act o a (a.writes [.writeMeta { a with commitIndex := index }.hardState])
      { a with commitIndex := index }) :
    Goes o a (a.commitTo index operation) := by
  simp only [commitTo]
  split
  case h_1 b error h => exact .failed h (performs_saveMeta _) alive act rfl rfl _
  case h_2 b h =>
    have r : Reaches o a { b with commitIndex := index } :=
      .updated (fun b => { b with commitIndex := index }) h (performs_saveMeta _) alive act rfl rfl
        (fun _ => rfl) (fun _ => rfl) rfl
    have alive : b.storageFault = none := by
      have := congrArg (·.1.storageFault) h
      simp only [persistHardStateAt] at this
      rw [onStore_frame] at this
      exact this ▸ alive
    have g := goes_applyCommitted (o := o) (r.sane s) alive
    exact ⟨r.trans g.reaches, g.caughtUp⟩

end Apply

section Commit

theorem goes_commit {index : Nat} (t : a.Tidy) (alive : a.storageFault = none) (leader : a.role = .leader)
    (commits : a.Commits index) (newer : a.commitIndex < index)
    (current : a.termAt index = a.currentTerm) (operation : String) :
    Goes o a (a.commitTo index operation) := by
  refine goes_commitTo t.toSane alive operation (.commit index leader newer ?_ current)
  cases commits
  case majority _ candidate _ _ =>
    subst candidate
    exact commitCandidate_replicated (by omega)
  case lone _ lone _ => simp [Replicated, majority, lone]
  case follower follower _ _ => exact absurd (leader.symm.trans follower) (by decide)

end Commit

end ShardActor
