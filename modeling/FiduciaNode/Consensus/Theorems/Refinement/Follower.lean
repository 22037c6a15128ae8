import FiduciaNode.Consensus.Theorems.Refinement.Commit

namespace ShardActor

variable {σ : Type} {a b c : ShardActor σ} {o : Occasion}

section Follower

theorem writes_append (steps₁ steps₂ : List DiskStep) :
    a.writes (steps₁ ++ steps₂) = a.writes steps₁ ++ a.writes steps₂ := by
  simp only [writes]
  split <;> simp

theorem writes_congr (h : b.bare = a.bare) (steps : List DiskStep) : b.writes steps = a.writes steps := by
  rw [← bare_writes, h, bare_writes]

-- Once the entries go on past the end of the log, there is nothing left to conflict with.
theorem appendLoop_past (s : Appended σ) (i : Nat) (es : List LogEntry)
    (h : s.actor.snapshotIndex + s.actor.log.length ≤ i) : ∃ s', appendLoop s i es = .ok s' := by
  induction es generalizing s i
  case nil => exact ⟨s, rfl⟩
  case cons entry es ih =>
    have absent : s.actor.log[i + 1 - s.actor.snapshotIndex - 1]? = none :=
      List.getElem?_eq_none (by omega)
    simp only [appendLoop, absent]
    rw [if_neg (by omega)]
    exact ih _ _ (by simp; omega)

-- The loop gives up before it has changed anything.
theorem appendLoop_error {s : Appended σ} {i : Nat} {es : List LogEntry}
    (h : appendLoop s i es = .error b) : b = s.actor := by
  induction es generalizing s i
  case nil => simp [appendLoop] at h
  case cons entry es ih =>
    simp only [appendLoop] at h
    split at h
    case isTrue => exact ih h
    case isFalse =>
      split at h
      case h_1 absent =>
        have := List.getElem?_eq_none_iff.mp absent
        obtain ⟨s', ok⟩ := appendLoop_past { s with
          actor := { s.actor with log := s.actor.log ++ [entry] }, grew := true } (i + 1) es (by simp; omega)
        rw [ok] at h
        contradiction
      case h_2 existing present =>
        split at h
        case isTrue => exact ih h
        case isFalse =>
          split at h
          case isTrue => exact (Except.error.inj h).symm
          case isFalse =>
            have := (List.getElem?_eq_some_iff.mp present).1
            obtain ⟨s', ok⟩ := appendLoop_past { s with
              actor := { s.actor with
                log := s.actor.log.take (i + 1 - s.actor.snapshotIndex - 1) ++ [entry] }
              truncated := true } (i + 1) es (by simp; omega)
            rw [ok] at h
            contradiction

theorem performs_persistAppended {s : Appended σ} {i : Nat} {es : List LogEntry}
    (stored : appendLoop ⟨a, false, false⟩ i es = .ok s) :
    a.Performs (a.mergeWrites s) (a.merged s) (persistAppended s) := by
  obtain ⟨b, truncated, grew⟩ := s
  have frame : b = { a with log := b.log } := (appendLoop_ok stored).1
  cases truncated
  case true =>
    have p := performs_rewrite (a := b) b.log
    rw [frame] at p ⊢
    exact ⟨p.done, p.cut⟩
  case false =>
    cases grew
    case true =>
      have p := performs_appendTail (a := b) b.log
      rw [frame] at p ⊢
      exact ⟨p.done, p.cut⟩
    case false =>
      have same : b.log = a.log := (appendLoop_flags stored).2.2 rfl rfl
      have : b = a := by rw [frame, same]
      subst this
      exact ⟨fun _ => ⟨rfl, by simp [persistAppended, mergeWrites, writes]⟩, 0,
        by simp [persistAppended]⟩

variable [StateMachine σ] [PeerPlane]

-- The action is broken in the first or in the second one of its two operations.
theorem Goes.failed_first {a' target : ShardActor σ} {steps₁ steps₂ : List DiskStep}
    {r : ShardActor σ × Option String} {error : String} (h : r = (b, some error))
    (p : a'.Performs steps₁ target r) (alive : a.storageFault = none)
    (act : Act o a (a.writes (steps₁ ++ steps₂)) c) (before : a'.seen = a.seen)
    (store : a'.store = a.store) (operation : String) : Goes o a (b.failStorage operation error) := by
  have ⟨k, cut⟩ := h ▸ p.cut
  have same : a'.writes steps₁ = a.writes steps₁ := by rw [writes, writes, store]
  refine .broken alive act (failStorage_halted _ _) (k := min k (a.writes steps₁).length) ?_
  rw [seen_failStorage, cut, before, same, writes_append,
    List.take_append_of_le_length (Nat.min_le_right _ _), ← List.take_eq_take_min]

theorem Goes.failed_second {steps₁ steps₂ : List DiskStep} {d target : ShardActor σ}
    {r : ShardActor σ × Option String} {error : String} (h : r = (d, some error))
    (p : b.Performs steps₂ target r) (alive : a.storageFault = none)
    (act : Act o a (a.writes (steps₁ ++ steps₂)) c) (first : b.seen = a.seen ++ a.writes steps₁)
    (store : b.writes steps₂ = a.writes steps₂) (operation : String) :
    Goes o a (d.failStorage operation error) := by
  have ⟨k, cut⟩ := h ▸ p.cut
  refine .broken alive act (failStorage_halted _ _) (k := (a.writes steps₁).length + k) ?_
  rw [seen_failStorage, cut, first, store, writes_append, List.take_length_add_append,
    List.append_assoc]

theorem goes_install (alive : a.storageFault = none) {req : InstallSnapshotReq}
    {restored : σ} (asked : o.event = .message (.installSnapshot req)) (installs : a.Installs req restored) :
    Goes o a (a.install req restored).1 := by
  have caughtUp : (a.installed req restored).CaughtUp :=
    fun _ => (Nat.max_eq_right installs.beyond.le).symm
  have act : Act o a (a.writes ([
      .writeSnapshot ⟨req.lastIncludedIndex, req.lastIncludedTerm, req.state⟩,
      .writeLog (a.keptSuffix req)
    ] ++ [.writeMeta { a with commitIndex := max a.commitIndex req.lastIncludedIndex }.hardState]))
    (a.installed req restored) := .install req asked restored installs
  simp only [install]
  split
  case h_1 b error h => exact .failed_first h (performs_saveSnapshot _ _) alive act rfl rfl _
  case h_2 b h =>
    have ⟨memory, first⟩ := (performs_saveSnapshot _ _).done (congrArg Prod.snd h)
    have frame := onStore_eq h
    rw [show (a.onStore _).1 = b from congrArg Prod.fst h] at memory first
    obtain ⟨store, out, eq⟩ := frame
    have store (steps : List DiskStep) : b.writes steps = a.writes steps := by
      rw [writes_congr memory]
      simp [writes, stored]
    subst eq
    split
    case h_1 d error h' =>
      exact .failed_second h' (performs_saveMeta _) alive act first (store _) _
    case h_2 d h' =>
      obtain ⟨memory', second⟩ := (performs_saveMeta _).done (congrArg Prod.snd h')
      rw [show (onStore _ _).1 = d from congrArg Prod.fst h'] at memory' second
      rw [memory] at memory'
      refine .act alive act caughtUp ?_ ?_
      case refine_1 =>
        exact congrArg (fun x : ShardActor σ => { x with
          state         := restored
          snapshotIndex := req.lastIncludedIndex
          snapshotTerm  := req.lastIncludedTerm
          snapshotState := req.state
          log           := a.keptSuffix req
          commitIndex   := max a.commitIndex req.lastIncludedIndex
          lastApplied   := req.lastIncludedIndex
        }) memory'
      case refine_2 =>
        refine second.trans ?_
        rw [store, first, List.append_assoc, ← writes_append]
        rfl

-- The commit index of a follower is saved after its log.
theorem goes_followCommit {m : ShardActor σ} {steps : List DiskStep} {leaderCommit : Nat}
    (sane : a.Sane) (alive : a.storageFault = none)
    (act : Act o a (a.writes (steps ++ m.followWrites leaderCommit)) (m.followedUpTo leaderCommit))
    (alive' : b.storageFault = none) (caughtUp : m.CaughtUp) (memory : b.bare = m.bare)
    (first : b.seen = a.seen ++ a.writes steps) (store : ∀ steps, b.writes steps = a.writes steps) :
    Goes o a (b.followCommit leaderCommit) := by
  have last : b.lastLogIndex = m.lastLogIndex := (congrArg lastLogIndex memory :)
  have commit : b.commitIndex = m.commitIndex := (congrArg commitIndex memory :)
  have term : b.currentTerm = m.currentTerm := (congrArg currentTerm memory :)
  have vote : b.votedFor = m.votedFor := (congrArg votedFor memory :)
  simp only [followCommit]
  split
  case isFalse old =>
    simp only [gt_iff_lt, Bool.and_eq_true, decide_eq_true_eq, not_and, Nat.not_lt, last, commit] at old
    have old : ¬m.commitIndex < min leaderCommit m.lastLogIndex := by omega
    have same : m.followedUpTo leaderCommit = m := by
      rw [followedUpTo, Nat.max_eq_left (Nat.not_lt.mp old)]
    rw [followWrites, if_neg old, List.append_nil, same] at act
    exact .act alive act caughtUp memory first
  case isTrue new =>
    simp only [gt_iff_lt, Bool.and_eq_true, decide_eq_true_eq, last, commit] at new
    have hardState : (m.followedUpTo leaderCommit).hardState =
        ⟨b.currentTerm, b.votedFor, min leaderCommit b.lastLogIndex⟩ := by
      rw [followedUpTo, ShardActor.hardState, term, vote, last, Nat.max_eq_right new.2.le]
    rw [followWrites, if_pos new.2, hardState] at act
    simp only [commitTo]
    split
    case h_1 d error h =>
      exact .failed_second h (performs_saveMeta _) alive act first (store _) _
    case h_2 d h =>
      obtain ⟨memory', second⟩ := (performs_saveMeta _).done (congrArg Prod.snd h)
      rw [show (onStore _ _).1 = d from congrArg Prod.fst h] at memory' second
      have r : Reaches o a { d with commitIndex := min leaderCommit b.lastLogIndex } := by
        refine .act alive act ?_ ?_
        case refine_1 =>
          rw [followedUpTo, Nat.max_eq_right new.2.le, last]
          exact congrArg (fun x : ShardActor σ => { x with
            commitIndex := min leaderCommit m.lastLogIndex }) (memory'.trans memory)
        case refine_2 =>
          refine second.trans ?_
          rw [store, first, List.append_assoc, ← writes_append]
      obtain ⟨_, _, rfl⟩ := onStore_eq h
      have g := goes_applyCommitted (o := o) (r.sane sane) alive'
      exact ⟨r.trans g.reaches, g.caughtUp⟩

theorem goes_accept {error : Option String} {s : Appended σ} (t : a.Tidy) (alive : a.storageFault = none)
    {req : AppendEntriesReq} (asked : o.event = .message (.appendEntries req)) (admits : a.Admits req)
    (stored : appendLoop ⟨a, false, false⟩ req.prevLogIndex req.entries = .ok s)
    (saved : persistAppended s = (b, error)) (operation : String) :
    Goes o a (error.elim (b.followCommit req.leaderCommit) (b.failStorage operation)) := by
  have act := Act.accept (o := o) req asked admits s stored
  have p := performs_persistAppended stored
  cases error
  case some => exact .failed_first saved p alive act rfl rfl _
  case none =>
    have ⟨memory, first⟩ := p.done (congrArg Prod.snd saved)
    rw [show (persistAppended s).1 = b from congrArg Prod.fst saved] at memory first
    have fault : (a.merged s).storageFault = a.storageFault := act.fault
    have alive' : b.storageFault = none := by
      have := congrArg storageFault memory
      simpa [bare, fault, alive] using this
    have caughtUp : (a.merged s).CaughtUp := by
      simp only [merged]
      split
      case isTrue => exact t.caughtUp
      case isFalse => split <;> exact t.caughtUp
    have store (steps : List DiskStep) : b.writes steps = a.writes steps := by
      rw [writes_congr memory, merged]
      split
      case isTrue => simp [writes, relogged, ShardActor.stored]
      case isFalse => split <;> simp [writes, lengthened, ShardActor.stored]
    exact goes_followCommit t.toSane alive act alive' caughtUp memory first store

end Follower

end ShardActor
