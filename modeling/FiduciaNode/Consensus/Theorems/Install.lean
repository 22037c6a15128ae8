import FiduciaNode.Consensus.Theorems.Numbered

namespace ShardActor

variable {σ : Type} {a b : ShardActor σ} {req : InstallSnapshotReq}

-- The log has an entry of the term at the index.
def HasEntry (a : ShardActor σ) (index term : Nat) : Prop :=
  ∃ entry ∈ a.log, entry.index = index ∧ entry.term = term

theorem Numbered.congr (h : a.Numbered) (r : b.replica = a.replica) : b.Numbered := by
  injection r with hs _ _ hl hc ha _
  exact ⟨by rw [hs, hl]; exact h.index, hs ▸ ha ▸ h.snapshot, ha ▸ hc ▸ h.applied, by
    simp only [lastLogIndex, hs, hl, hc]
    exact h.committed⟩

-- The term of an index past the snapshot is that of the entry there.
theorem Numbered.hasEntry_iff (h : a.Numbered) {index term : Nat} (newer : a.snapshotIndex < index)
    (pos : term ≠ 0) : a.HasEntry index term ↔ a.termAt index = term := by
  have at_ : a.termAt index = (a.log[index - a.snapshotIndex - 1]?).elim 0 (·.term) := by
    rw [termAt, if_neg (by omega), if_neg (by omega), if_neg (by omega)]
  rw [at_]
  constructor
  case mp =>
    rintro ⟨entry, mem, eq, ht⟩
    obtain ⟨k, hk⟩ := List.mem_iff_getElem?.mp mem
    have := h.index k entry hk
    have : index - a.snapshotIndex - 1 = k := by omega
    rw [this, hk]
    exact ht
  case mpr =>
    intro ht
    cases present : a.log[index - a.snapshotIndex - 1]?
    case none =>
      rw [present] at ht
      exact absurd ht.symm pos
    case some entry =>
      rw [present] at ht
      have := h.index _ entry present
      exact ⟨entry, List.mem_of_getElem? present, by omega, ht⟩

theorem catchUp_replica (term : Nat) :
    (if term > a.currentTerm then a.stepDown term none else a).replica = a.replica := by
  split
  case isTrue => exact replica_stepDown _ _
  case isFalse => rfl

theorem matched_iff (req : InstallSnapshotReq) :
    ((req.lastIncludedIndex == 0) != (req.lastIncludedTerm == 0)) = false ↔
      (req.lastIncludedIndex = 0 ↔ req.lastIncludedTerm = 0) := by
  by_cases hi : req.lastIncludedIndex = 0 <;> by_cases ht : req.lastIncludedTerm = 0 <;> simp [hi, ht]

variable [StateMachine σ]

-- What a snapshot needs in order to be installed, apart from the writes.
structure Offers (a : ShardActor σ) (req : InstallSnapshotReq) : Prop where
  current  : a.currentTerm ≤ req.term
  matched  : req.lastIncludedIndex = 0 ↔ req.lastIncludedTerm = 0
  past     : req.lastIncludedTerm ≤ req.term
  beyond   : a.commitIndex < req.lastIncludedIndex
  readable : ∃ restored : σ, StateMachine.restore req.state = .ok restored

structure InstalledFrom (a : ShardActor σ) (req : InstallSnapshotReq) (b : ShardActor σ) : Prop where
  snapshot  : b.snapshotIndex = req.lastIncludedIndex
  committed : b.commitIndex = req.lastIncludedIndex
  applied   : b.lastApplied = req.lastIncludedIndex
  commits   : a.commitIndex < b.commitIndex
  applies   : a.lastApplied < b.lastApplied
  state     : StateMachine.restore req.state = .ok b.state
  kept      : a.HasEntry req.lastIncludedIndex req.lastIncludedTerm →
    b.log = a.log.drop (req.lastIncludedIndex - a.snapshotIndex)
  dropped   : ¬a.HasEntry req.lastIncludedIndex req.lastIncludedTerm → b.log = []

section Install

theorem install_cases {restored : σ} (numbered : a.Numbered) (alive : a.storageFault = none)
    (newer : a.commitIndex < req.lastIncludedIndex) (term : req.lastIncludedTerm ≠ 0)
    (readable : StateMachine.restore req.state = .ok restored) :
    ((a.install req restored).1.storageFault.isSome ∧
      (a.install req restored).1.replica = a.replica) ∨
    ((a.install req restored).1.storageFault = none ∧
      InstalledFrom a req (a.install req restored).1) := by
  have := numbered.snapshot
  have := numbered.applied
  have later : a.snapshotIndex < req.lastIncludedIndex := by omega
  simp only [install]
  split
  case h_1 b error h => exact .inl ⟨(failStorage_halted _ _).fault, (replica_saved h).1⟩
  case h_2 b h =>
    obtain ⟨_, _, rfl⟩ := onStore_eq h
    split
    case h_1 c error h' => exact .inl ⟨(failStorage_halted _ _).fault, (replica_saved h').1⟩
    case h_2 c h' =>
      obtain ⟨_, _, rfl⟩ := onStore_eq h'
      refine .inr ⟨alive, rfl, Nat.max_eq_right newer.le, rfl, ?_, ?_, readable, ?_, ?_⟩
      case refine_1 => exact Nat.lt_of_lt_of_le newer (Nat.le_max_right _ _)
      case refine_2 =>
        simp only [snapshotResp]
        omega
      case refine_3 =>
        intro same
        simp only [snapshotResp]
        rw [if_pos (by simpa using (numbered.hasEntry_iff later term).mp same),
          ← numbered.filter_index later.le]
      case refine_4 =>
        intro other
        simp only [snapshotResp]
        rw [if_neg (by simpa using fun h => other ((numbered.hasEntry_iff later term).mpr h))]

end Install

theorem handleInstallSnapshot_cases (numbered : a.Numbered) (req : InstallSnapshotReq) :
    ((a.handleInstallSnapshot req).1.replica = a.replica ∧
      (a.Offers req → (a.handleInstallSnapshot req).1.storageFault.isSome)) ∨
    (a.Offers req ∧ (a.handleInstallSnapshot req).1.storageFault = none ∧
      InstalledFrom a req (a.handleInstallSnapshot req).1) := by
  simp only [handleInstallSnapshot]
  split
  case isTrue fault => exact .inl ⟨rfl, fun _ => fault⟩
  case isFalse =>
    split
    case isTrue stale => exact .inl ⟨rfl, fun o => absurd o.current (Nat.not_le.mpr stale)⟩
    case isFalse current =>
      have same := catchUp_replica (a := a) req.term
      generalize (if req.term > a.currentTerm then a.stepDown req.term none else a) = b at same ⊢
      split
      case isTrue fault => exact .inl ⟨same, fun _ => fault⟩
      case isFalse alive =>
        split
        case isTrue invalid =>
          simp only [Bool.or_eq_true, decide_eq_true_eq] at invalid
          refine .inl ⟨same, fun o => ?_⟩
          rcases invalid with mismatched | future
          case inl =>
            rw [(matched_iff req).mpr o.matched] at mismatched
            contradiction
          case inr => exact absurd o.past (Nat.not_le.mpr future)
        case isFalse valid =>
          simp only [Bool.or_eq_true, decide_eq_true_eq, not_or, Bool.not_eq_true, matched_iff,
            gt_iff_lt, Nat.not_lt] at valid
          have same : (b.becomeFollowerOf req.leaderId).replica = a.replica := same
          have alive : b.storageFault = none := by simpa using alive
          have alive : (b.becomeFollowerOf req.leaderId).storageFault = none := alive
          generalize b.becomeFollowerOf req.leaderId = b at same alive ⊢
          have numbered' := numbered.congr same
          have := numbered'.snapshot
          have := numbered'.applied
          have commit : b.commitIndex = a.commitIndex := congrArg Replica.commitIndex same
          split
          case isTrue covered => exact .inl ⟨same, fun o => by have := o.beyond; omega⟩
          case isFalse =>
            split
            case isTrue covered => exact .inl ⟨same, fun o => by have := o.beyond; omega⟩
            case isFalse beyond =>
              split
              case h_1 error unreadable =>
                refine .inl ⟨same, fun o => ?_⟩
                obtain ⟨restored, readable⟩ := o.readable
                rw [unreadable] at readable
                contradiction
              case h_2 restored readable =>
                have term : req.lastIncludedTerm ≠ 0 := fun h => by have := valid.1.mpr h; omega
                rcases install_cases numbered' alive (by omega) term readable with
                  ⟨fault, replica⟩ | ⟨alive, installed⟩
                case inl => exact .inl ⟨replica.trans same, fun _ => fault⟩
                case inr =>
                  refine .inr ⟨⟨by omega, valid.1, valid.2, by omega, restored, readable⟩, alive, ?_⟩
                  injection same with hs _ _ hl hc ha _
                  exact ⟨installed.snapshot, installed.committed, installed.applied,
                    hc ▸ installed.commits, ha ▸ installed.applies, installed.state,
                    by have := installed.kept; rwa [HasEntry, hl, hs] at this,
                    by have := installed.dropped; rwa [HasEntry, hl] at this⟩

-- A request that is refused, or fails to be saved, leaves the replica as it is. Any other one takes it
-- forward.
theorem handleInstallSnapshot_forward (numbered : a.Numbered) (req : InstallSnapshotReq) :
    (¬a.Offers req ∨ (a.handleInstallSnapshot req).1.storageFault.isSome →
      (a.handleInstallSnapshot req).1.replica = a.replica) ∧
    (a.Offers req → (a.handleInstallSnapshot req).1.storageFault = none →
      InstalledFrom a req (a.handleInstallSnapshot req).1) := by
  rcases handleInstallSnapshot_cases numbered req with ⟨same, faulty⟩ | ⟨offers, alive, installed⟩
  case inl =>
    exact ⟨fun _ => same, fun offers alive => absurd (faulty offers) (by simp [alive])⟩
  case inr =>
    refine ⟨fun h => ?_, fun _ _ => installed⟩
    rcases h with refused | fault
    case inl => exact absurd offers refused
    case inr => simp [alive] at fault

-- The snapshot of three entries that a fresh member is offered.
def offered : InstallSnapshotReq where
  term              := 1
  leaderId          := "b"
  lastIncludedIndex := 3
  lastIncludedTerm  := 1
  state             := [0, 0]

omit [StateMachine σ] in
theorem offered_forward :
    let fresh : ShardActor Tally := boot pair .empty []
    fresh.Offers offered ∧ (fresh.handleInstallSnapshot offered).1.storageFault = none ∧
    InstalledFrom fresh offered (fresh.handleInstallSnapshot offered).1 := by
  let := PeerPlane.fixed
  intro fresh
  have trace : Trace Disk.Ranged Regular [] [] fresh := .boot pair .empty [] fun _ h => nomatch h
  have offers : fresh.Offers offered :=
    ⟨by decide +kernel, by decide, by decide, by decide +kernel, ⟨2⟩, rfl⟩
  have alive : (fresh.handleInstallSnapshot offered).1.storageFault = none := by decide +kernel
  exact ⟨offers, alive, (handleInstallSnapshot_forward trace.fitting.toNumbered offered).2 offers alive⟩

end ShardActor
