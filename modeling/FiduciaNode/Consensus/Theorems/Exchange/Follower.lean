import FiduciaNode.Consensus.Theorems.Exchange.Healthy

-- The log of a leader of the term.
structure Authored (ll : List LogEntry) (term : Nat) : Prop where
  fits     : ll.length ≤ U64.max
  index    : ∀ k entry, ll[k]? = some entry → entry.index = k + 1
  positive : ∀ entry ∈ ll, 0 < entry.term
  term     : ∀ entry ∈ ll, entry.term ≤ term

theorem Authored.wellFormed {ll es : List LogEntry} {term i n : Nat} (h : Authored ll term)
    (slice : es = (ll.drop i).take n) : ShardActor.wellFormed term i es := by
  induction es generalizing i n
  case nil => rfl
  case cons entry es ih =>
    have ⟨taken, rest⟩ := Raft.take_succ_of_drop slice
    have lt : i < ll.length := by
      have := congrArg List.length taken
      simp only [List.length_append, List.length_take, List.length_singleton] at this
      omega
    have eq : ll[i]? = some entry := by
      have := congrArg (·[i]?) taken
      simpa [List.getElem?_take_of_lt, lt.le] using this
    have mem := List.mem_of_getElem? eq
    have next : U64.checkedAdd i 1 = some (i + 1) :=
      U64.checkedAdd_eq_some_iff.mpr ⟨rfl, by have := h.fits; omega⟩
    have positive := h.positive entry mem
    simp only [ShardActor.wellFormed, next, Bool.and_eq_true, decide_eq_true_eq]
    exact ⟨⟨⟨h.index i entry eq, by omega⟩, h.term entry mem⟩, ih rest⟩

theorem Authored.termAt_pos {ll : List LogEntry} {term i : Nat} (h : Authored ll term) (pos : 0 < i)
    (le : i ≤ ll.length) : 0 < Raft.termAt ll i := by
  have lt : i - 1 < ll.length := by omega
  rw [show i = i - 1 + 1 by omega, Raft.termAt_succ, List.getElem?_eq_getElem lt]
  exact h.positive _ (List.getElem_mem lt)

theorem Authored.termAt_le {ll : List LogEntry} {term : Nat} (h : Authored ll term) (i : Nat) :
    Raft.termAt ll i ≤ term := by
  cases i
  case zero => exact Nat.zero_le _
  case succ i =>
    rw [Raft.termAt_succ]
    cases hi : ll[i]?
    case none => exact Nat.zero_le _
    case some entry => exact h.term entry (List.mem_of_getElem? hi)

namespace ShardActor

variable {σ : Type} {a : ShardActor σ} {l ll : List LogEntry} {term : Nat}

theorem Healthy.stepDown (h : a.Healthy) (le : a.currentTerm ≤ term) (leader : Option String) :
    (a.stepDown term leader).Healthy := by
  have h' : Healthy { a.adopted term with leaderId := leader } := ⟨h.alive, h.store⟩
  have ⟨b, eq, s⟩ := h'.persistHardStateAt a.commitIndex
  have eq : persistHardState { a.adopted term with leaderId := leader } = (b, none) := eq
  rw [stepDown_eq le, eq]
  exact ⟨s.healthy.alive, s.healthy.store⟩

theorem Healthy.caughtUp (h : a.Healthy) (le : a.currentTerm ≤ term) :
    (if term > a.currentTerm then a.stepDown term none else a).Healthy ∧
    (if term > a.currentTerm then a.stepDown term none else a).replica = a.replica ∧
    (if term > a.currentTerm then a.stepDown term none else a).currentTerm = term := by
  split
  case isTrue => exact ⟨h.stepDown le none, replica_stepDown _ _, stepDown_term le⟩
  case isFalse => exact ⟨h, rfl, by omega⟩

-- What is committed stays as it is.
theorem Follows.merge_committed {req : AppendEntriesReq} (f : a.Follows l ll) (slice : req.SliceOf ll)
    (prev : l.take req.prevLogIndex = ll.take req.prevLogIndex) :
    (Raft.merge l req.prevLogIndex req.entries).take a.commitIndex = l.take a.commitIndex ∧
    a.commitIndex ≤ (Raft.merge l req.prevLogIndex req.entries).length := by
  have ⟨n, entries⟩ := slice.entries
  cases Raft.merge_eq f.matching entries slice.prev prev
  case inl h =>
    rw [h.1]
    exact ⟨rfl, f.committed⟩
  case inr h =>
    have within : a.commitIndex ≤ req.prevLogIndex + req.entries.length := by
      by_contra past
      exact h.2 (Raft.take_eq_of_take_eq f.agree (by omega))
    have length := congrArg List.length f.agree
    have committed := f.committed
    rw [h.1]
    simp only [List.length_take, List.take_take] at length ⊢
    exact ⟨by rw [Nat.min_eq_left within, f.agree], by omega⟩

theorem persistAppended_healthy {s : Appended σ} (h : s.actor.Healthy) :
    ∃ b, persistAppended s = (b, none) ∧ Stores s.actor b := by
  simp only [persistAppended]
  split
  case isTrue => exact h.onStore (ShardStore.safe_rewrite _)
  case isFalse =>
    split
    case isTrue => exact h.onStore (ShardStore.safe_appendTail _)
    case isFalse => exact ⟨s.actor, rfl, h, .refl _, rfl, .of_eq rfl⟩

variable [StateMachine σ]

-- The follower of a leader of the term: it matches the log of the leader and agrees with it on what
-- is committed.
structure Trails (a : ShardActor σ) (l ll : List LogEntry) (term : Nat) : Prop where
  carries  : a.Carries l
  term     : a.currentTerm ≤ term
  matching : Raft.Matching l ll
  agree    : l.take a.commitIndex = ll.take a.commitIndex

theorem Trails.follows (t : a.Trails l ll term) (h : Authored ll term) : a.Follows l ll where
  holds     := t.carries.holds
  snapshot  := t.carries.snapshot
  applied   := t.carries.applied
  committed := t.carries.committed
  fits      := h.fits
  positive  := h.positive
  matching  := t.matching
  agree     := t.agree

section Append

-- A request of a current leader gets to the check of the previous entry.
theorem handleAppendEntries_caughtUp {req : AppendEntriesReq} (h : a.Healthy)
    (le : a.currentTerm ≤ req.term) (authored : Authored ll req.term) (slice : req.SliceOf ll) :
    ∃ b : ShardActor σ, b.Healthy ∧ b.replica = a.replica ∧ b.currentTerm = req.term ∧
      a.handleAppendEntries req = b.appendFrom req := by
  have ⟨_, entries⟩ := slice.entries
  have prev : req.prevLogTerm ≤ req.term := slice.prevTerm ▸ authored.termAt_le _
  have ⟨hb, rb, tb⟩ := h.caughtUp le
  have wf := authored.wellFormed entries
  simp only [handleAppendEntries, h.alive, Option.isSome_none, Bool.false_eq_true, if_false,
    Nat.not_lt.mpr le]
  generalize (if req.term > a.currentTerm then a.stepDown req.term none else a) = b at hb rb tb ⊢
  refine ⟨b.becomeFollowerOf req.leaderId, ⟨hb.alive, hb.store⟩, rb, tb, ?_⟩
  simp only [hb.alive, Option.isSome_none, Bool.false_eq_true, if_false, wf, Bool.not_true, Bool.or_false,
    decide_eq_true_eq, gt_iff_lt, Nat.not_lt.mpr prev]

theorem Carries.followCommit [Lossless σ] (c : a.Carries l) (h : a.Healthy) (n : Nat) :
    (a.followCommit n).Healthy ∧ (a.followCommit n).Carries l ∧
    (a.followCommit n).currentTerm = a.currentTerm ∧
    (a.followCommit n).commitIndex = followed a.commitIndex n l.length := by
  simp only [ShardActor.followCommit, c.holds.lastLogIndex]
  split
  case isFalse hn =>
    simp only [Bool.and_eq_true, decide_eq_true_eq, not_and] at hn
    exact ⟨h, c, rfl, by unfold followed; omega⟩
  case isTrue hn =>
    simp only [Bool.and_eq_true, decide_eq_true_eq] at hn
    have settled := c.commitTo_settled h (n := min n l.length) (by omega) (by omega)
      "persisting follower commit index"
    refine ⟨settled.healthy, settled.carries, settled.settles.term, settled.commit.trans ?_⟩
    unfold followed
    simp only
    omega

-- A follower that agrees on the previous entry takes the entries over.
theorem appendFrom_accepts [Lossless σ] {req : AppendEntriesReq} (c : a.Carries l) (h : a.Healthy)
    (f : a.Follows l ll) (slice : req.SliceOf ll)
    (agrees : req.prevLogIndex = 0 ∨ a.termAt req.prevLogIndex = req.prevLogTerm) :
    ∃ b : ShardActor σ, a.appendFrom req = b.appendResp true b.lastLogIndex ∧ b.Healthy ∧
      b.currentTerm = a.currentTerm ∧ b.Carries (Raft.merge l req.prevLogIndex req.entries) ∧
      b.commitIndex = followed a.commitIndex req.leaderCommit
        (Raft.merge l req.prevLogIndex req.entries).length := by
  have ⟨n, entries⟩ := slice.entries
  have prev := f.prev_agree slice.prev (agrees.imp_right (·.trans slice.prevTerm))
  have ⟨s, appended, frame, holds⟩ := appendLoop_eq (s := { actor := a, truncated := false, grew := false })
    f.holds f.matching entries slice.prev f.fits (f.snapshot.trans f.applied) f.agree f.committed prev
  have ⟨kept, covered⟩ := f.merge_committed slice prev
  have upTo {i : Nat} (le : i ≤ a.commitIndex) :
      (Raft.merge l req.prevLogIndex req.entries).take i = l.take i := Raft.take_eq_of_take_eq kept le
  have cs : s.actor.Carries (Raft.merge l req.prevLogIndex req.entries) := by
    refine ⟨holds, ?_, ?_, ?_, ?_, ?_⟩
    case refine_1 =>
      rw [frame]
      exact c.snapshot
    case refine_2 =>
      rw [frame]
      exact c.applied
    case refine_3 =>
      rw [frame]
      exact covered
    case refine_4 =>
      rw [frame, upTo c.applied]
      exact c.state
    case refine_5 =>
      rw [frame, upTo (c.snapshot.trans c.applied)]
      exact c.bytes
  have hs : s.actor.Healthy := by
    rw [frame]
    exact ⟨h.alive, h.store⟩
  have ⟨b, saved, st⟩ := persistAppended_healthy hs
  have ⟨healthy, carries, term, commit⟩ := (cs.congr st.replica).followCommit st.healthy req.leaderCommit
  refine ⟨b.followCommit req.leaderCommit, ?_, healthy, ?_, carries, ?_⟩
  case refine_1 =>
    have passes : (decide (req.prevLogIndex > 0) && decide (a.termAt req.prevLogIndex ≠ req.prevLogTerm))
        = false := by
      rcases agrees with zero | same
      case inl => simp [zero]
      case inr => simp [same]
    simp only [appendFrom, passes, Bool.false_eq_true, if_false, appended, saved, healthy.alive,
      Option.isSome_none]
  case refine_2 =>
    rw [term, st.settles.term, frame]
  case refine_3 =>
    rw [commit, show b.commitIndex = s.actor.commitIndex from congrArg Replica.commitIndex st.replica, frame]

end Append

section Install

variable {req : InstallSnapshotReq}

-- A follower whose log does not go along with a newer snapshot has nothing else after it.
theorem handleInstallSnapshot_accepts [Lossless σ] (c : a.Carries l) (h : a.Healthy)
    (le : a.currentTerm ≤ req.term) (authored : Authored ll req.term)
    (last : req.lastIncludedIndex ≤ ll.length)
    (lastTerm : req.lastIncludedTerm = Raft.termAt ll req.lastIncludedIndex)
    (restores : StateMachine.restore req.state = .ok (replay (ll.take req.lastIncludedIndex) : σ))
    (newer : a.commitIndex < req.lastIncludedIndex)
    (conflict : a.termAt req.lastIncludedIndex ≠ req.lastIncludedTerm) :
    ∃ b : ShardActor σ, a.handleInstallSnapshot req = b.snapshotResp true req.lastIncludedIndex ∧
      b.Healthy ∧ b.currentTerm = req.term ∧ b.Carries (ll.take req.lastIncludedIndex) ∧
      b.commitIndex = req.lastIncludedIndex := by
  have positive : 0 < req.lastIncludedTerm := lastTerm ▸ authored.termAt_pos (by omega) last
  have termLe : req.lastIncludedTerm ≤ req.term := lastTerm ▸ authored.termAt_le _
  have metadata : ((req.lastIncludedIndex == 0) != (req.lastIncludedTerm == 0) ||
      decide (req.lastIncludedTerm > req.term)) = false := by
    rw [beq_eq_false_iff_ne.mpr (by omega), beq_eq_false_iff_ne.mpr positive.ne',
      decide_eq_false (Nat.not_lt.mpr termLe)]
    rfl
  have ⟨hb, rb, tb⟩ := h.caughtUp le
  simp only [handleInstallSnapshot, h.alive, Option.isSome_none, Bool.false_eq_true, if_false,
    Nat.not_lt.mpr le]
  generalize (if req.term > a.currentTerm then a.stepDown req.term none else a) = b at hb rb tb ⊢
  simp only [hb.alive, Option.isSome_none, Bool.false_eq_true, if_false, metadata]
  have hf : (b.becomeFollowerOf req.leaderId).Healthy := ⟨hb.alive, hb.store⟩
  have rf : (b.becomeFollowerOf req.leaderId).replica = a.replica := rb
  have tf : (b.becomeFollowerOf req.leaderId).currentTerm = req.term := tb
  generalize b.becomeFollowerOf req.leaderId = b at hf rf tf ⊢
  have snapshot : b.snapshotIndex = a.snapshotIndex := congrArg Replica.snapshotIndex rf
  have commit : b.commitIndex = a.commitIndex := congrArg Replica.commitIndex rf
  have := c.snapshot
  have := c.applied
  have differs : b.termAt req.lastIncludedIndex ≠ req.lastIncludedTerm := by
    injection rf with hs ht _ hl
    simpa only [ShardActor.termAt, hs, ht, hl] using conflict
  rw [if_neg (by omega), if_neg (by omega), restores]
  simp only [ShardActor.install, differs, if_false]
  obtain ⟨d, saved, sd⟩ := hf.onStore (ShardStore.safe_saveSnapshot
    ⟨req.lastIncludedIndex, req.lastIncludedTerm, req.state⟩ [])
  obtain ⟨d', written, sd'⟩ := sd.healthy.persistHardStateAt (max d.commitIndex req.lastIncludedIndex)
  simp only [saved, written]
  have reached : max d.commitIndex req.lastIncludedIndex = req.lastIncludedIndex := by
    have : d.commitIndex = b.commitIndex := congrArg Replica.commitIndex sd.replica
    omega
  rw [reached]
  refine ⟨_, rfl, ⟨sd'.healthy.alive, sd'.healthy.store⟩, ?_, ?_, rfl⟩
  case refine_1 => exact sd'.settles.term.trans (sd.settles.term.trans tf)
  case refine_2 =>
    refine ⟨⟨?_, ?_, ?_, ?_⟩, le_rfl, le_rfl, ?_, ?_, .inr ?_⟩
    case refine_1 => simp
    case refine_2 => simp [last]
    case refine_3 =>
      rw [lastTerm]
      exact Raft.termAt_of_take_eq (n := req.lastIncludedIndex) (by rw [List.take_take, Nat.min_self]) le_rfl
    case refine_4 =>
      have := authored.fits
      simp only [List.length_take]
      omega
    case refine_5 => simp [last]
    case refine_6 => rw [List.take_take, Nat.min_self]
    case refine_7 => rw [List.take_take, Nat.min_self, restores]

end Install

end ShardActor
