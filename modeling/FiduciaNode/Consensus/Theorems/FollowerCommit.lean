import FiduciaNode.Consensus.Theorems.Apply

-- The request holds a slice of a leader's log.
structure AppendEntriesReq.SliceOf (req : AppendEntriesReq) (ll : List LogEntry) : Prop where
  prev     : req.prevLogIndex ≤ ll.length
  prevTerm : req.prevLogTerm = Raft.termAt ll req.prevLogIndex
  entries  : ∃ n, req.entries = (ll.drop req.prevLogIndex).take n
  commit   : req.leaderCommit ≤ ll.length

theorem AppendEntriesReq.SliceOf.length_le {req : AppendEntriesReq} {ll : List LogEntry}
    (slice : req.SliceOf ll) : req.prevLogIndex + req.entries.length ≤ ll.length := by
  have ⟨_, entries⟩ := slice.entries
  have length := congrArg List.length entries
  have prev := slice.prev
  simp only [List.length_take, List.length_drop] at length
  omega

namespace ShardActor

variable {σ : Type} {a : ShardActor σ} {l ll : List LogEntry}
  {req : AppendEntriesReq} {n : Nat}

-- The log of a follower before a request: it matches the leader's and agrees with it on what is
-- committed.
structure Follows (a : ShardActor σ) (l ll : List LogEntry) : Prop where
  holds     : a.Holds l
  snapshot  : a.snapshotIndex ≤ a.lastApplied
  applied   : a.lastApplied ≤ a.commitIndex
  committed : a.commitIndex ≤ l.length
  fits      : ll.length ≤ U64.max
  positive  : ∀ e ∈ ll, 0 < e.term
  matching  : Raft.Matching l ll
  agree     : l.take a.commitIndex = ll.take a.commitIndex

namespace Follows

theorem congr {b : ShardActor σ} (f : a.Follows l ll) (r : b.replica = a.replica) :
    b.Follows l ll := by
  have holds := f.holds.congr r
  injection r with hs _ _ _ hc ha _
  exact ⟨holds, hs ▸ ha ▸ f.snapshot, ha ▸ hc ▸ f.applied, hc ▸ f.committed, f.fits, f.positive,
    f.matching, hc ▸ f.agree⟩

-- The check of the previous entry makes everything before it agree.
theorem prev_agree (f : a.Follows l ll) (hn : n ≤ ll.length)
    (hp : n = 0 ∨ a.termAt n = Raft.termAt ll n) : l.take n = ll.take n := by
  cases n
  case zero => rfl
  case succ n =>
    by_cases hc : n + 1 ≤ a.commitIndex
    case pos => exact Raft.take_eq_of_take_eq f.agree hc
    case neg =>
      have := f.snapshot
      have := f.applied
      have term : a.termAt (n + 1) = Raft.termAt ll (n + 1) := hp.resolve_left (by omega)
      rw [f.holds.termAt (by omega), Raft.termAt_succ, Raft.termAt_succ,
        List.getElem?_eq_getElem (by omega : n < ll.length), Option.elim_some] at term
      have pos : 0 < Raft.term ll[n] := f.positive _ (List.getElem_mem _)
      cases hl : l[n]?
      case none =>
        rw [hl, Option.elim_none] at term
        omega
      case some e =>
        rw [hl, Option.elim_some] at term
        exact f.matching n e ll[n] hl (List.getElem?_eq_getElem _) term

end Follows

-- The commit index that a follower with a log of `length` entries takes over.
def followed (commitIndex leaderCommit length : Nat) : Nat :=
  max commitIndex (min leaderCommit length)

theorem persistAppended_replica (s : Appended σ) :
    (persistAppended s).1.replica = s.actor.replica := by
  simp only [persistAppended]
  split
  case isTrue => exact replica_onStore _
  case isFalse =>
    split
    case isTrue => exact replica_onStore _
    case isFalse => rfl

variable [StateMachine σ]

theorem followCommit_holds (h : a.Holds l) (hs : a.snapshotIndex ≤ a.lastApplied)
    (ha : a.lastApplied ≤ a.commitIndex) (hf : (a.followCommit n).storageFault = none) :
    (a.followCommit n).Holds l ∧
    (a.followCommit n).commitIndex = followed a.commitIndex n l.length := by
  rw [followCommit, h.lastLogIndex] at hf ⊢
  split
  case isFalse hn =>
    simp only [Bool.and_eq_true, decide_eq_true_eq, not_and] at hn
    exact ⟨h, by unfold followed; omega⟩
  case isTrue hn =>
    simp only [Bool.and_eq_true, decide_eq_true_eq] at hn
    rw [if_pos (by simpa using hn), commitTo] at hf
    simp only [commitTo]
    split at hf
    case h_1 => simp [failStorage, failPendingUnavailable, drainPending] at hf
    case h_2 b he =>
      have r := congrArg (replica ·.1) he
      simp only [persistHardStateAt, replica_onStore] at r
      have hb := h.congr r.symm
      injection r with hs' _ _ _ hc' ha' _
      have := applyCommitted_holds (a := { b with commitIndex := min n l.length }) (l := l)
        ⟨hb.log, hb.snapshot, hb.term, hb.fits⟩ (by simp only; omega) (by simp only; omega)
        (by simp only; omega)
      refine ⟨this.1, this.2.trans ?_⟩
      unfold followed
      simp only
      omega

theorem appendFrom_holds (f : a.Follows l ll) (slice : req.SliceOf ll)
    (success : (a.appendFrom req).2.success = true) :
    l.take req.prevLogIndex = ll.take req.prevLogIndex ∧
    (a.appendFrom req).1.Holds (Raft.merge l req.prevLogIndex req.entries) ∧
    (a.appendFrom req).1.commitIndex = followed a.commitIndex req.leaderCommit
      (Raft.merge l req.prevLogIndex req.entries).length := by
  have ⟨n, entries⟩ := slice.entries
  simp only [appendFrom] at success ⊢
  split at success
  case isTrue => simp [appendResp] at success
  case isFalse hp =>
    simp only [gt_iff_lt, Bool.and_eq_true, decide_eq_true_eq, not_and, not_not] at hp
    rw [if_neg (by simpa using hp)]
    have prev := f.prev_agree slice.prev (by
      rw [← slice.prevTerm]
      by_cases h0 : req.prevLogIndex = 0
      case pos => exact .inl h0
      case neg => exact .inr (hp (by omega)))
    refine ⟨prev, ?_⟩
    have := f.snapshot
    have := f.applied
    have ⟨s, hs, frame, holds⟩ := appendLoop_eq (s := { actor := a, truncated := false, grew := false })
      f.holds f.matching entries slice.prev f.fits (by simp only; omega) f.agree f.committed prev
    simp only at frame
    simp only [hs] at success ⊢
    split at success
    case h_1 => simp [appendResp] at success
    case h_2 b he =>
      have r := congrArg (replica ·.1) he
      simp only [persistAppended_replica] at r
      have hb := holds.congr r.symm
      injection r with hs' _ _ _ hc' ha' _
      have hs' : b.snapshotIndex = a.snapshotIndex := by rw [← hs', frame]
      have hc' : b.commitIndex = a.commitIndex := by rw [← hc', frame]
      have ha' : b.lastApplied = a.lastApplied := by rw [← ha', frame]
      have cover : a.commitIndex ≤ (Raft.merge l req.prevLogIndex req.entries).length := by
        have committed := f.committed
        cases Raft.merge_eq f.matching entries slice.prev prev
        case inl h => rw [h.1]; omega
        case inr h =>
          rw [h.1]
          by_contra hlt
          refine h.2 (Raft.take_eq_of_take_eq f.agree ?_)
          have := congrArg List.length f.agree
          have := congrArg List.length entries
          simp only [List.length_take, List.length_drop] at *
          omega
      split at success
      case isTrue => simp [appendResp] at success
      case isFalse hf =>
        rw [if_neg hf]
        rw [Bool.not_eq_true, Option.isSome_eq_false_iff, Option.isNone_iff_eq_none] at hf
        have ⟨h₁, h₂⟩ := followCommit_holds hb (by omega) (by omega) hf
        exact ⟨h₁, by rw [← hc']; exact h₂⟩

-- A request that is answered with success gets to the check of the previous entry.
theorem handleAppendEntries_success (success : (a.handleAppendEntries req).2.success = true) :
    ∃ b : ShardActor σ, b.replica = a.replica ∧ a.handleAppendEntries req = b.appendFrom req := by
  have hr : (if req.term > a.currentTerm then a.stepDown req.term none else a).replica = a.replica := by
    split
    case isTrue => exact replica_stepDown _ _
    case isFalse => rfl
  simp only [handleAppendEntries] at success ⊢
  generalize (if req.term > a.currentTerm then a.stepDown req.term none else a) = b at *
  split at success
  case isTrue => simp [appendResp] at success
  case isFalse h₁ =>
    split at success
    case isTrue => simp [appendResp] at success
    case isFalse h₂ =>
      split at success
      case isTrue => simp [appendResp] at success
      case isFalse h₃ =>
        split at success
        case isTrue => simp [appendResp] at success
        case isFalse h₄ =>
          refine ⟨b.becomeFollowerOf req.leaderId, by rw [replica_becomeFollowerOf, hr], ?_⟩
          rw [if_neg h₁, if_neg h₂, if_neg h₃, if_neg h₄]

-- Whether the entries up to the commit index are the leader's is decided by the batch: the commit
-- index is only bounded by the length of the log, and not by what the request has checked.
theorem committed_agrees_iff (f : a.Follows l ll) (slice : req.SliceOf ll)
    (success : (a.handleAppendEntries req).2.success = true) :
    (a.handleAppendEntries req).1.Holds (Raft.merge l req.prevLogIndex req.entries) ∧
    ((Raft.merge l req.prevLogIndex req.entries).take (a.handleAppendEntries req).1.commitIndex =
        ll.take (a.handleAppendEntries req).1.commitIndex ↔
      Raft.merge l req.prevLogIndex req.entries ≠ l ∨
      l.take (min req.leaderCommit l.length) = ll.take (min req.leaderCommit l.length)) := by
  have ⟨b, hb, eq⟩ := handleAppendEntries_success success
  rw [eq] at success ⊢
  have f := f.congr hb
  have ⟨n, entries⟩ := slice.entries
  have ⟨prev, holds, commit⟩ := appendFrom_holds f slice success
  refine ⟨holds, ?_⟩
  rw [commit, followed]
  cases Raft.merge_eq f.matching entries slice.prev prev
  case inl h =>
    rw [h.1]
    simp only [ne_eq, not_true, false_or]
    by_cases hc : min req.leaderCommit l.length ≤ b.commitIndex
    case pos =>
      rw [Nat.max_eq_left hc]
      exact iff_of_true f.agree (Raft.take_eq_of_take_eq f.agree hc)
    case neg => rw [Nat.max_eq_right (by omega)]
  case inr h =>
    have length := congrArg List.length h.1
    have bound : b.commitIndex ≤ req.prevLogIndex + req.entries.length := by
      by_contra hlt
      exact h.2 (Raft.take_eq_of_take_eq f.agree (by omega))
    refine iff_of_true ?_ (.inl fun he => h.2 ?_)
    case refine_1 =>
      rw [h.1, List.take_take, List.length_take, Nat.min_eq_left (by omega)]
    case refine_2 =>
      rw [h.1] at he
      rw [← he, List.take_take, Nat.min_self]

section Divergence

-- A leader of term 2 has replaced what the leader of term 1 appended to a follower.
def noop (term index : Nat) : LogEntry where
  term         := term
  index        := index
  proposedAtMs := 0
  command      := none

def divergedLog : List LogEntry := [noop 1 1, noop 1 2, noop 1 3]

def leaderLog : List LogEntry := [noop 1 1, noop 2 2, noop 2 3]

def diverged : ShardActor Tally :=
  initial {
    shardId := 0, nodeId := "b", peers := ["a", "c"], dataDir := "", now := 0, nowMs := 0
    nowNanos := 0, timing := .default
  } { durableLen := 3, outcomes := [] } {
    currentTerm := 2, votedFor := none, commitIndex := 0, log := divergedLog, snapshot := none
  } StateMachine.new

-- The first entries of the log of the leader, which has committed all of it.
def firstEntries (n : Nat) : AppendEntriesReq where
  term            := 2
  leaderId        := "a"
  prevLogIndex    := 0
  prevLogTerm     := 0
  entries         := leaderLog.take n
  leaderCommit    := 3
  commandProtocol := Command.currentCommandProtocol

theorem diverged_follows : diverged.Follows divergedLog leaderLog where
  holds     := ⟨rfl, by decide, rfl, by decide⟩
  snapshot  := by decide
  applied   := by decide
  committed := by decide
  fits      := by decide
  positive  := by decide
  agree     := rfl
  matching  := by
    intro i e₁ e₂ h₁ h₂ ht
    match i with
    | 0 => rfl
    | 1 | 2 =>
      cases h₁
      cases h₂
      contradiction
    | i + 3 => cases h₁

theorem firstEntries_sliceOf (n : Nat) : (firstEntries n).SliceOf leaderLog where
  prev     := Nat.zero_le _
  prevTerm := rfl
  entries  := ⟨n, rfl⟩
  commit   := le_refl 3

-- A batch of one entry says nothing about the others, and yet they get committed.
theorem diverged_committed :
    diverged.Follows divergedLog leaderLog ∧
    (firstEntries 1).SliceOf leaderLog ∧
    (diverged.handleAppendEntries (firstEntries 1)).2.success = true ∧
    (diverged.handleAppendEntries (firstEntries 1)).1.snapshotIndex = 0 ∧
    (diverged.handleAppendEntries (firstEntries 1)).1.commitIndex = 3 ∧
    (diverged.handleAppendEntries (firstEntries 1)).1.log.take 3 ≠ leaderLog.take 3 := by
  refine ⟨diverged_follows, firstEntries_sliceOf 1, ?_, ?_, ?_, fun h => ?_⟩
  case refine_1 | refine_2 | refine_3 => decide +kernel
  case refine_4 => exact absurd (congrArg (List.map (·.term)) h) (by decide +kernel)

-- A batch that reaches the divergence repairs the log.
theorem diverged_repaired :
    (diverged.handleAppendEntries (firstEntries 2)).1.commitIndex = 2 ∧
    (Raft.merge divergedLog 0 (leaderLog.take 2)).take 2 = leaderLog.take 2 := by
  have commit : (diverged.handleAppendEntries (firstEntries 2)).1.commitIndex = 2 := by
    decide +kernel
  have ⟨_, agrees⟩ := committed_agrees_iff diverged_follows (firstEntries_sliceOf 2)
    (by decide +kernel)
  rw [commit] at agrees
  exact ⟨commit, agrees.mpr (.inl fun h => absurd (congrArg List.length h) (by decide))⟩

end Divergence

end ShardActor
