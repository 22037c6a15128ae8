import FiduciaNode.Raft.Log
import FiduciaNode.Consensus.Handle

instance : Raft.Entry LogEntry where
  term := LogEntry.term

namespace ShardActor

variable {σ : Type} {a b : ShardActor σ} {l ll : List LogEntry} {i n : Nat}

-- The part of an actor that its log and its state machine make up.
structure Replica (σ : Type) where
  snapshotIndex : Nat
  snapshotTerm  : Nat
  snapshotState : List UInt8
  log           : List LogEntry
  commitIndex   : Nat
  lastApplied   : Nat
  state         : σ

def replica (a : ShardActor σ) : Replica σ where
  snapshotIndex := a.snapshotIndex
  snapshotTerm  := a.snapshotTerm
  snapshotState := a.snapshotState
  log           := a.log
  commitIndex   := a.commitIndex
  lastApplied   := a.lastApplied
  state         := a.state

section Frame

@[simp]
theorem replica_resetElectionDeadline : a.resetElectionDeadline.replica = a.replica :=
  rfl

@[simp]
theorem replica_onStore (op : ShardStore → ShardStore.Result) :
    (a.onStore op).1.replica = a.replica := by
  simp only [onStore]
  split <;> rfl

@[simp]
theorem replica_failPending : a.failPending.replica = a.replica :=
  rfl

@[simp]
theorem replica_failStorage (operation error : String) :
    (a.failStorage operation error).replica = a.replica :=
  rfl

@[simp]
theorem replica_stepDown (term : Nat) (leader : Option String) :
    (a.stepDown term leader).replica = a.replica := by
  simp only [stepDown]
  split
  case isTrue => rfl
  case isFalse =>
    split
    all_goals
      rename_i h
      have := congrArg (replica ·.1) h
      simp only [persistHardState, persistHardStateAt, replica_onStore] at this
      simp only [replica_failStorage, replica_failPending, replica_resetElectionDeadline, ← this]
      split <;> rfl

@[simp]
theorem replica_becomeFollowerOf (leader : String) :
    (a.becomeFollowerOf leader).replica = a.replica :=
  rfl

end Frame

-- The log of the actor is what follows the snapshot in `l`.
structure Holds (a : ShardActor σ) (l : List LogEntry) : Prop where
  log      : a.log = l.drop a.snapshotIndex
  snapshot : a.snapshotIndex ≤ l.length
  term     : a.snapshotTerm = Raft.termAt l a.snapshotIndex
  fits     : l.length ≤ U64.max

namespace Holds

theorem congr (h : a.Holds l) (r : b.replica = a.replica) : b.Holds l := by
  injection r with hi ht _ hl
  exact ⟨by rw [hl, hi, h.log], hi ▸ h.snapshot, by rw [ht, hi, h.term], h.fits⟩

theorem length (h : a.Holds l) : a.snapshotIndex + a.log.length = l.length := by
  have := h.snapshot
  rw [h.log, List.length_drop]
  omega

theorem lastLogIndex (h : a.Holds l) : a.lastLogIndex = l.length := by
  have := h.fits
  simp only [ShardActor.lastLogIndex, U64.saturatingAdd, h.length]
  omega

theorem entryAt (h : a.Holds l) (hi : a.snapshotIndex ≤ i) :
    a.log[i - a.snapshotIndex]? = l[i]? := by
  rw [h.log, List.getElem?_drop]
  congr 1
  omega

theorem termAt (h : a.Holds l) (hi : a.snapshotIndex ≤ i) : a.termAt i = Raft.termAt l i := by
  cases i
  case zero => rfl
  case succ i =>
    simp only [ShardActor.termAt, Nat.add_eq_zero_iff, one_ne_zero, and_false, if_false]
    split
    case isTrue e => rw [h.term, e]
    case isFalse ne =>
      rw [if_neg (by omega), Raft.termAt_succ, ← h.entryAt (by omega)]
      congr 2
      omega

end Holds

section Append

-- What the loop of a follower does to its log is what storing the entries does to the full log,
-- provided that it finds no conflict in what the snapshot and the commit index cover.
theorem appendLoop_eq {s : Appended σ} {es : List LogEntry} (h : s.actor.Holds l)
    (m : Raft.Matching l ll) (slice : es = (ll.drop i).take n) (hi : i ≤ ll.length)
    (fits : ll.length ≤ U64.max) (committed : s.actor.snapshotIndex ≤ s.actor.commitIndex)
    (agree : l.take s.actor.commitIndex = ll.take s.actor.commitIndex)
    (hc : s.actor.commitIndex ≤ l.length) (prev : l.take i = ll.take i) :
    ∃ s' : Appended σ, appendLoop s i es = .ok s' ∧
      s'.actor = { s.actor with log := s'.actor.log } ∧ s'.actor.Holds (Raft.merge l i es) := by
  induction es generalizing l i n s
  case nil => exact ⟨s, rfl, rfl, h⟩
  case cons e es ih =>
    have ⟨hl, hs⟩ := Raft.take_succ_of_drop slice
    have len : (ll.take (i + 1)).length = i + 1 := by
      rw [hl, List.length_append, List.length_take, Nat.min_eq_left hi]
      rfl
    have hi' : i + 1 ≤ ll.length := by simpa using len
    have he : ll[i]? = some e := by
      have := congrArg (·[i]?) hl
      simpa [List.getElem?_take_of_lt, hi] using this
    have same {j : Nat} (hj : j < s.actor.commitIndex) : l[j]? = ll[j]? := by
      rw [← List.getElem?_take_of_lt hj, agree, List.getElem?_take_of_lt hj]
    simp only [appendLoop]
    -- The log that is cut at the position and extended by the entry is a prefix of `ll`.
    have extend (t g : Bool) (hlong : s.actor.commitIndex ≤ i) (hm : Raft.merge l i (e :: es) =
        Raft.merge (l.take i ++ [e]) (i + 1) es) :
        ∃ s' : Appended σ, appendLoop {
            actor := { s.actor with log := s.actor.log.take (i - s.actor.snapshotIndex) ++ [e] }
            truncated := t, grew := g
          } (i + 1) es = .ok s' ∧
          s'.actor = { s.actor with log := s'.actor.log } ∧
          s'.actor.Holds (Raft.merge l i (e :: es)) := by
      have lt : l.take i ++ [e] = ll.take (i + 1) := by rw [prev, hl]
      have hle : i ≤ l.length := by
        have := congrArg List.length prev
        simp only [List.length_take] at this
        omega
      have h' : Holds { s.actor with log := s.actor.log.take (i - s.actor.snapshotIndex) ++ [e] }
          (l.take i ++ [e]) := by
        refine ⟨?_, ?_, ?_, ?_⟩
        case refine_1 =>
          rw [List.drop_append_of_le_length (by simp; omega), List.drop_take, h.log]
        case refine_2 => simp; omega
        case refine_3 =>
          simp only
          rw [h.term]
          refine Raft.termAt_of_take_eq (n := i) ?_ (by omega)
          rw [List.take_append_of_le_length (by simp; omega)]
          simp
        case refine_4 =>
          rw [lt, len]
          omega
      have prefixed : Raft.Matching (l.take i ++ [e]) ll := by
        intro j e₁ e₂ h₁ h₂ _
        have hj : j < (l.take i ++ [e]).length := (List.getElem?_eq_some_iff.mp h₁).1
        rw [lt, len] at hj
        rw [lt, List.take_take, Nat.min_eq_left (by omega)]
      have covered : s.actor.commitIndex ≤ (l.take i ++ [e]).length := by
        rw [lt, len]
        omega
      rw [hm]
      refine ih (s := { actor := { s.actor with
        log := s.actor.log.take (i - s.actor.snapshotIndex) ++ [e] }, truncated := t, grew := g })
        h' prefixed hs hi' committed ?_ covered ?_
      case refine_1 =>
        rw [lt, List.take_take, Nat.min_eq_left (by simp only; omega)]
      case refine_2 => rw [lt, List.take_take, Nat.min_self]
    split
    case isTrue skip =>
      have hx : l[i]? = some e := by rw [same (by omega), he]
      have hm : Raft.merge l i (e :: es) = Raft.merge l (i + 1) es := by
        rw [Raft.merge, hx]
        simp
      rw [hm]
      exact ih h m hs hi' committed agree hc (m i e e hx he rfl)
    case isFalse skip =>
      have off : i + 1 - s.actor.snapshotIndex - 1 = i - s.actor.snapshotIndex := by omega
      rw [off, h.entryAt (by omega)]
      split
      case h_1 hx =>
        have short : l.length ≤ i := List.getElem?_eq_none_iff.mp hx
        have := extend s.truncated true (by omega) (by
          rw [Raft.merge, hx, List.take_of_length_le short])
        rw [List.take_of_length_le (by rw [h.log, List.length_drop]; omega)] at this
        exact this
      case h_2 x hx =>
        split
        case isTrue ht =>
          have hm : Raft.merge l i (e :: es) = Raft.merge l (i + 1) es := by
            rw [Raft.merge, hx]
            exact if_pos ht
          rw [hm]
          exact ih h m hs hi' committed agree hc (m i x e hx he ht)
        case isFalse ht =>
          have hlong : s.actor.commitIndex ≤ i := by
            by_contra hlt
            rw [same (by omega), he] at hx
            exact ht (congrArg LogEntry.term (Option.some.inj hx)).symm
          rw [if_neg (by omega)]
          refine extend true s.grew hlong ?_
          rw [Raft.merge, hx]
          exact if_neg ht

end Append

end ShardActor
