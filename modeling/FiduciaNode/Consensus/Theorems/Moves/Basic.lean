import FiduciaNode.Consensus.Theorems.Stages

namespace ShardActor

variable {σ : Type} [StateMachine σ] [PeerPlane] {e : Event} {start a b c : ShardActor σ}

omit [StateMachine σ] [PeerPlane] in
theorem stepDown_halted {term : Nat} {leader : Option String} (le : a.currentTerm ≤ term)
    (fault : a.storageFault.isSome) : (a.stepDown term leader).Halted :=
  have ⟨_, _, _, halted, faulty⟩ := stepDown_spec le leader
  halted (faulty fault)

section StepDown

theorem moves_stepDown (alive : a.storageFault = none) (term : Nat) (leader : Option String) :
    Moves e start a (a.stepDown term leader) := by
  by_cases lt : term < a.currentTerm
  case pos =>
    rw [stepDown, if_pos lt]
    exact .refl
  case neg =>
    have le := Nat.not_lt.mp lt
    rw [stepDown_eq le]
    let w : ShardActor σ := { a.adopted term with leaderId := leader }
    have alive' : w.storageFault = none := alive
    have withdrawn : Moves e start a w := .single (.withdraw alive rfl rfl le rfl)
    split
    case h_1 b error h => exact withdrawn.tail (.fail alive' _ h _)
    case h_2 b h =>
      have saved := withdrawn.tail (.save alive' _ h)
      have alive : b.storageFault = none := onStore_alive h alive'
      have reset := saved.tail (.poll alive (b := b.resetElectionDeadline) rfl (.inl rfl) rfl rfl)
      exact reset.tail (.drain (a := b.resetElectionDeadline) alive _)

end StepDown

section Apply

theorem moves_applyLoop (fuel : Nat) (alive : a.storageFault = none)
    (h : a.lastApplied + fuel ≤ a.commitIndex) (completed : List Completed) :
    Moves e start a (a.applyLoop completed fuel).1 ∧
    ((a.applyLoop completed fuel).2.2 = true → (a.applyLoop completed fuel).1.storageFault = none) := by
  induction fuel generalizing a completed
  case zero => exact ⟨.refl, fun _ => alive⟩
  case succ fuel ih =>
    simp only [applyLoop]
    split
    case h_1 => exact ⟨.single (.stop alive _ _), by simp⟩
    case h_2 index next =>
      obtain rfl := (U64.checkedAdd_eq_some_iff.mp next).1
      split
      case h_1 => exact ⟨.single (.stop alive _ _), by simp⟩
      case h_2 entry present =>
        obtain ⟨fault, last, commit⟩ := applyEntry_frame (a := a) completed entry
        obtain ⟨rest, finished⟩ := ih (a := (a.applyEntry completed (a.lastApplied + 1) entry).1)
          (fault.trans alive) (by omega) (a.applyEntry completed (a.lastApplied + 1) entry).2
        exact ⟨.head (.apply alive completed entry (by omega) present) rest, finished⟩

theorem moves_maybeCompact (alive : a.storageFault = none) : Moves e start a a.maybeCompact := by
  simp only [maybeCompact]
  split
  case isTrue => exact .refl
  case isFalse threshold =>
    simp only [Bool.or_eq_true, decide_eq_true_eq, not_or, Nat.not_lt] at threshold
    split
    case h_1 => exact .refl
    case h_2 state snapshot =>
      split
      case h_1 b error h => exact .single (.fail alive _ h _)
      case h_2 b h =>
        have saved : Move e start _ _ := Move.save alive _ h
        obtain ⟨store, out, rfl⟩ := onStore_eq h
        exact .tail (.single saved) (.compact (a := { a with store, out }) alive state
          (show a.snapshotIndex < a.lastApplied by omega))

theorem move_failCompleted (completed : List Completed) :
    Move e start a (a.failCompleted completed) := by
  refine .refuse _ fun effect h => ?_
  obtain ⟨_, _, rfl⟩ := List.mem_map.mp h
  rfl

theorem moves_applyCommitted (alive : a.storageFault = none) : Moves e start a a.applyCommitted := by
  simp only [applyCommitted]
  by_cases le : a.lastApplied ≤ a.commitIndex
  case neg =>
    have : a.commitIndex - a.lastApplied = 0 := by omega
    simp only [this, applyLoop, Bool.not_true, Bool.false_eq_true, if_false]
    have compacted : Moves e start a a.maybeCompact := moves_maybeCompact alive
    split
    case isTrue => exact .tail compacted (move_failCompleted _)
    case isFalse alive =>
      simp only [Bool.not_eq_true, Option.isSome_eq_false_iff, Option.isNone_iff_eq_none] at alive
      exact .tail compacted (.answer alive _)
  case pos =>
    obtain ⟨loop, finished⟩ : Moves e start _ _ ∧ _ :=
      moves_applyLoop (a.commitIndex - a.lastApplied) alive (by omega) []
    generalize a.applyLoop [] (a.commitIndex - a.lastApplied) = r at loop finished ⊢
    obtain ⟨b, completed, done⟩ := r
    cases done
    case false => exact .tail loop (move_failCompleted _)
    case true =>
      have compacted := Relation.ReflTransGen.trans loop (moves_maybeCompact (finished rfl))
      simp only [Bool.not_true, Bool.false_eq_true, if_false]
      split
      case isTrue => exact .tail compacted (move_failCompleted _)
      case isFalse alive =>
        simp only [Bool.not_eq_true, Option.isSome_eq_false_iff, Option.isNone_iff_eq_none] at alive
        exact .tail compacted (.answer alive _)

end Apply

section Commit

theorem moves_commitTo {index : Nat} (alive : a.storageFault = none) (commits : a.Commits index)
    (operation : String) : Moves e start a (a.commitTo index operation) := by
  simp only [commitTo]
  split
  case h_1 b error h => exact .single (.fail alive _ h _)
  case h_2 b h =>
    have saved : Move e start _ _ := Move.save alive _ h
    obtain ⟨store, out, rfl⟩ := onStore_eq h
    have commits : Commits { a with store, out } index := by
      cases commits
      case majority leader candidate newer current => exact .majority leader candidate newer current
      case lone leader lone last => exact .lone leader lone last
      case follower follower newer held => exact .follower follower newer held
    have committed := Relation.ReflTransGen.tail (.single saved)
      (.commit (a := { a with store, out }) alive index commits)
    exact committed.trans (moves_applyCommitted alive)

theorem moves_followCommit (alive : a.storageFault = none) (follower : a.role = .follower)
    (leaderCommit : Nat) : Moves e start a (a.followCommit leaderCommit) := by
  simp only [followCommit]
  split
  case isFalse => exact .refl
  case isTrue newer =>
    simp only [gt_iff_lt, Bool.and_eq_true, decide_eq_true_eq] at newer
    exact moves_commitTo alive (.follower follower newer.2 (Nat.min_le_right _ _)) _

end Commit

section Deeds

theorem Moves.saved {op : ShardStore → ShardStore.Result} {error : Option String}
    (m : Moves e start a b) (alive : b.storageFault = none) (saved : b.onStore op = (c, error))
    (operation : String) : Moves e start a (c.settled operation error) := by
  cases error
  case none => exact m.tail (.save alive op saved)
  case some => exact m.tail (.fail alive op saved _)

theorem moves_longer {command : Option Command} {error : Option String} (alive : a.storageFault = none)
    (leader : a.role = .leader) (proposable : a.Proposable command)
    (fits : a.lastLogIndex < U64.max ∨
      e.elects ∧ start.role ≠ .leader ∧ a.lastLogIndex = start.lastLogIndex)
    (saved : (a.longer command).persistLogAppend = (b, error)) (operation : String) :
    Moves e start a (b.settled operation error) :=
  .saved (b := a.longer command) (.single (.extend alive leader command proposable fits)) alive saved _

theorem moves_install (alive : a.storageFault = none) {req : InstallSnapshotReq} {restored : σ}
    (asked : e = .message (.installSnapshot req)) (installs : a.Installs req restored) :
    Moves e start a (a.install req restored).1 := by
  simp only [install]
  split
  case h_1 b error h => exact .single (.fail alive _ h _)
  case h_2 b h =>
    have saved : Moves e start a b := .single (.save alive _ h)
    have alive' := onStore_alive h alive
    obtain ⟨store, out, rfl⟩ := onStore_eq h
    split
    case h_1 c error h' => exact saved.tail (.fail alive' _ h' _)
    case h_2 c h' =>
      have saved := saved.tail (.save alive' _ h')
      obtain ⟨store', out', rfl⟩ := onStore_eq h'
      exact saved.tail (.install (a := { a with store := store', out := out' }) alive req asked restored
        ⟨installs.term, installs.zero, installs.termLe, installs.newer, installs.beyond,
          installs.restored, installs.follower⟩)

omit [StateMachine σ] [PeerPlane] in
-- If there is nothing new, nothing is written.
theorem persistAppended_cases (s : Appended σ) :
    (∃ op, persistAppended s = s.actor.onStore op) ∨ persistAppended s = (s.actor, none) := by
  simp only [persistAppended]
  split
  case isTrue => exact .inl ⟨_, rfl⟩
  case isFalse =>
    split
    case isTrue => exact .inl ⟨_, rfl⟩
    case isFalse => exact .inr rfl

theorem moves_accept {error : Option String} {appended : Appended σ} (alive : a.storageFault = none)
    {req : AppendEntriesReq} (asked : e = .message (.appendEntries req)) (admits : a.Admits req)
    (stored : appendLoop ⟨a, false, false⟩ req.prevLogIndex req.entries = .ok appended)
    (unchanged : a.lastLogIndex = start.lastLogIndex) (saved : persistAppended appended = (b, error))
    (operation : String) :
    Moves e start a (error.elim (b.followCommit req.leaderCommit) (b.failStorage operation)) := by
  have frame : appended.actor = { a with log := appended.actor.log } := (appendLoop_ok stored).1
  have merged : Moves e start a appended.actor := by
    rw [frame]
    exact .single (.merge alive req asked admits appended stored unchanged)
  have alive : appended.actor.storageFault = none := frame ▸ alive
  have follower : appended.actor.role = .follower := frame ▸ admits.follower
  have ⟨done, alive, follower⟩ : Moves e start a (b.settled operation error) ∧
      b.storageFault = none ∧ b.role = .follower := by
    rcases persistAppended_cases appended with ⟨op, eq⟩ | eq
    case inl =>
      rw [eq] at saved
      refine ⟨merged.saved alive saved operation, onStore_alive saved alive, ?_⟩
      obtain ⟨_, _, rfl⟩ := onStore_eq saved
      exact follower
    case inr =>
      rw [eq] at saved
      cases saved
      exact ⟨merged, alive, follower⟩
  cases error
  case some => exact done
  case none => exact .trans done (moves_followCommit alive follower req.leaderCommit)

-- Whatever a handler does in one go is a sequence of moves.
theorem Deed.moves (d : Deed e start a b) (alive : a.storageFault = none) : Moves e start a b := by
  cases d
  case stepDown term leader => exact moves_stepDown alive term leader
  case resign fault =>
    have again : Move e start _ _ := .resign fault
    rw [stepDown_term le_rfl] at again
    exact .tail (moves_stepDown alive _ _) again
  case stop operation error => exact .single (.stop alive operation error)
  case schedule => exact .single (.poll alive rfl (.inl rfl) rfl rfl)
  case poll free => exact .single (.poll alive rfl (.inr ⟨free, rfl⟩) rfl rfl)
  case agree voter => exact .single (.poll alive rfl (.inl rfl) rfl rfl)
  case campaign free saved operation =>
    exact .saved (b := a.standing) (.single (.campaign alive free rfl rfl rfl rfl)) alive saved operation
  case solicit preVote _ => exact .single (.solicit alive _ preVote)
  case count => exact .single (.poll alive rfl (.inl rfl) rfl rfl)
  case lead candidate _ elects unled unchanged saved operation =>
    have led : Moves e start a a.acclaimed := .single (.lead alive candidate)
    have proposable : a.acclaimed.Proposable none := fun _ h => nomatch h
    exact led.trans (moves_longer (a := a.acclaimed) alive rfl proposable
      (.inr ⟨elects, unled, unchanged⟩) saved operation)
  case grant req _ _ _ _ _ saved operation =>
    let w : ShardActor σ := resetElectionDeadline { a with votedFor := some req.candidateId }
    exact .saved (b := w) (.single (.poll alive rfl (.inl rfl) rfl rfl)) alive saved operation
  case follow leader =>
    let w : ShardActor σ := resetElectionDeadline { a with
      role := .follower, leaderId := some leader, leader := none, votes := ∅
      lastLeaderContact := a.now
    }
    have withdrawn : Moves e start a w := .single (.withdraw alive rfl rfl le_rfl rfl)
    exact withdrawn.tail (.drain (a := w) alive _)
  case accept req asked admits appended stored unchanged saved operation =>
    exact moves_accept alive asked admits stored unchanged saved operation
  case install req asked restored installs => exact moves_install alive asked installs
  case extend leader command proposable fits saved operation =>
    exact moves_longer alive leader proposable (.inl fits) saved operation
  case wait index client entry _ own _ last proposes active =>
    exact .single (.wait alive index client entry own last proposes active)
  case commit _ index commits _ _ operation => exact moves_commitTo alive commits operation
  case send ls leads peer member => exact .single (.send alive ls leads peer member)
  case callback peer => exact .single (.callback alive peer)
  case land peer => exact .single (.land alive peer)
  case advertise peer protocol advertises => exact .single (.advertise alive peer protocol advertises)
  case contact _ peer _ sentAt _ _ => exact .single (.contact alive peer sentAt)
  case advance _ peer member request upTo answers acknowledged expected =>
    exact .single (.advance alive peer request upTo answers acknowledged expected member)
  case rewind _ peer _ hint _ => exact .single (.rewind alive peer hint)

theorem Stages.moves (s : Stages e start a b) : Moves e start a b := by
  induction s
  case refl => exact .refl
  case tail stage ih =>
    cases stage
    case refuse => exact ih.tail (.refuse [_] fun effect h => by rw [List.mem_singleton.mp h]; rfl)
    case act alive deed => exact ih.trans (deed.moves alive)

end Deeds

end ShardActor
