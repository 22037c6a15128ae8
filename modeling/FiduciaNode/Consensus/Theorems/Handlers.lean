import FiduciaNode.Consensus.Theorems.Stages

namespace ShardActor

variable {σ : Type} [StateMachine σ] {a b start : ShardActor σ} {commands : List Command}
  {held : List Nat} {e : Event}

section Leader

theorem Sound.onLeader (s : Sound commands held a) (f : LeaderState → LeaderState) :
    Sound commands held (a.onLeader f) :=
  s.quiet ⟨.of_eq rfl rfl rfl, rfl⟩

theorem Sound.saved {op : ShardStore → ShardStore.Result} {error : Option String}
    (s : Sound commands held a) (saved : a.onStore op = (b, error)) (operation : String) :
    Sound commands held (b.settled operation error) := by
  have q : Quiet a (a.onStore op).1 := quiet_onStore op
  rw [saved] at q
  have s := s.quiet q
  cases error
  case none => exact s
  case some => exact s.failStorage (.refl b) s.ordered s.polled_succ _ _

omit [StateMachine σ] in
theorem quiet_solicitVotes (term : Nat) (preVote : Bool) : Quiet a (a.solicitVotes term preVote) := by
  refine ⟨⟨rfl, rfl, _, rfl, fun e he => ?_⟩, rfl⟩
  have ⟨_, _, he⟩ := List.mem_map.mp he
  exact he ▸ ⟨trivial, rfl⟩

theorem Sound.standing (s : Sound commands held a) (alive : a.storageFault = none)
    (free : a.role ≠ .leader) : Sound commands held a.standing := by
  refine s.idle_step (s.idle free) (.of_eq rfl rfl rfl) ?_
  exact ⟨s.ordered, by simpa [ShardActor.standing, resetElectionDeadline] using s.polled_succ,
    fun fault => absurd fault (by simp [ShardActor.standing, resetElectionDeadline, alive]), s.stored⟩

theorem Sound.acclaimed [PeerPlane] (s : Sound commands held a) (alive : a.storageFault = none)
    (candidate : a.role = .candidate) : Sound commands held a.acclaimed := by
  refine s.idle_step (s.idle (by rw [candidate]; decide))
    (.trans (.of_eq rfl rfl rfl) (since_emit trivial rfl)) ?_
  have polled := s.polled
  rw [candidate, if_neg (by decide)] at polled
  exact ⟨s.ordered, by simpa [ShardActor.acclaimed, emit] using polled,
    fun fault => absurd fault (by simp [ShardActor.acclaimed, emit, alive]), s.stored⟩

end Leader

section Follower

omit [StateMachine σ] in
theorem quiet_persistAppended (s : Appended σ) : Quiet s.actor (persistAppended s).1 := by
  simp only [persistAppended]
  split
  case isTrue => exact quiet_onStore _
  case isFalse =>
    split
    case isTrue => exact quiet_onStore _
    case isFalse => exact .refl _

theorem Sound.becomeFollowerOf (s : Sound commands held a) (leader : String) :
    Sound commands held (a.becomeFollowerOf leader) := by
  refine s.drainPending (b := resetElectionDeadline { a with
    role := .follower, leaderId := some leader, leader := none, votes := ∅, lastLeaderContact := a.now
  }) (.of_eq rfl rfl rfl) ?_ _
  exact ⟨s.ordered, by simpa [resetElectionDeadline] using s.polled_succ, fun _ => rfl, s.stored⟩

theorem Sound.install (s : Sound commands held a) (empty : a.pending = ∅) (req : InstallSnapshotReq)
    (restored : σ) : Sound commands held (a.install req restored).1 := by
  simp only [ShardActor.install]
  generalize hr : a.onStore _ = r
  have q : Quiet a r.1 := hr ▸ quiet_onStore _
  obtain ⟨b, error⟩ := r
  have s := s.quiet q
  have empty : b.pending = ∅ := q.since.2.1.trans empty
  cases error
  case some error => exact s.failStorage (.refl b) s.ordered s.polled_succ _ _
  case none =>
    simp only
    have q : Quiet b (b.persistHardStateAt (max b.commitIndex req.lastIncludedIndex)).1 :=
      quiet_onStore _
    generalize b.persistHardStateAt _ = r at q ⊢
    obtain ⟨c, error⟩ := r
    have s := s.quiet q
    cases error
    case some error => exact s.failStorage (.refl c) s.ordered s.polled_succ _ _
    case none =>
      refine s.idle_step (q.since.2.1.trans empty) (.of_eq rfl rfl rfl) ?_
      refine ⟨⟨le_rfl, le_max_right _ _, Nat.le_add_right _ _, fun k entry _ _ lt => ?_⟩, s.polled,
        s.fault, s.stored⟩
      have lt : req.lastIncludedIndex + k < req.lastIncludedIndex := lt
      omega

-- Cutting the log after what is committed does not touch what has been applied.
theorem Ordered.cut {r : Replica σ} {offset : Nat} (o : Ordered r) (entry : LogEntry)
    (h : r.commitIndex ≤ r.snapshotIndex + offset) (hl : offset ≤ r.log.length) :
    Ordered { r with log := r.log.take offset ++ [entry] } := by
  have := o.committed
  refine ⟨o.snapshot, o.committed, ?_, fun k e hk ha lt => ?_⟩
  case refine_1 =>
    simp only [List.length_append, List.length_take, List.length_singleton]
    omega
  case refine_2 =>
    have lt : r.snapshotIndex + k < r.lastApplied := lt
    rw [List.getElem?_append_left (by simp; omega), List.getElem?_take_of_lt (by omega)] at hk
    exact o.activated k e hk ha lt

theorem Ordered.appendLoop {s s' : Appended σ} {i : Nat} {es : List LogEntry}
    (o : Ordered s.actor.replica) (h : appendLoop s i es = .ok s') : Ordered s'.actor.replica := by
  induction es generalizing s i
  case nil => exact Except.ok.inj h ▸ o
  case cons entry es ih =>
    simp only [ShardActor.appendLoop] at h
    split at h
    case isTrue => exact ih o h
    case isFalse =>
      split at h
      case h_1 => exact ih (o.append entry) h
      case h_2 present =>
        split at h
        case isTrue => exact ih o h
        case isFalse =>
          split at h
          case isTrue => contradiction
          case isFalse newer =>
            have lt := (List.getElem?_eq_some_iff.mp present).1
            have le : s.actor.commitIndex ≤
                s.actor.snapshotIndex + (i + 1 - s.actor.snapshotIndex - 1) := by omega
            exact ih (o.cut entry le lt.le) h

theorem Sound.followCommit (s : Sound commands held a) (leaderCommit : Nat) :
    Sound commands held (a.followCommit leaderCommit) := by
  simp only [ShardActor.followCommit]
  split
  case isTrue h =>
    simp only [gt_iff_lt, Bool.and_eq_true, decide_eq_true_eq] at h
    exact s.commitTo (s.ordered.committed.trans h.2.le) _
  case isFalse => exact s

theorem Sound.accept {error : Option String} {appended : Appended σ} {req : AppendEntriesReq}
    (s : Sound commands held a) (follower : a.role = .follower)
    (stored : appendLoop ⟨a, false, false⟩ req.prevLogIndex req.entries = .ok appended)
    (saved : persistAppended appended = (b, error)) (operation : String) :
    Sound commands held
      (error.elim (b.followCommit req.leaderCommit) (b.failStorage operation)) := by
  have s : Sound commands held appended.actor := by
    have ordered := s.ordered.appendLoop (s := ⟨a, false, false⟩) stored
    rw [(appendLoop_ok stored).1] at ordered ⊢
    exact s.idle_step (s.idle (by rw [follower]; decide)) (.of_eq rfl rfl rfl)
      ⟨ordered, s.polled, s.fault, s.stored⟩
  have q := quiet_persistAppended appended
  rw [saved] at q
  have s := s.quiet q
  cases error
  case some => exact s.failStorage (.refl b) s.ordered s.polled_succ _ _
  case none => exact s.followCommit req.leaderCommit

end Follower

section Deeds

variable [PeerPlane]

-- Nobody is left without an answer, whatever the actor does of its own accord.
theorem Deed.sound (d : Deed e start a b) (alive : a.storageFault = none)
    (quiet : ∀ command client, e ≠ .message (.propose command client)) (s : Sound commands held a) :
    Sound commands held b := by
  cases d
  case stepDown term leader => exact s.stepDown term leader
  case resign => exact (s.stepDown _ _).stepDown _ _
  case stop => exact s.failStorage (.refl a) s.ordered s.polled_succ _ _
  case schedule => exact s.quiet ⟨.of_eq rfl rfl rfl, rfl⟩
  case poll free =>
    exact s.idle_step (s.idle free) (.of_eq rfl rfl rfl)
      ⟨s.ordered, by simp [polling, resetElectionDeadline], fun _ => rfl, s.stored⟩
  case agree => exact s.quiet ⟨.of_eq rfl rfl rfl, rfl⟩
  case campaign free saved operation => exact (s.standing alive free).saved saved operation
  case solicit => exact s.quiet (quiet_solicitVotes _ _)
  case count => exact s.quiet ⟨.of_eq rfl rfl rfl, rfl⟩
  case lead candidate _ _ _ _ saved operation =>
    exact ((s.acclaimed alive candidate).append_log _).saved saved operation
  case grant req _ _ _ _ _ saved operation =>
    have s : Sound commands held (resetElectionDeadline { a with votedFor := some req.candidateId }) :=
      s.quiet ⟨.of_eq rfl rfl rfl, rfl⟩
    exact s.saved saved operation
  case follow leader => exact s.becomeFollowerOf leader
  case accept admits _ stored _ saved operation => exact s.accept admits.follower stored saved operation
  case install req _ restored installs =>
    exact s.install (s.idle (by rw [installs.follower]; decide)) req restored
  case extend saved operation => exact (s.append_log _).saved saved operation
  case wait asked _ _ _ => exact absurd asked (quiet _ _)
  case commit newer _ operation => exact s.commitTo (s.ordered.committed.trans newer.le) operation
  case send ls _ peer _ =>
    have s : Sound commands held (a.requesting ls peer (ls.requestSequence + 1)) :=
      s.quiet ⟨.of_eq rfl rfl rfl, rfl⟩
    refine s.quiet (quiet_emit ?_ ?_)
    all_goals
      rw [shipment]
      split <;> trivial
  all_goals exact s.onLeader _

theorem Stages.sound (stages : Stages e start a b)
    (quiet : ∀ command client, e ≠ .message (.propose command client)) (s : Sound commands held a) :
    Sound commands held b := by
  induction stages
  case refl => exact s
  case tail stage ih =>
    cases stage
    case refuse command client asked _ => exact absurd asked (quiet command client)
    case act alive deed => exact deed.sound alive quiet ih

end Deeds

section Clients

theorem Sound.observe (s : Sound commands held a) (env : Env) : Sound commands held (a.observe env) := by
  refine s.quiet ⟨.of_eq rfl rfl rfl, ?_⟩
  simp only [core, ShardActor.observe, Option.isSome_map]
  rfl

-- A client that is answered at once never waits.
theorem Sound.reject {client : Nat} (s : Sound commands (client :: held) a) (error : ProposeError) :
    Sound commands held (a.emit (.answer client (.error error))) := by
  refine s.step ⟨s.ordered, s.polled, s.fault, s.stored⟩ rfl rfl ?_ ?_ s.idle fun i p h => ?_
  case refine_1 => simp [Effect.Mute]
  case refine_2 =>
    have same : waiting (a.emit (.answer client (.error error))) = waiting a := rfl
    have one : answered [.answer client (.error error)] = [client] := rfl
    rw [same, one, List.singleton_append]
    exact List.perm_middle.symm
  case refine_3 =>
    obtain ⟨e, h₁, h₂, h⟩ := s.promised i p h
    exact ⟨e, h₁, List.mem_append_left _ h₂, h⟩

-- A client starts to wait at the place of its entry, where nobody waits yet.
theorem Sound.wait {client : Nat} (s : Sound commands (client :: held) a) (entry : LogEntry)
    (leader : a.role = .leader) (he : a.entryAt? entry.index = some entry)
    (own : Own commands client entry) (term : entry.term = a.currentTerm)
    (fresh : a.pending[entry.index]? = none) (applied : a.lastApplied < entry.index) :
    Sound commands held (emit { a with
      pending := a.pending.insert entry.index { startedAt := a.now, client }
    } (.proposed client entry)) where
  toOrderly := ⟨s.ordered, s.polled, s.fault, s.stored⟩
  clients   := by
    have : answered [.proposed client entry] = [] := rfl
    simp only [emit, answered_append, this, List.append_nil]
    refine .trans (.append_left _ ?_) s.clients
    have := (HashMap.toList_insert_perm { startedAt := a.now, client } fresh).map (·.2.client)
    exact (this.append_right held).trans List.perm_middle.symm
  idle      := fun h => absurd leader h
  promised  := by
    intro i p h
    simp only [emit, HashMap.get_insert] at h
    split at h
    case isTrue hi =>
      cases h
      exact ⟨entry, hi ▸ he, by simp [emit], hi, term, hi ▸ applied⟩
    case isFalse =>
      obtain ⟨e, h₁, h₂, h⟩ := s.promised i p h
      exact ⟨e, h₁, List.mem_append_left _ h₂, h⟩
  justified := s.justified.append (by simp)
  own       := by
    intro client' entry' h
    cases List.mem_append.mp h
    case inl h => exact s.own client' entry' h
    case inr h =>
      cases List.mem_singleton.mp h
      exact own

variable [PeerPlane]

theorem Sound.append {command : Command} {client index : Nat}
    (s : Sound commands (client :: held) a) (leader : a.role = .leader)
    (own : Own commands client (a.newEntry index (some command)))
    (hi : U64.checkedAdd a.lastLogIndex 1 = some index) :
    Sound commands held (a.append command client index) := by
  have eq := index_eq hi
  have logged : a.lastApplied ≤ a.snapshotIndex + a.log.length := s.ordered.logged
  -- Whoever waits does so at a place in the log, and the new entry is after all of them.
  have fresh : a.pending[index]? = none := by
    cases hp : a.pending[index]?
    case none => rfl
    case some p =>
      have ⟨e, he, _⟩ := s.promised index p hp
      have := (List.getElem?_eq_some_iff.mp (entryAt?_eq_some.mp he).2).1
      omega
  have s' := s.append_log (a.newEntry index (some command))
  simp only [ShardActor.append]
  have frame := onStore_frame (a := { a with log := a.log ++ [a.newEntry index (some command)] })
    (·.appendTail (a.log ++ [a.newEntry index (some command)]))
  have q : Quiet { a with log := a.log ++ [a.newEntry index (some command)] }
      (persistLogAppend { a with log := a.log ++ [a.newEntry index (some command)] }).1 :=
    quiet_onStore _
  have s' := s'.quiet q
  simp only [persistLogAppend] at s' ⊢
  generalize onStore _ _ = r at frame s' ⊢
  obtain ⟨b, error⟩ := r
  cases error
  case some error => exact (s'.failStorage (.refl b) s'.ordered s'.polled_succ _ _).reject _
  case none =>
    simp only at frame s' ⊢
    have at_end : b.entryAt? index = some (a.newEntry index (some command)) := by
      rw [entryAt?_eq_some, frame]
      refine ⟨by simp only; omega, ?_⟩
      rw [show index - a.snapshotIndex - 1 = a.log.length by omega]
      simp
    have waits := s'.wait (a.newEntry index (some command)) (by rw [frame]; exact leader)
      at_end own (by rw [frame]; rfl) (by rw [frame]; exact fresh)
      (by rw [frame]; simp only [newEntry]; omega)
    have applied : b.lastApplied ≤ index := by rw [frame]; simp only; omega
    split
    case isTrue => exact waits.commitTo applied _
    case isFalse => exact waits.broadcastAppendEntries

theorem Sound.onPropose {command : Command} {client : Nat} (s : Sound commands (client :: held) a)
    (primed : Primed a) (t : a.Tidy) (own : commands[client]? = some command) :
    Sound commands held (a.onPropose command client) := by
  simp only [ShardActor.onPropose]
  split
  case isTrue => exact s.reject _
  case isFalse =>
    split
    case isTrue => exact s.reject _
    case isFalse leader =>
      split
      case isTrue => exact s.reject _
      case isFalse =>
        have stays := maybeActivateCommandProtocol_stays primed
        have activated : Stages .tick a a _ := stages_maybeActivateCommandProtocol t
        have s := activated.sound (by simp) s
        generalize a.maybeActivateCommandProtocol = b at s stays ⊢
        split
        case isTrue => exact s.reject _
        case isFalse fault =>
          split
          case h_1 => exact s.reject _
          case h_2 own' active =>
            split
            case h_1 => exact s.reject _
            case h_2 index hi =>
              refine s.append ?_ ⟨command, _, own', own, active, rfl⟩ hi
              exact (stays (by simpa using fault)).trans (not_not.mp leader)

end Clients

end ShardActor
