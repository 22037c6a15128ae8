import FiduciaNode.Consensus.Theorems.Install

-- What an actor with a fault is still seen to do: it answers errors, and may write the same hard state
-- again.
def Effect.harmless : Effect → Bool
  | .answer _ (.error _) | .disk (.writeMeta _) => true
  | _ => false

-- The reply to the event promises nothing. Local reads are not refused.
def Event.RefusedBy {σ : Type} [StateMachine σ] (e : Event) (reply : Reply σ) : Prop :=
  match reply with
  | .none => True
  | .appendEntries resp => resp.success = false
  | .installSnapshot resp => resp.success = false
  | .requestVote resp => resp.granted = false
  | .read _ result => (∃ error, result = .error error) ∨ ∃ request client, e = .message (.queryLocal request client)

namespace ShardActor

variable {σ : Type} [StateMachine σ] {e : Event} {start a b c : ShardActor σ}

-- An actor with a fault has done nothing but refuse.
structure Silent (a b : ShardActor σ) : Prop where
  halted  : b.Halted
  replica : b.replica = a.replica
  out     : ∃ effects, b.out = a.out ++ effects ∧ ∀ effect ∈ effects, effect.harmless

-- A write has failed, or the log has turned out to be unusable.
inductive Breaks (a : ShardActor σ) : ShardActor σ → Prop
  | failed {b : ShardActor σ} {error : String} (op : ShardStore → ShardStore.Result)
    (failed : a.onStore op = (b, some error)) (operation : String) :
    Breaks a (b.failStorage operation error)
  | stopped (operation error : String) : Breaks a (a.failStorage operation error)

section Silent

omit [StateMachine σ]

theorem Silent.refl (h : a.Halted) : Silent a a :=
  ⟨h, rfl, [], by simp, by simp⟩

theorem Silent.trans (s₁ : Silent a b) (s₂ : Silent b c) : Silent a c := by
  have ⟨effects₁, eq₁, h₁⟩ := s₁.out
  have ⟨effects₂, eq₂, h₂⟩ := s₂.out
  refine ⟨s₂.halted, s₂.replica.trans s₁.replica, effects₁ ++ effects₂, ?_, ?_⟩
  case refine_1 => rw [eq₂, eq₁, List.append_assoc]
  case refine_2 => exact fun effect h => (List.mem_append.mp h).elim (h₁ effect) (h₂ effect)

theorem drainPending_harmless (error : ProposeError) :
    ∃ effects, (a.drainPending error).out = a.out ++ effects ∧ ∀ effect ∈ effects, effect.harmless := by
  refine ⟨_, rfl, fun effect h => ?_⟩
  obtain ⟨_, _, rfl⟩ := List.mem_map.mp h
  rfl

theorem onStore_saveMeta_harmless (hardState : Meta) :
    ∃ effects, (a.onStore (·.saveMeta hardState)).1.out = a.out ++ effects ∧
      ∀ effect ∈ effects, effect.harmless := by
  simp only [onStore, ShardStore.saveMeta, ShardStore.perform]
  cases a.store
  case none => exact ⟨[], by simp, by simp⟩
  case some store =>
    refine ⟨_, rfl, fun effect h => ?_⟩
    obtain ⟨step, mem, rfl⟩ := List.mem_map.mp h
    have : step = .writeMeta hardState := by
      split at mem
      case h_1 | h_2 => exact List.mem_singleton.mp mem
      case h_3 => exact List.mem_singleton.mp (List.mem_of_mem_take mem)
    rw [this]
    rfl

theorem stepDown_silent (h : a.Halted) : Silent a (a.stepDown a.currentTerm none) := by
  refine ⟨stepDown_halted le_rfl h.fault, replica_stepDown _ _, ?_⟩
  rw [stepDown_eq le_rfl]
  have ⟨written, eq, harmless⟩ := onStore_saveMeta_harmless
    (a := { a.adopted a.currentTerm with leaderId := none })
    { a.adopted a.currentTerm with leaderId := none }.hardState
  have drained (b : ShardActor σ) (error : ProposeError) (h : b.out = a.out ++ written) :
      ∃ effects, (b.drainPending error).out = a.out ++ effects ∧
        ∀ effect ∈ effects, effect.harmless := by
    have ⟨answers, eq', harmless'⟩ := drainPending_harmless (a := b) error
    exact ⟨written ++ answers, by rw [eq', h, List.append_assoc],
      fun effect h => (List.mem_append.mp h).elim (harmless effect) (harmless' effect)⟩
  split
  case h_1 b error h => exact drained _ _ ((congrArg (·.1.out) h).symm.trans eq)
  case h_2 b h => exact drained _ _ ((congrArg (·.1.out) h).symm.trans eq)

end Silent

section Moves

variable [PeerPlane]

theorem Move.silent (m : Move e start a b) (h : a.Halted) : Silent a b := by
  cases m
  case refuse effects refusals =>
    refine ⟨⟨h.fault, h.leader, h.follower⟩, rfl, effects, rfl, fun effect mem => ?_⟩
    have := refusals effect mem
    cases effect
    case answer client result =>
      cases result
      case error => rfl
      case ok => contradiction
    all_goals contradiction
  case resign => exact stepDown_silent h
  all_goals
    have alive : a.storageFault = none := ‹_›
    have := h.fault
    simp [alive] at this

theorem Move.alive_or_breaks (m : Move e start a b) (alive : a.storageFault = none) :
    b.storageFault = none ∨ a.Breaks b := by
  cases m
  case resign fault => simp [alive] at fault
  case poll elects _ _ _ => exact .inl (by rw [elects]; exact alive)
  case withdraw elects _ _ _ => exact .inl (by rw [elects]; exact alive)
  case campaign elects _ _ _ => exact .inl (by rw [elects]; exact alive)
  case save saved => exact .inl (onStore_alive saved alive)
  case fail op failed operation => exact .inr (.failed op failed operation)
  case stop operation error => exact .inr (.stopped operation error)
  case apply completed entry _ _ => exact .inl ((applyEntry_frame _ _).1.trans alive)
  all_goals exact .inl alive

omit [StateMachine σ] [PeerPlane] in
theorem Breaks.halted (h : a.Breaks b) : b.Halted := by
  cases h
  case failed | stopped => exact failStorage_halted _ _

-- Once something has failed in the course of an event, the rest of its handler is silent.
theorem Moves.breaks (m : Moves e start a b) (alive : a.storageFault = none)
    (fault : b.storageFault.isSome) :
    ∃ c d, Moves e start a c ∧ c.storageFault = none ∧ c.Breaks d ∧ Silent d b := by
  induction m
  case refl => simp [alive] at fault
  case tail x y m step ih =>
    by_cases alive' : x.storageFault = none
    case pos =>
      have broken := (step.alive_or_breaks alive').resolve_left (by simpa using Option.isSome_iff_ne_none.mp fault)
      exact ⟨x, y, m, alive', broken, .refl broken.halted⟩
    case neg =>
      have ⟨c, d, before, whole, broken, silent⟩ := ih (Option.isSome_iff_ne_none.mpr alive')
      exact ⟨c, d, before, whole, broken, silent.trans (step.silent silent.halted)⟩

end Moves

section Handlers

omit [StateMachine σ] in
theorem handleRequestVote_refuses {req : RequestVoteReq}
    (fault : (a.handleRequestVote req).1.storageFault.isSome) :
    (a.handleRequestVote req).2.granted = false := by
  simp only [handleRequestVote] at fault ⊢
  split
  case isTrue => rfl
  case isFalse h =>
    rw [if_neg h] at fault
    simp only [Bool.or_eq_true, not_or, Bool.not_eq_true] at h
    split
    case isTrue real =>
      rw [if_pos real] at fault
      simp [h.1] at fault
    case isFalse real =>
      rw [if_neg real] at fault
      split
      case isTrue => rfl
      case isFalse lt =>
        rw [if_neg lt] at fault
        generalize (if req.term > a.currentTerm then a.stepDown req.term none else a) = b at fault ⊢
        split
        case isTrue => rfl
        case isFalse alive =>
          rw [if_neg alive] at fault
          split
          case isFalse => rfl
          case isTrue free =>
            rw [if_pos free] at fault
            simp only [grantVote] at fault ⊢
            split
            case h_1 => rfl
            case h_2 c h =>
              rw [h] at fault
              have : c.storageFault = none := onStore_alive h (by simpa [resetElectionDeadline] using alive)
              simp [this] at fault

omit [StateMachine σ] in
theorem install_refuses {req : InstallSnapshotReq} {restored : σ} (alive : a.storageFault = none)
    (fault : (a.install req restored).1.storageFault.isSome) :
    (a.install req restored).2.success = false := by
  simp only [install] at fault ⊢
  split
  case h_1 => rfl
  case h_2 b h =>
    simp only [h] at fault
    split
    case h_1 => rfl
    case h_2 c h' =>
      simp only [h'] at fault
      have : c.storageFault = none := onStore_alive h' (onStore_alive h alive)
      simp [snapshotResp, this] at fault

theorem handleInstallSnapshot_refuses {req : InstallSnapshotReq}
    (fault : (a.handleInstallSnapshot req).1.storageFault.isSome) :
    (a.handleInstallSnapshot req).2.success = false := by
  simp only [handleInstallSnapshot] at fault ⊢
  split
  case isTrue => rfl
  case isFalse h =>
    rw [if_neg h] at fault
    split
    case isTrue => rfl
    case isFalse lt =>
      rw [if_neg lt] at fault
      generalize (if req.term > a.currentTerm then a.stepDown req.term none else a) = b at fault ⊢
      split
      case isTrue => rfl
      case isFalse alive =>
        rw [if_neg alive] at fault
        have alive : (b.becomeFollowerOf req.leaderId).storageFault = none := by
          have : b.storageFault = none := by simpa using alive
          exact this
        split
        case isTrue => rfl
        case isFalse valid =>
          rw [if_neg valid] at fault
          generalize b.becomeFollowerOf req.leaderId = b at fault alive ⊢
          split
          case isTrue covered =>
            rw [if_pos covered] at fault
            simp [snapshotResp, alive] at fault
          case isFalse newer =>
            rw [if_neg newer] at fault
            split
            case isTrue covered =>
              rw [if_pos covered] at fault
              simp [snapshotResp, alive] at fault
            case isFalse beyond =>
              rw [if_neg beyond] at fault
              split
              case h_1 => rfl
              case h_2 restored readable =>
                rw [readable] at fault
                exact install_refuses alive fault

theorem appendFrom_refuses {req : AppendEntriesReq}
    (fault : (a.appendFrom req).1.storageFault.isSome) : (a.appendFrom req).2.success = false := by
  simp only [appendFrom] at fault ⊢
  split
  case isTrue => rfl
  case isFalse prev =>
    rw [if_neg prev] at fault
    split
    case h_1 => rfl
    case h_2 s stored =>
      simp only [stored] at fault
      split
      case h_1 => rfl
      case h_2 b saved =>
        simp only [saved] at fault
        split
        case isTrue => rfl
        case isFalse alive =>
          rw [if_neg alive] at fault
          exact absurd fault alive

theorem handleAppendEntries_refuses {req : AppendEntriesReq}
    (fault : (a.handleAppendEntries req).1.storageFault.isSome) :
    (a.handleAppendEntries req).2.success = false := by
  simp only [handleAppendEntries] at fault ⊢
  split
  case isTrue => rfl
  case isFalse h =>
    rw [if_neg h] at fault
    split
    case isTrue => rfl
    case isFalse lt =>
      rw [if_neg lt] at fault
      generalize (if req.term > a.currentTerm then a.stepDown req.term none else a) = b at fault ⊢
      split
      case isTrue => rfl
      case isFalse alive =>
        rw [if_neg alive] at fault
        split
        case isTrue => rfl
        case isFalse valid =>
          rw [if_neg valid] at fault
          exact appendFrom_refuses fault

variable [PeerPlane]

-- Nothing is promised in an event that ends with a fault.
theorem dispatch_refuses (fault : (a.dispatch e).1.storageFault.isSome) :
    e.RefusedBy (a.dispatch e).2 := by
  cases e
  case tick => trivial
  case message msg =>
    cases msg
    case query request client =>
      refine .inl ⟨.unavailable a.shardId, ?_⟩
      have fault : a.storageFault.isSome := fault
      simp [handleQuery, fault]
    case queryLocal request client => exact .inr ⟨request, client, rfl⟩
    case appendEntries req => exact handleAppendEntries_refuses fault
    case installSnapshot req => exact handleInstallSnapshot_refuses fault
    case requestVote req => exact handleRequestVote_refuses fault
    all_goals trivial

-- Every handler first looks for a fault.
theorem dispatch_silent (h : a.Halted) (e : Event) : Silent a (a.dispatch e).1 := by
  have fault := h.fault
  cases e
  case tick =>
    simp only [dispatch, onTick, fault, if_true]
    exact .refl h
  case message msg =>
    cases msg
    case propose command client =>
      simp only [dispatch, handle, onPropose, fault, if_true]
      exact ⟨⟨h.fault, h.leader, h.follower⟩, rfl, [_], rfl, fun effect mem => by
        rw [List.mem_singleton.mp mem]; rfl⟩
    case appendReply peer request upTo resp =>
      simp only [dispatch, handle, acceptReplicationCallback, fault, Bool.true_or, if_true,
        Bool.false_eq_true, if_false]
      exact .refl h
    case snapshotReply peer request upTo resp =>
      simp only [dispatch, handle, acceptReplicationCallback, fault, Bool.true_or, if_true,
        Bool.false_eq_true, if_false]
      exact .refl h
    case query | queryLocal => exact .refl h
    all_goals
      simp only [dispatch, handle, handleAppendEntries, handleInstallSnapshot, handleRequestVote,
        handleVoteReply, fault, Bool.true_or, if_true]
      exact .refl h

omit [StateMachine σ] [PeerPlane] in
theorem Silent.observe (s : Silent a b) (env : Env) : Silent a (b.observe env) :=
  ⟨⟨s.halted.fault, s.halted.leader, s.halted.follower⟩, s.replica, s.out⟩

theorem Later.silent (later : Later a b) (h : a.Halted) : Silent a b := by
  induction later
  case refl => exact .refl h
  case tail env e silent =>
    have observed := silent.observe env
    exact observed.trans (dispatch_silent observed.halted e)

end Handlers

section Run

variable [PeerPlane] {commands : List Command}

-- After a failure, in the event in which it occurs and in all later ones, an actor promises nothing,
-- takes part in nothing and changes nothing.
theorem Run.fails_closed (run : Run commands a) :
    (∀ env (e : Event), a.storageFault = none → ((a.observe env).dispatch e).1.storageFault.isSome →
      e.RefusedBy ((a.observe env).dispatch e).2 ∧
      ∃ b c, Moves e (a.observe env) (a.observe env) b ∧ b.storageFault = none ∧ b.Breaks c ∧
        Silent c ((a.observe env).dispatch e).1) ∧
    (a.storageFault.isSome → ∀ b, Later a b →
      Silent a b ∧ ∀ env (e : Event), e.RefusedBy ((b.observe env).dispatch e).2) := by
  refine ⟨fun env e alive fault => ?_, fun fault b later => ?_⟩
  case refine_1 => exact ⟨dispatch_refuses fault, (run.moves env e).breaks alive fault⟩
  case refine_2 =>
    have silent := later.silent (run.tidy.halted fault)
    refine ⟨silent, fun env e => dispatch_refuses ?_⟩
    exact (dispatch_silent (silent.observe env).halted e).halted.fault

-- The first write after the start fails.
def diskFull : Env where
  now      := 0
  nowMs    := 0
  outcomes := [.failed 0 "no space left on device"]

omit [StateMachine σ] [PeerPlane] in
theorem lone_fails_closed :
    letI := PeerPlane.fixed
    let fresh : ShardActor Tally := boot lone .empty []
    let failed := ((fresh.observe diskFull).dispatch (.message (.propose (.kvDelete "k") 0))).1
    failed.storageFault.isSome ∧ failed.log.length = 1 ∧
    (∃ b c, Moves (.message (.propose (.kvDelete "k") 0)) (fresh.observe diskFull)
      (fresh.observe diskFull) b ∧ b.storageFault = none ∧ b.Breaks c ∧ Silent c failed) ∧
    ∀ b, Later failed b → Silent failed b := by
  let := PeerPlane.fixed
  intro fresh failed
  have run : Run [] fresh := .boot lone .empty []
  have run' : Run [.kvDelete "k"] failed := .propose run diskFull (.kvDelete "k")
  have fault : failed.storageFault.isSome := by decide +kernel
  refine ⟨fault, by decide +kernel, ?_, fun b later => (run'.fails_closed.2 fault b later).1⟩
  exact (run.fails_closed.1 diskFull _ (by decide +kernel) fault).2

end Run

end ShardActor
