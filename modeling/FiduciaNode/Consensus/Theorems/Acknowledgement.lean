import FiduciaNode.Consensus.Theorems.Handlers
import FiduciaNode.Consensus.Theorems.Moves.Basic
import FiduciaNode.Consensus.Theorems.Refinement.Boot

namespace ShardActor

variable {σ : Type} [StateMachine σ] {a b start : ShardActor σ} {commands : List Command}
  {held : List Nat} {e : Event}

section Moves

theorem keeps_append_log (entry : LogEntry) : Keeps a { a with log := a.log ++ [entry] } := by
  refine fun h => ⟨h, rfl, rfl, fun activated => ?_⟩
  cases activated
  case inl h => exact .inl h
  case inr h =>
    have ⟨e, mem, he⟩ := h
    exact .inr ⟨e, List.mem_append_left _ mem, he⟩

theorem keeps_onLeader {f : LeaderState → LeaderState}
    (h : ∀ ls, (f ls).peerCommandProtocol = ls.peerCommandProtocol) : Keeps a (a.onLeader f) :=
  .of_eq rfl rfl (by simp [onLeader, Function.comp_def, h]) rfl rfl

theorem initial_protocols (peers : List String) (peer : String) :
    (peers.foldl (fun m p => m.insert p Command.legacyCommandProtocol)
      (∅ : HashMap String Nat))[peer]?.getD Command.legacyCommandProtocol =
    Command.legacyCommandProtocol := by
  rw [HashMap.get_foldl_insert]
  split <;> simp

variable [PeerPlane]

theorem Move.ordered (m : Move e start a b) (o : Ordered a.replica) : Ordered b.replica := by
  cases m
  case resign => simpa using o
  case poll elects _ _ _ =>
    rw [elects]
    exact o
  case withdraw elects _ _ _ =>
    rw [elects]
    exact o
  case campaign elects _ _ _ =>
    rw [elects]
    exact o
  case save saved =>
    obtain ⟨_, _, rfl⟩ := onStore_eq saved
    exact o
  case fail failed _ =>
    obtain ⟨_, _, rfl⟩ := onStore_eq failed
    exact o
  case extend => exact o.append _
  case merge stored _ =>
    have ordered := o.appendLoop (s := ⟨a, false, false⟩) stored
    rwa [(appendLoop_ok stored).1] at ordered
  case install req _ _ _ =>
    refine ⟨le_rfl, le_max_right _ _, Nat.le_add_right _ _, fun k entry _ _ lt => ?_⟩
    have lt : req.lastIncludedIndex + k < req.lastIncludedIndex := lt
    omega
  case commit index commits =>
    refine ⟨o.snapshot, ?_, o.logged, o.activated⟩
    cases commits
    case majority newer _ => exact o.committed.trans newer.le
    case lone last => exact last ▸ o.logged
    case follower newer _ => exact o.committed.trans newer.le
  case apply completed entry committed present =>
    have ⟨pending, out, eq, _⟩ := applyEntry_eq (a := a) completed (a.lastApplied + 1) entry
    rw [eq]
    refine o.apply entry ?_ committed
    have := (entryAt?_eq_some.mp present).2
    rwa [show a.lastApplied + 1 - a.snapshotIndex - 1 = a.lastApplied - a.snapshotIndex by omega] at this
  case compact =>
    refine ⟨le_rfl, o.committed, Nat.le_add_right _ _, fun k entry _ _ lt => ?_⟩
    have lt : a.lastApplied + k < a.lastApplied := lt
    omega
  all_goals exact o

-- Only an answer that tells of a protocol can give a leader a reason to activate it.
theorem Move.primed (m : Move e start a b) (o : Ordered a.replica)
    (silent : ∀ term peer protocol, ¬e.advertises term peer protocol) (p : Primed a) : Primed b := by
  cases m
  case refuse => exact p.keeps (.of_eq rfl rfl rfl rfl rfl)
  case resign => exact p.keeps (keeps_stepDown _ _)
  case poll elects role _ leader =>
    rcases role with role | ⟨_, role⟩
    case inl => exact p.keeps (.of_eq role (by rw [elects]) (by rw [leader]) (by rw [elects]) (by rw [elects]))
    case inr => exact p.keeps (.of_not_leader (by rw [role]; decide))
  case withdraw role _ _ => exact p.keeps (.of_not_leader (by rw [role]; decide))
  case campaign role _ _ => exact p.keeps (.of_not_leader (by rw [role]; decide))
  -- A new leader knows nothing of what its peers support.
  case lead =>
    intro _ members supports
    simp only [emit, allPeersSupportCurrentCommandProtocol, initialLeaderState,
      initial_protocols, Option.any_some, Bool.or_eq_true] at supports
    have peers : a.peers ≠ [] := fun h => members (by simp [emit, ShardActor.members, h])
    obtain ⟨peer, mem⟩ := List.exists_mem_of_ne_nil _ peers
    cases supports
    case inl h => exact absurd (of_decide_eq_true h) members
    case inr h => exact absurd (List.all_eq_true.mp h peer mem) (by decide)
  case solicit | drain => exact p.keeps (.of_eq rfl rfl rfl rfl rfl)
  case save saved =>
    obtain ⟨_, _, rfl⟩ := onStore_eq saved
    exact p.keeps (.of_eq rfl rfl rfl rfl rfl)
  case fail | stop => exact p.keeps (keeps_failStorage _ _)
  case extend => exact p.keeps (keeps_append_log _)
  case wait => exact p.keeps (.of_eq rfl rfl rfl rfl rfl)
  case merge admits _ _ _ => exact p.keeps (.of_not_leader (show a.role ≠ _ by rw [admits.follower]; decide))
  case install installs => exact p.keeps (.of_not_leader (show a.role ≠ _ by rw [installs.follower]; decide))
  case commit => exact p.keeps (.of_eq rfl rfl rfl rfl rfl)
  case apply completed entry _ _ => exact p.keeps (applyEntry_keeps _ _ _)
  case answer => exact p.keeps (.of_eq rfl rfl rfl rfl rfl)
  case compact => exact p.keeps (keeps_compact o _)
  case send ls leads _ _ => exact p.keeps (.of_eq rfl rfl (by simp [emit, requesting, leads]) rfl rfl)
  case advertise advertises => exact absurd advertises (silent _ _ _)
  all_goals exact p.keeps (keeps_onLeader fun _ => rfl)

theorem Moves.primed (m : Moves e start a b)
    (silent : ∀ term peer protocol, ¬e.advertises term peer protocol) (o : Ordered a.replica)
    (p : Primed a) : Ordered b.replica ∧ Primed b := by
  induction m
  case refl => exact ⟨o, p⟩
  case tail m ih => exact ⟨m.ordered ih.1, m.primed ih.1 silent ih.2⟩

-- Whenever there is reason for it, the record is appended.
theorem maybeActivateCommandProtocol_primed (o : Orderly a) :
    Primed a.maybeActivateCommandProtocol := by
  have silent (term : Nat) (peer : String) (protocol : Nat) :
      ¬Event.tick.advertises term peer protocol := id
  simp only [maybeActivateCommandProtocol]
  split
  case isTrue h =>
    simp only [Bool.or_eq_true, decide_eq_true_eq, Bool.not_eq_true', or_assoc] at h
    intro leader _ supports
    rcases h with h | h | h | h
    case inl => exact absurd (o.fault h) (by rw [leader]; decide)
    case inr.inl => exact absurd leader h
    case inr.inr.inl => exact .inl h
    case inr.inr.inr => simp [h] at supports
  case isFalse h =>
    simp only [Bool.or_eq_true, decide_eq_true_eq, not_or, not_not, Option.not_isSome_iff_eq_none] at h
    obtain ⟨⟨⟨alive, leader⟩, _⟩, _⟩ := h
    split
    case isTrue logged =>
      have primed : Primed a := fun _ _ _ => .inr (activationLogged_iff.mp logged)
      split
      case isTrue =>
        have committed : Stages .tick a a _ := stages_maybeAdvanceCommit
        exact (committed.moves.primed silent o.ordered primed).2
      case isFalse => exact primed
    case isFalse =>
      split
      case h_1 => rintro ⟨⟩
      case h_2 index next =>
        have last := index_eq next
        split
        case h_1 => rintro ⟨⟩
        case h_2 b saved =>
          obtain ⟨store, out, rfl⟩ := onStore_eq saved
          have primed : Primed { a with
              log := a.log ++ [a.newEntry index
                (some (.activateCommandProtocol Command.currentCommandProtocol))], store, out } :=
            fun _ _ _ => .inr ⟨_, List.mem_append_right _ (List.mem_singleton.mpr rfl), by
              simp [activates, newEntry]⟩
          split
          case isTrue lone =>
            refine (Moves.primed (moves_commitTo ?_ (.lone ?_ lone ?_) _ : Moves .tick a _ _) silent
              (o.ordered.append _) primed).2
            case refine_1 => exact alive
            case refine_2 => exact leader
            case refine_3 => simp; omega
          case isFalse => exact primed.keeps broadcastAppendEntries_keeps

end Moves

section Reply

theorem keeps_acceptReplicationCallback (peer : String) (request : RequestStamp)
    (responseTerm : Option Nat) :
    Keeps a (a.acceptReplicationCallback peer request responseTerm).1 := by
  simp only [acceptReplicationCallback]
  split
  case isTrue => exact .refl a
  case isFalse =>
    split
    case h_1 => exact keeps_stepDown _ _
    case h_2 => exact .refl a
    case h_3 => exact keeps_onLeader fun _ => rfl

variable [PeerPlane]

theorem Sound.handleAppendReply_primed (s : Sound commands held a) (p : Primed a) (sentAt : Instant)
    (peer : String) (upTo : Nat) (resp : Option AppendEntriesResp) :
    Primed (a.handleAppendReply sentAt peer upTo resp) := by
  simp only [ShardActor.handleAppendReply]
  split
  case isTrue => exact p
  case isFalse =>
    have s := s.onLeader (landed peer)
    have p : Primed (a.onLeader (landed peer)) := p.keeps (keeps_onLeader fun _ => rfl)
    generalize a.onLeader (landed peer) = a at s p ⊢
    split
    case h_1 => exact p
    case h_2 resp =>
      split
      case isTrue => exact p.keeps (keeps_stepDown _ _)
      case isFalse =>
        split
        case isTrue => exact p
        case isFalse =>
          have s := (s.onLeader fun ls => { ls with
            peerCommandProtocol := ls.peerCommandProtocol.insert peer resp.commandProtocol
          }).onLeader (contacted peer sentAt)
          split
          case isTrue =>
            have s := Stages.sound (stages_maybeAdvanceCommit : Stages .tick a _ _) (by simp)
              (s.onLeader (advanced peer upTo))
            have p := maybeActivateCommandProtocol_primed s.toOrderly
            split
            case isTrue => exact p.keeps (sendAppendTo_keeps peer)
            case isFalse => exact p
          case isFalse =>
            exact maybeActivateCommandProtocol_primed (s.onLeader (rewound peer _)).toOrderly

end Reply

section Boot

-- Opening the store comes before everything else an actor does.
theorem Sound.prepend (s : Sound commands held a) (steps : List DiskStep) :
    Sound commands held { a with out := steps.map .disk ++ a.out } where
  toOrderly := ⟨s.ordered, s.polled, s.fault, s.stored⟩
  clients   := by
    have : answered (steps.map Effect.disk) = [] := by
      simp [answered, List.filterMap_eq_nil_iff, Effect.answered?]
    rw [answered_append, this]
    exact s.clients
  idle      := s.idle
  promised  := by
    intro i p h
    obtain ⟨e, h₁, h₂, h⟩ := s.promised i p h
    exact ⟨e, h₁, List.mem_append_right _ h₂, h⟩
  justified := by
    intro before client outcome after eq
    cases List.append_eq_append_iff.mp eq
    case inl h =>
      obtain ⟨rest, hb, ho⟩ := h
      obtain ⟨result, d, h⟩ := s.justified rest client outcome after ho
      exact ⟨result, d.mono (by rw [hb]; exact List.subset_append_right _ _), h⟩
    case inr h =>
      obtain ⟨rest, hs, ho⟩ := h
      cases rest
      case nil =>
        obtain ⟨result, d, h⟩ := s.justified [] client outcome after ho.symm
        exact ⟨result, d.mono (List.nil_subset _), h⟩
      case cons e rest =>
        injection ho with he _
        have : e ∈ steps.map Effect.disk := by rw [hs]; simp
        simp [← he] at this
  own       := by
    intro client entry h
    cases List.mem_append.mp h
    case inl h => simp at h
    case inr h => exact s.own client entry h

theorem quarantined_sound (b : Boot) (reason : String) :
    Sound [] [] (quarantined b reason : ShardActor σ) ∧ Primed (quarantined b reason : ShardActor σ) := by
  refine ⟨⟨⟨⟨le_rfl, le_rfl, le_rfl, by simp [quarantined, resetElectionDeadline, replica]⟩,
    Nat.zero_le _, fun _ => rfl, by simp [quarantined, resetElectionDeadline]⟩, ?_, fun _ => rfl, ?_,
    ?_, ?_⟩, nofun⟩
  case refine_1 => exact .refl _
  case refine_2 =>
    intro i p h
    simp [quarantined, resetElectionDeadline] at h
  case refine_3 =>
    intro before client outcome after h
    simp [quarantined, resetElectionDeadline] at h
  case refine_4 =>
    intro client entry h
    simp [quarantined, resetElectionDeadline] at h

theorem initial_sound (b : Boot) (store : ShardStore) (recovered : Recovered) (state : σ) :
    Sound [] [] (initial b store recovered state) ∧ Primed (initial b store recovered state) := by
  refine ⟨⟨⟨⟨le_rfl, le_max_right _ _, Nat.le_add_right _ _, ?_⟩, Nat.zero_le _, by simp [initial],
    fun _ => rfl⟩, ?_, fun _ => rfl, ?_, ?_, ?_⟩, ?_⟩
  case refine_1 =>
    intro k entry _ _ (lt : recovered.snapshotIndex + k < recovered.snapshotIndex)
    omega
  case refine_2 => exact .refl _
  case refine_3 =>
    intro i p h
    simp [initial] at h
  case refine_4 =>
    intro before client outcome after h
    simp [initial] at h
  case refine_5 =>
    intro client entry h
    simp [initial] at h
  case refine_6 =>
    -- Only a lone member starts as a leader.
    intro leader members
    refine absurd ?_ members
    simp only [initial] at leader
    split at leader
    case isTrue h => simp [initial, ShardActor.members, List.isEmpty_iff.mp h]
    case isFalse => contradiction

variable [PeerPlane]

theorem Started.moves {b : Boot} {d : Disk} {r : Recovered} {store : ShardStore} {state : σ}
    (_ : Started b d r store state) :
    Moves e (initial b store r state) (initial b store r state) (awake b store r state) := by
  have timed : Moves e (initial b store r state) (initial b store r state)
      (initial b store r state).resetElectionDeadline :=
    .single (.poll rfl rfl (.inl rfl) rfl rfl)
  simp only [awake]
  split
  case isTrue => exact timed.trans (moves_applyCommitted rfl)
  case isFalse => exact timed

theorem boot_sound (b : Boot) (d : Disk) (outcomes : List Outcome) :
    Sound [] [] (boot b d outcomes : ShardActor σ) ∧ Primed (boot b d outcomes : ShardActor σ) := by
  rcases boot_cases (σ := σ) b d outcomes with ⟨reason, steps, eq, _⟩ | ⟨r, store, state, started, eq⟩
  case inl =>
    have ⟨s, p⟩ : Sound [] [] (quarantined b reason : ShardActor σ) ∧
        Primed (quarantined b reason : ShardActor σ) := quarantined_sound b reason
    have s := s.prepend steps
    simp only [quarantined, resetElectionDeadline, List.append_nil] at s
    rw [eq]
    exact ⟨s, p.keeps (.of_eq rfl rfl rfl rfl rfl)⟩
  case inr =>
    obtain ⟨s, p⟩ := initial_sound b store r state
    have p := (started.moves.primed (e := .tick) (fun _ _ _ => id) s.ordered p).2
    have s : Sound [] [] (awake b store r state) := by
      have s := s.quiet (b := (initial b store r state).resetElectionDeadline) ⟨.of_eq rfl rfl rfl, rfl⟩
      simp only [awake]
      split
      case isTrue => exact s.applyCommitted fun h => absurd rfl h
      case isFalse => exact s
    rw [eq]
    exact ⟨s.prepend _, p.keeps (.of_eq rfl rfl rfl rfl rfl)⟩

end Boot

section Run

theorem keeps_observe (env : Env) : Keeps a (a.observe env) :=
  .of_eq rfl rfl rfl rfl rfl

theorem Orderly.observe (o : Orderly a) (env : Env) : Orderly (a.observe env) :=
  ⟨o.ordered, o.polled, o.fault, fun alive => by simpa [ShardActor.observe] using o.stored alive⟩

variable [PeerPlane]

-- What peers say of their protocols comes in with their replies, and the leader then sees to the
-- activation at once.
theorem Sound.dispatch_primed (s : Sound commands held a) (p : Primed a) (t : a.Tidy) (e : Event) :
    Primed (a.dispatch e).1 := by
  have moves := (dispatch_stages t s.toOrderly p e).moves
  by_cases silent : ∀ term peer protocol, ¬e.advertises term peer protocol
  case pos => exact (moves.primed silent s.ordered p).2
  case neg =>
    cases e
    case tick => simp [Event.advertises] at silent
    case message msg =>
      cases msg
      case appendReply peer request upTo resp =>
        simp only [dispatch, ShardActor.handle]
        have accepted : Stages .tick a a _ ∧ _ :=
          stages_acceptReplicationCallback peer request (resp.map (·.term))
        have s := accepted.1.sound (by simp) s
        have p := p.keeps (keeps_acceptReplicationCallback peer request (resp.map (·.term)))
        clear accepted
        generalize a.acceptReplicationCallback peer request (resp.map (·.term)) = r at s p ⊢
        split
        case isTrue => exact s.handleAppendReply_primed p _ peer upTo resp
        case isFalse => exact p
      all_goals simp [Event.advertises] at silent

theorem Run.well {a : ShardActor σ} (run : Run commands a) : (Sound commands [] a ∧ Primed a) ∧ a.Tidy := by
  induction run
  case boot b d outcomes => exact ⟨boot_sound b d outcomes, boot_tidy b d outcomes⟩
  case event env e quiet ih =>
    have ⟨⟨s, p⟩, t⟩ := ih
    have s := s.observe env
    have p := p.keeps (keeps_observe env)
    have t := t.observe env
    have stages := dispatch_stages t s.toOrderly p e
    exact ⟨⟨stages.sound quiet s, s.dispatch_primed p t e⟩, stages.tidy t⟩
  case propose a commands _ env command ih =>
    have ⟨⟨s, p⟩, t⟩ := ih
    have s := s.observe env
    have p := p.keeps (keeps_observe env)
    have t := t.observe env
    have s' : Sound (commands ++ [command]) [commands.length] (a.observe env) := by
      refine ⟨s.toOrderly, ?_, s.idle, s.promised, s.justified, fun c e h => (s.own c e h).append _⟩
      rw [List.length_append, List.length_singleton, List.range_succ, ← List.append_assoc]
      have := s.clients
      rw [List.append_nil] at this
      exact this.append_right _
    exact ⟨⟨s'.onPropose p t (by simp), s.dispatch_primed p t _⟩,
      (dispatch_stages t s.toOrderly p _).tidy t⟩

theorem Run.sound {a : ShardActor σ} (run : Run commands a) : Sound commands [] a ∧ Primed a :=
  run.well.1

theorem Run.tidy {a : ShardActor σ} (run : Run commands a) : a.Tidy :=
  run.well.2

theorem Run.stages {a : ShardActor σ} (run : Run commands a) (env : Env) (e : Event) :
    Stages e (a.observe env) (a.observe env) ((a.observe env).dispatch e).1 :=
  have ⟨s, p⟩ := run.sound
  dispatch_stages (run.tidy.observe env) (s.toOrderly.observe env) (p.keeps (keeps_observe env)) e

theorem Run.goes {a : ShardActor σ} (run : Run commands a) (env : Env) (e : Event) :
    Goes ⟨e, a.lastLogIndex < U64.max⟩ (a.observe env) ((a.observe env).dispatch e).1 :=
  (run.stages env e).goes (run.tidy.observe env)

theorem Run.moves {a : ShardActor σ} (run : Run commands a) (env : Env) (e : Event) :
    Moves e (a.observe env) (a.observe env) ((a.observe env).dispatch e).1 :=
  (run.stages env e).moves

-- Every client is answered at most once. It hears of success only with the result of its own command,
-- which was applied at the index and in the term in which it was appended, after a commit index that
-- covers it was saved. Nobody waits for an actor that does not lead.
theorem Run.acknowledged {a : ShardActor σ} (run : Run commands a) :
    (∀ client, (answered a.out).count client ≤ 1) ∧
    (∀ before client outcome after, a.out = before ++ .answer client (.ok outcome) :: after →
      ∃ command protocol own entry result hardState,
        commands[client]? = some command ∧
        command.forActiveProtocol protocol = .ok own ∧
        entry.command = some own ∧
        .proposed client entry ∈ before ∧
        .applied entry.index entry.term entry (some result) ∈ before ∧
        .disk (.writeMeta hardState) ∈ before ∧
        entry.index ≤ hardState.commitIndex ∧
        outcome = {
          shard := a.shardId, logIndex := entry.index, revision := result.revision
          output := result.output
        }) ∧
    (a.role ≠ .leader → a.pending = ∅) := by
  have s := run.sound.1
  refine ⟨fun client => ?_, fun before client outcome after eq => ?_, s.idle⟩
  case refine_1 =>
    have nodup : (answered a.out ++ (waiting a ++ [])).Nodup := s.clients.nodup_iff.mpr List.nodup_range
    exact List.nodup_iff_count_le_one.mp (List.nodup_append.mp nodup).1 client
  case refine_2 =>
    have ⟨result, done, ho⟩ := s.justified before client outcome after eq
    have ⟨entry, hardState, proposed, applied, saved, index, covered⟩ := done
    have ⟨command, protocol, own, h⟩ := s.own client entry (by rw [eq]; simp [proposed])
    rw [← index] at applied covered ho
    exact ⟨command, protocol, own, entry, result, hardState, h.1, h.2.1, h.2.2, proposed, applied,
      saved, covered, ho⟩

-- A lone member commits a proposal at once.
def lone : Boot where
  shardId  := 0
  nodeId   := "a"
  peers    := []
  dataDir  := ""
  timing   := .default
  now      := 0
  nowMs    := 0
  nowNanos := 0

omit [StateMachine σ] [PeerPlane] in
theorem lone_acknowledged :
    letI := PeerPlane.fixed
    let a : ShardActor Tally := (((boot lone .empty []).observe ⟨0, 0, []⟩).dispatch
      (.message (.propose (.kvDelete "k") 0))).1
    answered a.out = [0] ∧ ∀ client, (answered a.out).count client ≤ 1 := by
  let := PeerPlane.fixed
  have run : Run ([] ++ [Command.kvDelete "k"]) (((boot lone .empty [] : ShardActor Tally).observe
      ⟨0, 0, []⟩).dispatch (.message (.propose (.kvDelete "k") 0))).1 :=
    .propose (.boot lone .empty []) ⟨0, 0, []⟩ (.kvDelete "k")
  exact ⟨by decide +kernel, run.acknowledged.1⟩

end Run

end ShardActor
