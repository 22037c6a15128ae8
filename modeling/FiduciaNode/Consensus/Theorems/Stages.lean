import FiduciaNode.Consensus.Theorems.Refinement.Deeds

theorem classifyCallback_current {currentTerm : Nat} {active : Option RequestStamp}
    {request : RequestStamp} {responseTerm : Option Nat} {now : Instant}
    (h : classifyCallback currentTerm active request responseTerm now = .current) :
    active = some request ∧ request.term = currentTerm ∧ request.sentAt ≤ now := by
  simp only [classifyCallback] at h
  split at h
  case h_1 => contradiction
  case h_2 =>
    split at h
    case isTrue => contradiction
    case isFalse current =>
      simp only [ne_eq, Bool.or_eq_true, decide_eq_true_eq, not_or, not_not, Nat.not_lt] at current
      exact ⟨current.1.1, current.1.2, current.2⟩

namespace ShardActor

variable {σ : Type} [StateMachine σ] [PeerPlane] {e : Event} {start a b c : ShardActor σ}

theorem Deed.stages (d : Deed e start a b) (alive : a.storageFault = none) : Stages e start a b :=
  .single (.act alive d)

theorem Stages.trans (s : Stages e start a b) (s' : Stages e start b c) : Stages e start a c :=
  Relation.ReflTransGen.trans s s'

theorem Stages.deed (s : Stages e start a b) (alive : b.storageFault = none) (d : Deed e start b c) :
    Stages e start a c :=
  s.tail (.act alive d)

section Commit

variable {index : Nat}

theorem stages_maybeAdvanceCommit : Stages e start a a.maybeAdvanceCommit := by
  simp only [maybeAdvanceCommit]
  split
  case isTrue => exact .refl
  case isFalse h =>
    simp only [Bool.or_eq_true, decide_eq_true_eq, not_or, not_not, Option.not_isSome_iff_eq_none] at h
    split
    case isFalse => exact .refl
    case isTrue newer =>
      simp only [Bool.and_eq_true, decide_eq_true_eq] at newer
      exact Deed.stages (.commit h.1 _ (.majority h.1 rfl newer.1 newer.2) newer.1 newer.2 _) h.2

-- A lone member commits its own entries.
theorem stages_commitOwn {entry : LogEntry} (lone : a.members = 1) (alive : a.storageFault = none)
    (leader : a.role = .leader) (last : a.log.getLast? = some entry) (term : entry.term = a.currentTerm)
    (newer : a.commitIndex < index) (end_ : index = a.snapshotIndex + a.log.length)
    (operation : String) : Stages e start a (a.commitTo index operation) := by
  have ne : a.log.length ≠ 0 := fun h => by simp [List.length_eq_zero_iff.mp h] at last
  refine Deed.stages (.commit leader index (.lone leader lone end_) newer ?_ operation) alive
  rw [List.getLast?_eq_getElem?] at last
  have : index - a.snapshotIndex - 1 = a.log.length - 1 := by omega
  rw [termAt, if_neg (by omega), if_neg (by omega), if_neg (by omega), this, last]
  exact term

end Commit

section Send

theorem stages_sendAppendTo (t : a.Tidy) (peer : String) : Stages e start a (a.sendAppendTo peer) := by
  simp only [sendAppendTo]
  split
  case isTrue => exact .refl
  case isFalse member =>
    simp only [Bool.not_eq_true', Bool.not_eq_false, List.contains_iff_mem] at member
    split
    case h_1 => exact .refl
    case h_2 ls leads =>
      have alive : a.storageFault = none := by
        by_contra fault
        have := (t.halted (Option.isSome_iff_ne_none.mpr fault)).leader
        simp [leads] at this
      split
      case isTrue => exact .refl
      case isFalse =>
        split
        case h_1 => exact Deed.stages (.stepDown _ _) alive
        case h_2 sequence next =>
          obtain rfl := (U64.checkedAdd_eq_some_iff.mp next).1
          have sent : Stages e start _ _ := Deed.stages (.send ls leads peer member) alive
          split
          case isTrue gone =>
            rw [shipment, if_pos (show nextFor ls peer ≤ a.snapshotIndex from gone)] at sent
            exact sent
          case isFalse held =>
            rw [shipment, if_neg (show ¬nextFor ls peer ≤ a.snapshotIndex from held)] at sent
            exact sent

theorem stages_sendAppends (t : a.Tidy) (peers : List String) :
    Stages e start a (peers.foldl sendAppendTo a) := by
  induction peers generalizing a
  case nil => exact .refl
  case cons peer peers ih =>
    have sent : Stages e start _ _ := stages_sendAppendTo t peer
    exact sent.trans (ih (sent.tidy t))

theorem stages_broadcastAppendEntries (t : a.Tidy) : Stages e start a a.broadcastAppendEntries := by
  simp only [broadcastAppendEntries]
  split
  case isTrue => exact .refl
  case isFalse => exact stages_sendAppends t _

theorem stages_maybeActivateCommandProtocol (t : a.Tidy) :
    Stages e start a a.maybeActivateCommandProtocol := by
  simp only [maybeActivateCommandProtocol]
  split
  case isTrue => exact .refl
  case isFalse h =>
    simp only [Bool.or_eq_true, decide_eq_true_eq, not_or, not_not, Option.not_isSome_iff_eq_none] at h
    obtain ⟨⟨⟨alive, leader⟩, _⟩, _⟩ := h
    split
    case isTrue =>
      split
      case isTrue => exact stages_maybeAdvanceCommit
      case isFalse => exact .refl
    case isFalse =>
      split
      case h_1 => exact Deed.stages (.stop _ _) alive
      case h_2 index next =>
        have last := index_eq next
        obtain ⟨rfl, fits⟩ := U64.checkedAdd_eq_some_iff.mp next
        have proposable : a.Proposable (some (.activateCommandProtocol
            Command.currentCommandProtocol)) := fun c hc => .inr (Option.some.inj hc).symm
        split
        case h_1 b error h => exact Deed.stages (.extend leader _ proposable fits h _) alive
        case h_2 b h =>
          have logged : Stages e start a b :=
            Deed.stages (.extend leader _ proposable fits h "") alive
          have t' := logged.tidy t
          refine logged.trans ?_
          split
          case isTrue lone =>
            have := (t.bounded alive).committed
            obtain ⟨store, out, rfl⟩ := onStore_eq h
            exact stages_commitOwn lone alive leader List.getLast?_concat rfl
              (by simp only; omega) (by simp; omega) _
          case isFalse => exact stages_broadcastAppendEntries t'

end Send

section Election

theorem stages_becomeLeader (t : a.Tidy) (candidate : a.role = .candidate)
    (majority : a.majority ≤ a.votes.card) (elects : e.elects) (unled : start.role ≠ .leader)
    (same : a.lastLogIndex = start.lastLogIndex) : Stages e start a a.becomeLeader := by
  simp only [becomeLeader]
  split
  case isTrue => exact .refl
  case isFalse fault =>
    have alive := Option.not_isSome_iff_eq_none.mp fault
    split
    case h_1 b error h => exact Deed.stages (.lead candidate majority elects unled same h _) alive
    case h_2 b h =>
      have led : Stages e start a b :=
        Deed.stages (.lead candidate majority elects unled same h "") alive
      have alive : b.storageFault = none := onStore_alive h alive
      have committed := (led.deed alive .schedule).trans stages_maybeAdvanceCommit
      exact committed.trans (stages_broadcastAppendEntries (committed.tidy t))

theorem stages_startElection (t : a.Tidy) (free : a.role ≠ .leader) (elects : e.elects)
    (unled : start.role ≠ .leader) (same : a.lastLogIndex = start.lastLogIndex) :
    Stages e start a a.startElection := by
  simp only [startElection]
  split
  case isTrue => exact .refl
  case isFalse fault =>
    have alive := Option.not_isSome_iff_eq_none.mp fault
    split
    case h_1 b error h => exact Deed.stages (.campaign free h _) alive
    case h_2 b h =>
      have stands : Stages e start a b := Deed.stages (.campaign free h "") alive
      have t := stands.tidy t
      obtain ⟨store, out, rfl⟩ := onStore_eq h
      split
      case isTrue majority =>
        exact stands.trans (stages_becomeLeader t rfl majority elects unled same)
      case isFalse => exact stands.deed alive (.solicit false fun _ => rfl)

theorem stages_startPreElection (t : a.Tidy) (free : a.role ≠ .leader) (elects : e.elects)
    (unled : start.role ≠ .leader) (same : a.lastLogIndex = start.lastLogIndex) :
    Stages e start a a.startPreElection := by
  simp only [startPreElection]
  split
  case isTrue => exact .refl
  case isFalse fault =>
    have alive := Option.not_isSome_iff_eq_none.mp fault
    have polled : Stages e start a a.polling := Deed.stages (.poll free) alive
    split
    case isTrue =>
      exact polled.trans (stages_startElection (polled.tidy t) (by simp [polling, resetElectionDeadline])
        elects unled same)
    case isFalse => exact polled.deed alive (.solicit true (by simp))

theorem stages_handleVoteReply (t : a.Tidy) (o : Orderly a) {voter : String} {preVote : Bool}
    {resp : RequestVoteResp} (reply : e = .message (.voteReply voter preVote resp)) :
    Stages e a a (a.handleVoteReply voter preVote resp) := by
  have elects : e.elects := by rw [reply]; rfl
  simp only [handleVoteReply]
  split
  case isTrue => exact .refl
  case isFalse fault =>
    have alive := Option.not_isSome_iff_eq_none.mp fault
    split
    case isTrue => exact Deed.stages (.stepDown _ _) alive
    case isFalse =>
      split
      case isTrue =>
        split
        case isTrue => exact .refl
        case isFalse polled =>
          simp only [ne_eq, Bool.or_eq_true, decide_eq_true_eq, not_or, not_not] at polled
          have agreed : Stages e a a { a with preVotes := insert voter a.preVotes } :=
            Deed.stages (.agree voter) alive
          -- A leader has not polled for the next term.
          have unled : a.role ≠ .leader := by
            intro leader
            have := o.polled
            simp only [leader, reduceCtorEq, if_false] at this
            omega
          split
          case isTrue => exact agreed.trans (stages_startElection (agreed.tidy t) unled elects unled rfl)
          case isFalse => exact agreed
      case isFalse real =>
        simp only [Bool.not_eq_true] at real
        subst real
        split
        case isTrue => exact .refl
        case isFalse h =>
          simp only [ne_eq, Bool.or_eq_true, decide_eq_true_eq, not_or, not_not, Bool.not_eq_true',
            Bool.not_eq_false] at h
          have counted : Stages e a a { a with votes := insert voter a.votes } :=
            Deed.stages (.count voter resp reply h.1.1 h.1.2 h.2) alive
          split
          case isTrue majority =>
            exact counted.trans (stages_becomeLeader (counted.tidy t) h.1.1 majority elects
              (by simp [h.1.1]) rfl)
          case isFalse => exact counted

end Election

section Voter

-- A message of a newer term first brings the actor to that term.
theorem stages_catchUp {term : Nat} (alive : a.storageFault = none) (le : a.currentTerm ≤ term) :
    Stages e start a (if term > a.currentTerm then a.stepDown term none else a) ∧
    (if term > a.currentTerm then a.stepDown term none else a).currentTerm = term ∧
    (if term > a.currentTerm then a.stepDown term none else a).lastLogIndex = a.lastLogIndex := by
  split
  case isFalse => exact ⟨.refl, by omega, rfl⟩
  case isTrue =>
    refine ⟨Deed.stages (.stepDown _ _) alive, stepDown_term le, ?_⟩
    rw [stepDown_eq le]
    split
    all_goals
      rename_i h
      obtain ⟨store, out, rfl⟩ := onStore_eq h
      rfl

theorem stages_handleRequestVote {req : RequestVoteReq} (asked : e = .message (.requestVote req)) :
    Stages e start a (a.handleRequestVote req).1 := by
  simp only [handleRequestVote]
  split
  case isTrue => exact .refl
  case isFalse valid =>
    simp only [Bool.or_eq_true, decide_eq_true_eq, not_or, Option.not_isSome_iff_eq_none] at valid
    split
    case isTrue => exact .refl
    case isFalse real =>
      split
      case isTrue => exact .refl
      case isFalse lt =>
        have ⟨s, term, _⟩ : Stages e start _ _ ∧ _ := stages_catchUp valid.1 (Nat.not_lt.mp lt)
        generalize (if req.term > a.currentTerm then a.stepDown req.term none else a) = a at s term ⊢
        split
        case isTrue => exact s
        case isFalse fault =>
          have alive := Option.not_isSome_iff_eq_none.mp fault
          split
          case isFalse => exact s
          case isTrue free =>
            simp only [Bool.and_eq_true] at free
            have real : req.preVote = false := by simpa using real
            simp only [grantVote]
            split
            case h_1 b error h =>
              exact s.deed alive (.grant req asked real term.symm free.1 free.2 h _)
            case h_2 b h => exact s.deed alive (.grant req asked real term.symm free.1 free.2 h "")

end Voter

section Follower

theorem stages_handleInstallSnapshot {req : InstallSnapshotReq}
    (asked : e = .message (.installSnapshot req)) :
    Stages e start a (a.handleInstallSnapshot req).1 := by
  simp only [handleInstallSnapshot]
  split
  case isTrue => exact .refl
  case isFalse fault =>
    have alive := Option.not_isSome_iff_eq_none.mp fault
    split
    case isTrue => exact .refl
    case isFalse lt =>
      have ⟨s, term, _⟩ : Stages e start _ _ ∧ _ := stages_catchUp alive (Nat.not_lt.mp lt)
      generalize (if req.term > a.currentTerm then a.stepDown req.term none else a) = a at s term ⊢
      split
      case isTrue => exact s
      case isFalse fault =>
        have alive := Option.not_isSome_iff_eq_none.mp fault
        split
        case isTrue => exact s
        case isFalse valid =>
          simp only [Bool.or_eq_true, decide_eq_true_eq, not_or, Nat.not_lt, bne_iff_ne, ne_eq,
            not_not] at valid
          have s := s.deed alive (.follow (by simp [asked, Event.leads, term]) req.leaderId)
          have alive : (a.becomeFollowerOf req.leaderId).storageFault = none := alive
          have term : (a.becomeFollowerOf req.leaderId).currentTerm = req.term := term
          have follower : (a.becomeFollowerOf req.leaderId).role = .follower := rfl
          generalize a.becomeFollowerOf req.leaderId = a at s alive term follower ⊢
          split
          case isTrue => exact s
          case isFalse newer =>
            split
            case isTrue => exact s
            case isFalse beyond =>
              split
              case h_1 => exact s
              case h_2 restored restore =>
                refine s.deed alive (.install req asked restored ⟨term.symm, ?_, valid.2, by omega,
                  by omega, restore, follower⟩)
                have := valid.1
                by_cases hi : req.lastIncludedIndex = 0 <;> by_cases ht : req.lastIncludedTerm = 0 <;>
                  simp_all

theorem stages_appendFrom (alive : a.storageFault = none) {req : AppendEntriesReq}
    (asked : e = .message (.appendEntries req)) (term : req.term = a.currentTerm)
    (prevTerm : req.prevLogTerm ≤ req.term)
    (wf : wellFormed req.term req.prevLogIndex req.entries) (follower : a.role = .follower)
    (same : a.lastLogIndex = start.lastLogIndex) : Stages e start a (a.appendFrom req).1 := by
  simp only [appendFrom]
  split
  case isTrue => exact .refl
  case isFalse prev =>
    simp only [gt_iff_lt, Bool.and_eq_true, decide_eq_true_eq, not_and, not_not] at prev
    have admits : a.Admits req := ⟨term, prevTerm, wf, by
      rcases Nat.eq_zero_or_pos req.prevLogIndex with h | h
      case inl => exact .inl h
      case inr => exact .inr (prev h), follower⟩
    split
    case h_1 b h =>
      rw [appendLoop_error h]
      exact .refl
    case h_2 appended stored =>
      split
      case h_1 b error h => exact Deed.stages (.accept req asked admits appended stored same h _) alive
      case h_2 b h =>
        have accepted : Stages e start a (b.followCommit req.leaderCommit) :=
          Deed.stages (.accept req asked admits appended stored same h "") alive
        split <;> exact accepted

theorem stages_handleAppendEntries {req : AppendEntriesReq} (asked : e = .message (.appendEntries req))
    (same : a.lastLogIndex = start.lastLogIndex) : Stages e start a (a.handleAppendEntries req).1 := by
  simp only [handleAppendEntries]
  split
  case isTrue => exact .refl
  case isFalse fault =>
    have alive := Option.not_isSome_iff_eq_none.mp fault
    split
    case isTrue => exact .refl
    case isFalse lt =>
      have ⟨s, term, last⟩ : Stages e start _ _ ∧ _ := stages_catchUp alive (Nat.not_lt.mp lt)
      replace last := last.trans same
      generalize (if req.term > a.currentTerm then a.stepDown req.term none else a) = a at s term last ⊢
      split
      case isTrue => exact s
      case isFalse fault =>
        have alive := Option.not_isSome_iff_eq_none.mp fault
        split
        case isTrue => exact s
        case isFalse valid =>
          simp only [gt_iff_lt, Bool.or_eq_true, decide_eq_true_eq, not_or, Nat.not_lt,
            Bool.not_eq_true', Bool.not_eq_false] at valid
          have s := s.deed alive (.follow (by simp [asked, Event.leads, term]) req.leaderId)
          exact s.trans (stages_appendFrom (a := a.becomeFollowerOf req.leaderId) alive asked
            term.symm valid.1 valid.2 rfl last)

end Follower

section Replies

variable {peer : String} {request : RequestStamp} {upTo : Nat}

-- What is known once a reply has been accepted as the one that is waited for.
structure Awaits (a : ShardActor σ) (peer : String) (request : RequestStamp) : Prop where
  alive  : a.storageFault = none
  member : peer ∈ a.peers
  leader : a.role = .leader
  term   : request.term = a.currentTerm
  past   : request.sentAt ≤ a.now

omit [StateMachine σ] [PeerPlane] in
theorem Awaits.onLeader (h : a.Awaits peer request) (f : LeaderState → LeaderState) :
    (a.onLeader f).Awaits peer request :=
  ⟨h.alive, h.member, h.leader, h.term, h.past⟩

theorem Stages.contact (s : Stages e start a b) (h : b.Awaits peer request)
    (contacts : e.contacts b.currentTerm peer request.sentAt) :
    Stages e start a (b.onLeader (contacted peer request.sentAt)) :=
  s.deed h.alive (.contact h.leader peer h.member _ contacts h.past)

theorem Stages.advance (s : Stages e start a b) (h : b.Awaits peer request) (upTo : Nat)
    (answers : e.answers peer request upTo) (acknowledged : e.acknowledges b.currentTerm peer upTo)
    (expected : start.Expects peer request) : Stages e start a (b.onLeader (advanced peer upTo)) :=
  s.deed h.alive (.advance h.leader peer h.member request upTo answers acknowledged expected)

theorem stages_acceptReplicationCallback (peer : String) (request : RequestStamp)
    (responseTerm : Option Nat) :
    Stages e start a (a.acceptReplicationCallback peer request responseTerm).1 ∧
    ((a.acceptReplicationCallback peer request responseTerm).2 = true →
      (a.acceptReplicationCallback peer request responseTerm).1.Awaits peer request ∧
      a.Expects peer request) := by
  simp only [acceptReplicationCallback]
  split
  case isTrue => exact ⟨.refl, by simp⟩
  case isFalse h =>
    simp only [Bool.or_eq_true, not_or, Option.not_isSome_iff_eq_none, Bool.not_eq_true',
      Bool.not_eq_false, List.contains_iff_mem] at h
    split
    case h_1 => exact ⟨Deed.stages (.stepDown _ _) h.1, by simp⟩
    case h_2 => exact ⟨.refl, by simp⟩
    case h_3 current =>
      refine ⟨Deed.stages (.callback peer) h.1, fun _ => ?_⟩
      have ⟨active, term, past⟩ := classifyCallback_current current
      have leader : a.role = .leader := by
        by_contra other
        simp [other] at active
      rw [if_pos leader] at active
      have ⟨ls, leads, pending⟩ := Option.bind_eq_some_iff.mp active
      exact ⟨⟨h.1, h.2, leader, term, past⟩, leader, ls, leads, pending⟩

theorem stages_handleAppendReply (t : a.Tidy) (awaits : a.Awaits peer request)
    (expected : start.Expects peer request) {resp : Option AppendEntriesResp}
    (reply : e = .message (.appendReply peer request upTo resp)) :
    Stages e start a (a.handleAppendReply request.sentAt peer upTo resp) := by
  simp only [handleAppendReply]
  split
  case isTrue => exact .refl
  case isFalse =>
    have s : Stages e start a _ := Deed.stages (.land peer) awaits.alive
    refine s.trans ?_
    have t := s.tidy t
    have awaits := awaits.onLeader (landed peer)
    clear s
    generalize a.onLeader (landed peer) = a at t awaits ⊢
    cases resp
    case none => exact .refl
    case some resp =>
      simp only
      split
      case isTrue => exact Deed.stages (.stepDown _ _) awaits.alive
      case isFalse =>
        split
        case isTrue => exact .refl
        case isFalse current =>
          simp only [ne_eq, Bool.or_eq_true, decide_eq_true_eq, not_or, not_not] at current
          have s : Stages e start a _ := Deed.stages (.advertise peer resp.commandProtocol
            (by simp [reply, Event.advertises, current.2, awaits.term])) awaits.alive
          have contacts : e.contacts a.currentTerm peer request.sentAt := by
            simp [reply, Event.contacts, current, awaits.term]
          have s := s.contact (awaits.onLeader _) contacts
          split
          case isTrue success =>
            simp only [ge_iff_le, Bool.and_eq_true, decide_eq_true_eq] at success
            have s := s.advance ((awaits.onLeader _).onLeader _) upTo (by simp [reply, Event.answers])
              (by simp [reply, Event.acknowledges, current, awaits.term, success, onLeader]) expected
            have s := s.trans stages_maybeAdvanceCommit
            have s := s.trans (stages_maybeActivateCommandProtocol (s.tidy t))
            split
            case isTrue => exact s.trans (stages_sendAppendTo (s.tidy t) peer)
            case isFalse => exact s
          case isFalse refused =>
            simp only [ge_iff_le, Bool.and_eq_true, decide_eq_true_eq] at refused
            have refuses : e.refuses a.currentTerm peer resp.matchIndex := by
              simp [reply, Event.refuses, current, awaits.term, refused]
            have s := s.deed awaits.alive (.rewind (a := (a.onLeader _).onLeader _) awaits.leader peer
              awaits.member resp.matchIndex refuses)
            exact s.trans (stages_maybeActivateCommandProtocol (s.tidy t))

theorem stages_handleSnapshotReply (t : a.Tidy) (awaits : a.Awaits peer request)
    (expected : start.Expects peer request) {resp : Option InstallSnapshotResp}
    (reply : e = .message (.snapshotReply peer request upTo resp)) :
    Stages e start a (a.handleSnapshotReply request.sentAt peer upTo resp) := by
  simp only [handleSnapshotReply]
  split
  case isTrue => exact .refl
  case isFalse =>
    have s : Stages e start a _ := Deed.stages (.land peer) awaits.alive
    refine s.trans ?_
    have t := s.tidy t
    have awaits := awaits.onLeader (landed peer)
    clear s
    generalize a.onLeader (landed peer) = a at t awaits ⊢
    cases resp
    case none => exact .refl
    case some resp =>
      simp only
      split
      case isTrue => exact Deed.stages (.stepDown _ _) awaits.alive
      case isFalse =>
        split
        case isTrue => exact .refl
        case isFalse current =>
          simp only [ne_eq, Bool.or_eq_true, decide_eq_true_eq, not_or, not_not, Bool.not_eq_true',
            Bool.not_eq_false] at current
          split
          case h_1 => exact stages_sendAppendTo t peer
          case h_2 ls leads =>
            split
            case h_1 => exact .refl
            case h_2 matched next acknowledged =>
              simp only [acknowledgedPrefix] at acknowledged
              split at acknowledged
              case isTrue => contradiction
              case isFalse reported =>
                cases acknowledged
                have s : Stages e start a _ := .advance .refl awaits upTo (by simp [reply, Event.answers])
                  (by simp [reply, Event.acknowledges, current, awaits.term, Nat.not_lt.mp reported])
                  expected
                have s := s.contact (awaits.onLeader _)
                  (by simp [reply, Event.contacts, current, awaits.term, onLeader])
                have eq : (a.onLeader (advanced peer upTo)).onLeader (contacted peer request.sentAt) =
                    { a with leader := some (contacted peer request.sentAt (advanced peer upTo ls)) } := by
                  simp [onLeader, leads]
                rw [eq] at s
                exact s.trans (stages_sendAppendTo (s.tidy t) peer)

end Replies

section Clients

omit [StateMachine σ] [PeerPlane] in
theorem forActiveProtocol_required {c c' : Command} {active : Nat}
    (h : c.forActiveProtocol active = .ok c') :
    c'.requiredProtocol ≤ max Command.legacyCommandProtocol active := by
  simp only [Command.forActiveProtocol] at h
  split at h
  case isTrue le =>
    cases h
    exact le.trans (Nat.le_max_right _ _)
  case isFalse =>
    split at h
    case h_4 => contradiction
    all_goals
      split at h
      case isTrue =>
        cases h
        exact Nat.le_max_left _ _
      case isFalse => contradiction

theorem stages_append {command own : Command} {client index : Nat} (t : a.Tidy)
    (alive : a.storageFault = none) (leader : a.role = .leader)
    (asked : e = .message (.propose command client))
    (active : own.requiredProtocol ≤ max Command.legacyCommandProtocol a.commandProtocol)
    (next : U64.checkedAdd a.lastLogIndex 1 = some index) :
    Stages e start a (a.append own client index) := by
  have last := index_eq next
  obtain ⟨rfl, fits⟩ := U64.checkedAdd_eq_some_iff.mp next
  have proposable : a.Proposable (some own) := fun c h => .inl (Option.some.inj h ▸ active)
  simp only [append]
  split
  case h_1 b error h =>
    have s : Stages e start a _ :=
      Deed.stages (.extend leader _ proposable fits h "persisting proposed log entry") alive
    exact s.tail (.refuse command client asked _)
  case h_2 b h =>
    have s : Stages e start a b := Deed.stages (.extend leader _ proposable fits h "") alive
    have := (t.bounded alive).committed
    obtain ⟨store, out, rfl⟩ := onStore_eq h
    have s := s.deed alive (.wait (a.lastLogIndex + 1) client _ command own asked List.getLast?_concat
      rfl active)
    split
    case isTrue lone =>
      exact s.trans (stages_commitOwn lone alive leader List.getLast?_concat rfl
        (by simp only [emit]; omega) (by simp [emit]; omega) _)
    case isFalse => exact s.trans (stages_broadcastAppendEntries (s.tidy t))

theorem stages_onPropose (t : a.Tidy) (p : Primed a) {command : Command} {client : Nat}
    (asked : e = .message (.propose command client)) : Stages e start a (a.onPropose command client) := by
  simp only [onPropose]
  split
  case isTrue => exact .single (.refuse command client asked _)
  case isFalse =>
    split
    case isTrue => exact .single (.refuse command client asked _)
    case isFalse leader =>
      simp only [ne_eq, not_not] at leader
      split
      case isTrue => exact .single (.refuse command client asked _)
      case isFalse =>
        have s : Stages e start a _ := stages_maybeActivateCommandProtocol t
        have stays := maybeActivateCommandProtocol_stays p
        have t := s.tidy t
        generalize a.maybeActivateCommandProtocol = b at s stays t ⊢
        have refused := s.tail (.refuse command client asked (.unavailable b.shardId))
        split
        case isTrue => exact refused
        case isFalse fault =>
          have alive := Option.not_isSome_iff_eq_none.mp fault
          split
          case h_1 => exact refused
          case h_2 own active =>
            split
            case h_1 => exact refused
            case h_2 index next =>
              exact s.trans (stages_append t alive ((stays alive).trans leader) asked
                (forActiveProtocol_required active) next)

end Clients

section Tick

theorem sendAppends_of_follower (h : a.leader = none) (peers : List String) :
    peers.foldl sendAppendTo a = a := by
  induction peers
  case nil => rfl
  case cons peer peers ih =>
    have : a.sendAppendTo peer = a := by
      simp only [sendAppendTo, h]
      split <;> rfl
    rw [List.foldl_cons, this, ih]

theorem sendAppendTo_fault (peer : String) : a.sendAppendTo peer = a.stepDown a.currentTerm none ∨
    (a.sendAppendTo peer).storageFault = a.storageFault := by
  simp only [sendAppendTo]
  split
  case isTrue => exact .inr rfl
  case isFalse =>
    split
    case h_1 => exact .inr rfl
    case h_2 =>
      split
      case isTrue => exact .inr rfl
      case isFalse =>
        split
        case h_1 => exact .inl rfl
        case h_2 => split <;> exact .inr rfl

-- If the requests end in a fault, one of them could not be numbered.
theorem sendAppends_fault (t : a.Tidy) (alive : a.storageFault = none) (peers : List String)
    (fault : (peers.foldl sendAppendTo a).storageFault.isSome) :
    ∃ b, Stages e start a b ∧ b.storageFault = none ∧
      peers.foldl sendAppendTo a = b.stepDown b.currentTerm none := by
  induction peers generalizing a
  case nil => simp [alive] at fault
  case cons peer peers ih =>
    have s : Stages e start _ _ := stages_sendAppendTo t peer
    rw [List.foldl_cons] at fault ⊢
    by_cases alive' : (a.sendAppendTo peer).storageFault = none
    case pos =>
      have ⟨b, s', alive, eq⟩ := ih (s.tidy t) alive' fault
      exact ⟨b, s.trans s', alive, eq⟩
    case neg =>
      have halted := (s.tidy t).halted (Option.isSome_iff_ne_none.mpr alive')
      rw [sendAppends_of_follower halted.leader]
      exact ⟨a, .refl, alive, (sendAppendTo_fault peer).resolve_right (by rw [alive]; exact alive')⟩

theorem stages_relinquishNoQuorum (t : a.Tidy) (alive : a.storageFault = none) :
    Stages e start a a.broadcastAppendEntries.relinquishNoQuorum := by
  rw [relinquishNoQuorum]
  by_cases alive' : a.broadcastAppendEntries.storageFault = none
  case pos => exact (stages_broadcastAppendEntries t).deed alive' (.stepDown _ _)
  case neg =>
    rw [broadcastAppendEntries] at alive' ⊢
    split at alive'
    case isTrue => exact absurd alive alive'
    case isFalse leader =>
      rw [if_neg leader]
      obtain ⟨b, (s : Stages e start _ _), alive, eq⟩ := sendAppends_fault t alive _
        (Option.isSome_iff_ne_none.mpr alive')
      have term : (b.stepDown b.currentTerm none).currentTerm = b.currentTerm := stepDown_term le_rfl
      rw [eq] at alive' ⊢
      rw [term]
      exact s.deed alive (.resign (Option.isSome_iff_ne_none.mpr alive'))

theorem stages_onTick (t : a.Tidy) : Stages .tick a a a.onTick := by
  simp only [onTick]
  split
  case isTrue => exact .refl
  case isFalse fault =>
    have alive := Option.not_isSome_iff_eq_none.mp fault
    split
    case h_1 =>
      have s : Stages .tick a a _ := stages_maybeActivateCommandProtocol t
      have t := s.tidy t
      generalize a = start at s t ⊢
      generalize start.maybeActivateCommandProtocol = a at s t ⊢
      split
      case isTrue => exact s
      case isFalse fault =>
        have alive := Option.not_isSome_iff_eq_none.mp fault
        refine s.trans ?_
        by_cases due : a.now ≥ a.heartbeatDeadline
        case pos =>
          simp only [due, if_true]
          have s : Stages .tick start a _ := Deed.stages .schedule alive
          split
          case isTrue => exact s.trans (stages_relinquishNoQuorum (s.tidy t) alive)
          case isFalse => exact s.trans (stages_broadcastAppendEntries (s.tidy t))
        case neg =>
          simp only [due, if_false]
          split
          case isTrue => exact Deed.stages (.stepDown _ _) alive
          case isFalse => exact .refl
    all_goals
      rename_i role
      split
      case isTrue =>
        split
        case isTrue => exact stages_startPreElection t (by simp [role]) rfl (by simp [role]) rfl
        case isFalse => exact stages_startElection t (by simp [role]) rfl (by simp [role]) rfl
      case isFalse => exact .refl

end Tick

-- Whatever an event makes an actor do, it does in these stages.
theorem dispatch_stages (t : a.Tidy) (o : Orderly a) (p : Primed a) (e : Event) :
    Stages e a a (a.dispatch e).1 := by
  cases e
  case tick => exact stages_onTick t
  case message msg =>
    cases msg
    case propose command client => exact stages_onPropose t p rfl
    case query | queryLocal => exact .refl
    case appendEntries req => exact stages_handleAppendEntries rfl rfl
    case installSnapshot req => exact stages_handleInstallSnapshot rfl
    case requestVote req => exact stages_handleRequestVote rfl
    case voteReply voter preVote resp => exact stages_handleVoteReply t o rfl
    case appendReply peer request upTo resp =>
      have ⟨s, awaits⟩ : Stages (.message (.appendReply peer request upTo resp)) a a _ ∧ _ :=
        stages_acceptReplicationCallback peer request (resp.map (·.term))
      have t := s.tidy t
      simp only [dispatch, handle]
      generalize a.acceptReplicationCallback peer request (resp.map (·.term)) = r at s awaits t ⊢
      split
      case isTrue accepted =>
        have ⟨awaits, expected⟩ := awaits accepted
        exact s.trans (stages_handleAppendReply t awaits expected rfl)
      case isFalse => exact s
    case snapshotReply peer request upTo resp =>
      have ⟨s, awaits⟩ : Stages (.message (.snapshotReply peer request upTo resp)) a a _ ∧ _ :=
        stages_acceptReplicationCallback peer request (resp.map (·.term))
      have t := s.tidy t
      simp only [dispatch, handle]
      generalize a.acceptReplicationCallback peer request (resp.map (·.term)) = r at s awaits t ⊢
      split
      case isTrue accepted =>
        have ⟨awaits, expected⟩ := awaits accepted
        exact s.trans (stages_handleSnapshotReply t awaits expected rfl)
      case isFalse => exact s

end ShardActor
