import FiduciaNode.Consensus.Theorems.Batches
import FiduciaNode.Consensus.Theorems.Numbered

namespace Effect

def leads : Effect → Bool
  | .becameLeader _ => true
  | _ => false

-- Neither a request nor the start of a leadership.
def Aside (effect : Effect) : Prop :=
  effect.sent? = none ∧ effect.leads = false

end Effect

-- The term of a reply.
def Event.responseTerm : Event → Option Nat
  | .message (.appendReply _ _ _ resp) => resp.map (·.term)
  | .message (.snapshotReply _ _ _ resp) => resp.map (·.term)
  | _ => none

theorem classifyCallback_higherTerm {currentTerm term : Nat} {active : Option RequestStamp}
    {request : RequestStamp} {responseTerm : Option Nat} {now : Instant}
    (h : classifyCallback currentTerm active request responseTerm now = .higherTerm term) :
    responseTerm = some term ∧ currentTerm < term := by
  simp only [classifyCallback] at h
  split at h
  case h_1 higher =>
    cases h
    simpa [Option.filter_eq_some_iff] using higher
  case h_2 => split at h <;> contradiction

namespace ShardActor

variable {σ : Type} {e : Event} {start a b c : ShardActor σ} {events : List Event} {ls : LeaderState}
  {peer : String} {request : RequestStamp} {upTo : Nat}

def matchFor (ls : LeaderState) (peer : String) : Nat :=
  ls.matchIndex[peer]?.getD 0

def Sent (a : ShardActor σ) (peer : String) (request : RequestStamp) (upTo : Nat) : Prop :=
  ∃ effect ∈ a.out, effect.sent? = some (peer, request, upTo)

-- The request was sent, and no leadership has begun since.
def SentLately (a : ShardActor σ) (peer : String) (request : RequestStamp) (upTo : Nat) : Prop :=
  ∃ before effect after, a.out = before ++ effect :: after ∧
    effect.sent? = some (peer, request, upTo) ∧ ∀ x ∈ after, x.leads = false

-- What a leader has sent to a peer is what comes back with the answer that the leader waits for.
def Faithful (a : ShardActor σ) (e : Event) : Prop :=
  ∀ peer request upTo, e.answers peer request upTo → a.Expects peer request → a.Sent peer request upTo

-- What is behind the indices that a leader keeps for a peer.
structure Credit (events : List Event) (a : ShardActor σ) (ls : LeaderState) (peer : String) : Prop where
  acknowledged : matchFor ls peer = 0 ∨ ∃ request, a.SentLately peer request (matchFor ls peer) ∧
    ∃ e ∈ events, e.answers peer request (matchFor ls peer) ∧
      e.acknowledges a.currentTerm peer (matchFor ls peer)
  held         : matchFor ls peer ≤ a.snapshotIndex + a.log.length
  next         : nextFor ls peer ≤ a.snapshotIndex + a.log.length + 1
  above        : a.lastLogIndex < U64.max → matchFor ls peer < nextFor ls peer

structure Booked (events : List Event) (a : ShardActor σ) : Prop where
  idle   : a.role ≠ .leader → a.leader = none
  past   : ∀ peer request upTo, a.Sent peer request upTo → request.term ≤ a.currentTerm
  fresh  : a.role = .candidate → ∀ peer request upTo, a.Sent peer request upTo →
    request.term < a.currentTerm
  own    : a.leader.isSome → ∀ peer request upTo, a.Sent peer request upTo →
    request.term = a.currentTerm →
      a.SentLately peer request upTo ∧ upTo ≤ a.snapshotIndex + a.log.length
  credit : ∀ ls, a.leader = some ls → ∀ peer, Credit events a ls peer

section Sent

theorem sent_append {effects : List Effect} (out : b.out = a.out ++ effects)
    (aside : ∀ effect ∈ effects, effect.sent? = none) (h : b.Sent peer request upTo) :
    a.Sent peer request upTo := by
  have ⟨effect, mem, sent⟩ := h
  rw [out] at mem
  rcases List.mem_append.mp mem with mem | mem
  case inl => exact ⟨effect, mem, sent⟩
  case inr => simp [aside effect mem] at sent

theorem SentLately.append {effects : List Effect} (h : a.SentLately peer request upTo)
    (out : b.out = a.out ++ effects) (aside : ∀ effect ∈ effects, effect.leads = false) :
    b.SentLately peer request upTo := by
  have ⟨before, effect, after, eq, sent, unled⟩ := h
  refine ⟨before, effect, after ++ effects, by simp [out, eq], sent, fun x mem => ?_⟩
  exact (List.mem_append.mp mem).elim (unled x) (aside x)

end Sent

section Out

-- What a move adds to the effects. Only two kinds of moves send a request or begin a leadership.
def Adds (a b : ShardActor σ) : Prop :=
  ∃ effects, b.out = a.out ++ effects ∧ ∀ effect ∈ effects, effect.Aside

theorem Adds.of_eq (h : b.out = a.out) : Adds a b :=
  ⟨[], by simp [h], by simp⟩

theorem Adds.trans (h₁ : Adds a b) (h₂ : Adds b c) : Adds a c := by
  have ⟨effects₁, eq₁, aside₁⟩ := h₁
  have ⟨effects₂, eq₂, aside₂⟩ := h₂
  refine ⟨effects₁ ++ effects₂, by rw [eq₂, eq₁, List.append_assoc], fun effect mem => ?_⟩
  exact (List.mem_append.mp mem).elim (aside₁ effect) (aside₂ effect)

theorem adds_onStore (op : ShardStore → ShardStore.Result) : Adds a (a.onStore op).1 := by
  simp only [onStore]
  split
  case h_1 => exact .of_eq rfl
  case h_2 =>
    refine ⟨_, rfl, fun effect mem => ?_⟩
    obtain ⟨_, _, rfl⟩ := List.mem_map.mp mem
    exact ⟨rfl, rfl⟩

theorem adds_drainPending (error : ProposeError) : Adds a (a.drainPending error) := by
  refine ⟨_, rfl, fun effect mem => ?_⟩
  obtain ⟨_, _, rfl⟩ := List.mem_map.mp mem
  exact ⟨rfl, rfl⟩

theorem adds_failStorage (operation error : String) : Adds a (a.failStorage operation error) :=
  adds_drainPending (a := { a with
    storageFault := a.storageFault.or (some (operation ++ ": " ++ error))
    role := .follower, leaderId := none, leader := none, votes := ∅, preVotes := ∅ }) _

theorem adds_stepDown (term : Nat) (leader : Option String) : Adds a (a.stepDown term leader) := by
  by_cases lt : term < a.currentTerm
  case pos =>
    rw [stepDown, if_pos lt]
    exact .of_eq rfl
  case neg =>
    rw [stepDown_eq (Nat.not_lt.mp lt)]
    have adopted : Adds a { a.adopted term with leaderId := leader } := .of_eq rfl
    have saved := adopted.trans (adds_onStore (·.saveMeta
      { a.adopted term with leaderId := leader }.hardState))
    split
    case h_1 b error h =>
      rw [show b = _ from (congrArg Prod.fst h).symm]
      exact saved.trans (adds_failStorage _ _)
    case h_2 b h =>
      rw [show b = _ from (congrArg Prod.fst h).symm]
      exact saved.trans (adds_drainPending (a := resetElectionDeadline _) _)

variable [StateMachine σ] [PeerPlane]

theorem Move.adds (m : Move e start a b) :
    Adds a b ∨
    (a.role = .candidate ∧ b = emit { a with
      role := .leader, leaderId := some a.nodeId, votes := ∅, leader := some a.initialLeaderState
    } (.becameLeader a.currentTerm)) ∨
    ∃ ls peer, a.leader = some ls ∧ b = emit (a.requesting ls peer (ls.requestSequence + 1))
      (a.shipment ls peer (ls.requestSequence + 1)) := by
  cases m
  case refuse effects refusals =>
    refine .inl ⟨effects, rfl, fun effect mem => ?_⟩
    have := refusals effect mem
    cases effect
    case answer => exact ⟨rfl, rfl⟩
    all_goals contradiction
  case resign => exact .inl (adds_stepDown _ _)
  case poll elects _ _ _ => exact .inl (.of_eq (by rw [elects]))
  case withdraw elects _ _ _ => exact .inl (.of_eq (by rw [elects]))
  case campaign elects _ _ _ => exact .inl (.of_eq (by rw [elects]))
  case lead candidate => exact .inr (.inl ⟨candidate, rfl⟩)
  case solicit =>
    refine .inl ⟨_, rfl, fun effect mem => ?_⟩
    obtain ⟨_, _, rfl⟩ := List.mem_map.mp mem
    exact ⟨rfl, rfl⟩
  case drain error => exact .inl (adds_drainPending error)
  case save op saved =>
    rw [show b = (a.onStore op).1 from (congrArg Prod.fst saved).symm]
    exact .inl (adds_onStore op)
  case fail c error _ op failed operation =>
    rw [show c = (a.onStore op).1 from (congrArg Prod.fst failed).symm]
    exact .inl ((adds_onStore op).trans (adds_failStorage _ _))
  case stop => exact .inl (adds_failStorage _ _)
  case wait => exact .inl ⟨[_], rfl, fun effect mem => by rw [List.mem_singleton.mp mem]; exact ⟨rfl, rfl⟩⟩
  case apply completed entry _ _ =>
    have ⟨pending, out, eq, kinds⟩ := applyEntry_eq (a := a) completed (a.lastApplied + 1) entry
    rw [eq]
    refine .inl ⟨out, rfl, fun effect mem => ?_⟩
    rcases kinds effect mem with ⟨event, rfl⟩ | ⟨result, rfl⟩
    case inl | inr => exact ⟨rfl, rfl⟩
  case answer =>
    refine .inl ⟨_, rfl, fun effect mem => ?_⟩
    obtain ⟨_, _, rfl⟩ := List.mem_map.mp mem
    exact ⟨rfl, rfl⟩
  case send ls leads peer _ => exact .inr (.inr ⟨ls, peer, leads, rfl⟩)
  all_goals exact .inl (.of_eq rfl)

theorem Move.grows_out (m : Move e start a b) : ∃ effects, b.out = a.out ++ effects := by
  rcases m.adds with ⟨effects, eq, _⟩ | ⟨_, rfl⟩ | ⟨ls, peer, _, rfl⟩
  case inl => exact ⟨effects, eq⟩
  case inr.inl | inr.inr => exact ⟨_, rfl⟩

theorem Moves.sent (m : Moves e start a b) (h : a.Sent peer request upTo) : b.Sent peer request upTo := by
  induction m
  case refl => exact h
  case tail m ih =>
    have ⟨effects, eq⟩ := m.grows_out
    have ⟨effect, mem, sent⟩ := ih
    exact ⟨effect, by rw [eq]; exact List.mem_append_left _ mem, sent⟩

end Out

section Booked

-- The end of the log of a leader does not move back.
structure Onto (a b : ShardActor σ) : Prop where
  role   : b.role = a.role
  term   : b.currentTerm = a.currentTerm
  leader : b.leader = a.leader
  last   : a.leader.isSome → a.snapshotIndex + a.log.length ≤ b.snapshotIndex + b.log.length

theorem lastLogIndex_mono (h : a.snapshotIndex + a.log.length ≤ b.snapshotIndex + b.log.length) :
    a.lastLogIndex ≤ b.lastLogIndex := by
  simp only [lastLogIndex, U64.saturatingAdd]
  omega

-- Below the end of the range, adding saturates nothing.
theorem last_lt_max (room : a.lastLogIndex < U64.max) : a.snapshotIndex + a.log.length < U64.max :=
  (min_lt_iff.mp room).resolve_right (lt_irrefl _)

theorem lt_saturatingAdd_one {n : Nat} (h : n < U64.max) : n < U64.saturatingAdd n 1 :=
  Nat.lt_min.mpr ⟨Nat.lt_succ_self n, h⟩

theorem saturatingAdd_le (m n : Nat) : U64.saturatingAdd m n ≤ m + n :=
  Nat.min_le_left _ _

theorem Credit.onto {ls' : LeaderState} (h : Credit events a ls peer)
    (matched : matchFor ls' peer = matchFor ls peer) (next : nextFor ls' peer = nextFor ls peer)
    (term : b.currentTerm = a.currentTerm)
    (last : a.snapshotIndex + a.log.length ≤ b.snapshotIndex + b.log.length)
    (sent : ∀ request upTo, a.SentLately peer request upTo → b.SentLately peer request upTo) :
    Credit events b ls' peer := by
  refine ⟨?_, ?_, ?_, fun room => ?_⟩
  case refine_1 =>
    rw [matched, term]
    rcases h.acknowledged with zero | ⟨request, lately, acked⟩
    case inl => exact .inl zero
    case inr => exact .inr ⟨request, sent _ _ lately, acked⟩
  case refine_2 => exact matched ▸ h.held.trans last
  case refine_3 => exact next ▸ h.next.trans (Nat.succ_le_succ last)
  case refine_4 =>
    rw [matched, next]
    exact h.above (Nat.lt_of_le_of_lt (lastLogIndex_mono last) room)

theorem Booked.onto (h : Booked events a) (adds : Adds a b) (o : Onto a b) : Booked events b := by
  have ⟨effects, eq, aside⟩ := adds
  have before {peer request upTo} (s : b.Sent peer request upTo) : a.Sent peer request upTo :=
    sent_append eq (fun effect mem => (aside effect mem).1) s
  have lately {peer request upTo} (s : a.SentLately peer request upTo) :
      b.SentLately peer request upTo := s.append eq fun effect mem => (aside effect mem).2
  refine ⟨?_, ?_, ?_, ?_, ?_⟩
  case refine_1 => exact fun role => o.leader.trans (h.idle (o.role ▸ role))
  case refine_2 => exact fun peer request upTo s => o.term ▸ h.past peer request upTo (before s)
  case refine_3 =>
    exact fun role peer request upTo s => o.term ▸ h.fresh (o.role ▸ role) peer request upTo (before s)
  case refine_4 =>
    intro leads peer request upTo s term
    rw [o.leader] at leads
    have ⟨s, held⟩ := h.own leads peer request upTo (before s) (o.term ▸ term)
    exact ⟨lately s, held.trans (o.last leads)⟩
  case refine_5 =>
    intro ls leads peer
    rw [o.leader] at leads
    exact (h.credit ls leads peer).onto rfl rfl o.term (o.last (by simp [leads])) fun _ _ => lately

-- An actor that leads no more keeps only what it has sent in mind.
theorem Booked.retire (h : Booked events a) (adds : Adds a b) (role : b.role = .follower)
    (leader : b.leader = none) (term : a.currentTerm ≤ b.currentTerm) : Booked events b := by
  have ⟨effects, eq, aside⟩ := adds
  have before {peer request upTo} (s : b.Sent peer request upTo) : a.Sent peer request upTo :=
    sent_append eq (fun effect mem => (aside effect mem).1) s
  refine ⟨fun _ => leader, ?_, ?_, ?_, ?_⟩
  case refine_1 => exact fun peer request upTo s => (h.past peer request upTo (before s)).trans term
  case refine_2 => simp [role]
  case refine_3 | refine_4 => simp [leader]

-- Only what is kept for one peer changes.
theorem Booked.note (h : Booked events a) {f : LeaderState → LeaderState}
    (credit : ∀ ls, a.leader = some ls → ∀ peer, Credit events a (f ls) peer) :
    Booked events (a.onLeader f) where
  idle role := by simp [onLeader, h.idle role]
  past      := h.past
  fresh     := h.fresh
  own leads := h.own (by simpa [onLeader] using leads)
  credit    := by
    intro ls leads peer
    obtain ⟨ls', leads', eq⟩ := Option.map_eq_some_iff.mp leads
    have c := credit ls' leads' peer
    rw [eq] at c
    exact ⟨c.acknowledged, c.held, c.next, c.above⟩

-- The indices are not touched.
theorem Booked.note_same (h : Booked events a) {f : LeaderState → LeaderState}
    (matched : ∀ ls, (f ls).matchIndex = ls.matchIndex) (next : ∀ ls, (f ls).nextIndex = ls.nextIndex) :
    Booked events (a.onLeader f) :=
  h.note fun ls leads peer => (h.credit ls leads peer).onto (by rw [matchFor, matched, matchFor])
    (by rw [nextFor, next, nextFor]) rfl le_rfl fun _ _ => id

theorem request_term {term : Nat} (answers : e.answers peer request upTo)
    (acknowledged : e.acknowledges term peer upTo) : request.term = term := by
  cases e
  case tick => exact answers.elim
  case message msg =>
    cases msg
    case appendReply p r u resp =>
      obtain ⟨rfl, rfl, rfl⟩ := answers
      cases resp
      case none => exact acknowledged.elim
      case some => exact acknowledged.2.2.1
    case snapshotReply p r u resp =>
      obtain ⟨rfl, rfl, rfl⟩ := answers
      cases resp
      case none => exact acknowledged.elim
      case some => exact acknowledged.2.2.1
    all_goals exact answers.elim

-- An acknowledgement credits what was sent in this leadership.
theorem Booked.advance (h : Booked events a) (sent : a.Sent peer request upTo) (member : e ∈ events)
    (answers : e.answers peer request upTo) (acknowledged : e.acknowledges a.currentTerm peer upTo) :
    Booked events (a.onLeader (advanced peer upTo)) := by
  refine h.note fun ls leads p => ?_
  have c := h.credit ls leads p
  by_cases other : peer = p
  case neg =>
    exact c.onto (by simp [matchFor, advanced, other]) (by simp [nextFor, advanced, other]) rfl le_rfl
      fun _ _ => id
  case pos =>
    subst other
    have matched : matchFor (advanced peer upTo ls) peer = max (matchFor ls peer) upTo := by
      simp [matchFor, advanced]
    have next : nextFor (advanced peer upTo ls) peer =
        U64.saturatingAdd (max (matchFor ls peer) upTo) 1 := by
      simp [nextFor, matchFor, advanced]
    have ⟨lately, held⟩ := h.own (by simp [leads]) peer request upTo sent
      (request_term answers acknowledged)
    have bound : max (matchFor ls peer) upTo ≤ a.snapshotIndex + a.log.length :=
      Nat.max_le.mpr ⟨c.held, held⟩
    refine ⟨?_, matched ▸ bound, ?_, fun room => ?_⟩
    case refine_1 =>
      rw [matched]
      rcases Nat.le_total upTo (matchFor ls peer) with le | le
      case inl =>
        rw [Nat.max_eq_left le]
        exact c.acknowledged
      case inr =>
        rw [Nat.max_eq_right le]
        exact .inr ⟨request, lately, e, member, answers, acknowledged⟩
    case refine_2 =>
      rw [next]
      exact (saturatingAdd_le _ _).trans (Nat.succ_le_succ bound)
    case refine_3 =>
      rw [matched, next]
      exact lt_saturatingAdd_one (bound.trans_lt (last_lt_max room))

-- A rewind stays above what was acknowledged.
theorem Booked.rewind (h : Booked events a) (peer : String) (hint : Nat) :
    Booked events (a.onLeader (rewound peer hint)) := by
  refine h.note fun ls leads p => ?_
  have c := h.credit ls leads p
  have matched : matchFor (rewound peer hint ls) p = matchFor ls p := rfl
  by_cases other : peer = p
  case neg => exact c.onto matched (by simp [nextFor, rewound, other]) rfl le_rfl fun _ _ => id
  case pos =>
    subst other
    have next : nextFor (rewound peer hint ls) peer = max
        (min (U64.saturatingAdd hint 1) (nextFor ls peer - 1))
        (U64.saturatingAdd (matchFor ls peer) 1) := by
      simp [nextFor, matchFor, rewound]
    refine ⟨matched ▸ c.acknowledged, matched ▸ c.held, ?_, fun room => ?_⟩
    case refine_1 =>
      rw [next]
      refine Nat.max_le.mpr ⟨?_, (saturatingAdd_le _ _).trans (Nat.succ_le_succ c.held)⟩
      exact (Nat.min_le_right _ _).trans ((Nat.sub_le _ _).trans c.next)
    case refine_2 =>
      rw [matched, next]
      have := lt_saturatingAdd_one (c.held.trans_lt (last_lt_max room))
      exact this.trans_le (Nat.le_max_right _ _)

theorem initial_indices (peer : String) :
    matchFor a.initialLeaderState peer = 0 ∧
    (nextFor a.initialLeaderState peer = a.lastLogIndex + 1 ∨ nextFor a.initialLeaderState peer = 1) := by
  simp only [matchFor, nextFor, initialLeaderState, HashMap.get_foldl_insert]
  split
  case isTrue => exact ⟨rfl, .inl rfl⟩
  case isFalse => exact ⟨by simp, .inr (by simp)⟩

-- Nothing has been sent in the term of a candidate.
theorem Booked.lead (h : Booked events a) (candidate : a.role = .candidate) :
    Booked events (emit { a with
      role := .leader, leaderId := some a.nodeId, votes := ∅, leader := some a.initialLeaderState
    } (.becameLeader a.currentTerm)) := by
  set b := emit { a with
      role := .leader, leaderId := some a.nodeId, votes := ∅, leader := some a.initialLeaderState
    } (.becameLeader a.currentTerm) with hb
  have before {peer request upTo} (s : b.Sent peer request upTo) : a.Sent peer request upTo :=
    have out : b.out = a.out ++ [.becameLeader a.currentTerm] := rfl
    sent_append out (by simp [Effect.sent?]) s
  refine ⟨by simp [hb, emit], fun peer request upTo s => h.past peer request upTo (before s),
    by simp [hb, emit], ?_, ?_⟩
  case refine_1 =>
    intro _ peer request upTo s term
    have := h.fresh candidate peer request upTo (before s)
    have : request.term = a.currentTerm := term
    omega
  case refine_2 =>
    intro ls leads peer
    obtain rfl : a.initialLeaderState = ls := Option.some.inj leads
    obtain ⟨matched, next⟩ := initial_indices (a := a) peer
    have last : a.lastLogIndex ≤ a.snapshotIndex + a.log.length := lastLogIndex_le
    refine ⟨.inl matched, matched ▸ Nat.zero_le _, ?_, fun _ => ?_⟩
    case refine_1 =>
      simp only [hb, emit]
      omega
    case refine_2 => omega

theorem Booked.elects (h : Booked events a) (elects : Elects a b)
    (role : b.role = a.role ∨ a.role ≠ .leader ∧ b.role = .follower)
    (term : b.currentTerm = a.currentTerm) (leader : b.leader = a.leader) : Booked events b := by
  have adds : Adds a b := .of_eq (by rw [elects])
  have snapshot : b.snapshotIndex = a.snapshotIndex := congrArg Replica.snapshotIndex elects.replica
  have log : b.log = a.log := congrArg Replica.log elects.replica
  rcases role with role | ⟨unled, role⟩
  case inl => exact h.onto adds ⟨role, term, leader, fun _ => by rw [snapshot, log]⟩
  case inr => exact h.retire adds role (leader.trans (h.idle unled)) term.ge

variable [StateMachine σ] [PeerPlane]

theorem shipment_sent (a : ShardActor σ) (ls : LeaderState) (peer : String) (sequence : Nat)
    (next : nextFor ls peer ≤ a.snapshotIndex + a.log.length + 1) :
    ∃ upTo, (a.shipment ls peer sequence).sent? =
      some (peer, ⟨a.currentTerm, sequence, a.now⟩, upTo) ∧ upTo ≤ a.snapshotIndex + a.log.length := by
  simp only [shipment]
  split
  case isTrue => exact ⟨_, rfl, Nat.le_add_right _ _⟩
  case isFalse held =>
    refine ⟨_, rfl, (saturatingAdd_le _ _).trans ?_⟩
    generalize ls.peerCommandProtocol[peer]?.getD Command.legacyCommandProtocol = protocol
    obtain ⟨n, eq⟩ := appendEntriesReq_entries a (nextFor ls peer - 1) protocol
    have length : (a.appendEntriesReq (nextFor ls peer - 1) protocol).entries.length ≤
        a.log.length - (nextFor ls peer - 1 - a.snapshotIndex) := by
      rw [eq]
      have sub := (List.take_sublist n _).trans (List.takeWhile_sublist
        (l := a.log.drop (nextFor ls peer - 1 - a.snapshotIndex)) fun entry => entry.command.all
          fun command => command.requiredProtocol ≤ protocol ||
            command.requiredProtocol ≤ a.commandProtocol)
      exact sub.length_le.trans (List.length_drop ..).le
    omega

theorem Booked.send (h : Booked events a) (leads : a.leader = some ls) (peer : String)
    (sequence : Nat) :
    Booked events (emit (a.requesting ls peer sequence) (a.shipment ls peer sequence)) := by
  have ⟨upTo, sent, held⟩ := shipment_sent a ls peer sequence (h.credit ls leads peer).next
  set b := emit (a.requesting ls peer sequence) (a.shipment ls peer sequence) with hb
  have role : b.role = a.role := rfl
  have before {p r u} (s : b.Sent p r u) : a.Sent p r u ∨
      (p = peer ∧ r = ⟨a.currentTerm, sequence, a.now⟩ ∧ u = upTo) := by
    have ⟨effect, mem, eq⟩ := s
    rcases List.mem_append.mp mem with mem | mem
    case inl => exact .inl ⟨effect, mem, eq⟩
    case inr =>
      rw [List.mem_singleton.mp mem, sent] at eq
      simp only [Option.some.injEq, Prod.mk.injEq] at eq
      exact .inr ⟨eq.1.symm, eq.2.1.symm, eq.2.2.symm⟩
  have unled : (a.shipment ls peer sequence).leads = false := by
    simp only [shipment]
    split <;> rfl
  have lately {p r u} (s : a.SentLately p r u) : b.SentLately p r u :=
    have out : b.out = a.out ++ [a.shipment ls peer sequence] := rfl
    s.append out fun effect mem => by rw [List.mem_singleton.mp mem]; exact unled
  have leader : a.role = .leader := by
    by_contra other
    simp [h.idle other] at leads
  refine ⟨fun other => absurd leader other, ?_, by simp [role, leader], ?_, ?_⟩
  case refine_1 =>
    intro p r u s
    rcases before s with s | ⟨_, rfl, _⟩
    case inl => exact h.past p r u s
    case inr => exact le_rfl
  case refine_2 =>
    intro _ p r u s term
    rcases before s with s | ⟨rfl, rfl, rfl⟩
    case inl =>
      obtain ⟨s, held⟩ := h.own (by simp [leads]) p r u s term
      exact ⟨lately s, held⟩
    case inr => exact ⟨⟨a.out, _, [], rfl, sent, by simp⟩, held⟩
  case refine_3 =>
    intro ls' leads' p
    have eq : { ls with
      requestSequence := sequence
      pendingRequests := ls.pendingRequests.insert peer ⟨a.currentTerm, sequence, a.now⟩
      inFlight        := ls.inFlight.insert peer true
    } = ls' := Option.some.inj leads'
    subst eq
    exact (h.credit ls leads p).onto rfl rfl rfl le_rfl fun _ _ => lately

theorem Booked.move (h : Booked events a) (m : Move e start a b)
    (faithful : ∀ peer request upTo, e.answers peer request upTo → start.Expects peer request →
      e ∈ events ∧ a.Sent peer request upTo) : Booked events b := by
  have adds := m.adds
  rcases adds with adds | ⟨candidate, rfl⟩ | ⟨ls, peer, leads, rfl⟩
  case inr.inl => exact h.lead candidate
  case inr.inr => exact h.send leads peer _
  case inl =>
    have still (role : b.role = a.role) (term : b.currentTerm = a.currentTerm)
        (leader : b.leader = a.leader) (last : a.leader.isSome →
          a.snapshotIndex + a.log.length ≤ b.snapshotIndex + b.log.length) : Booked events b :=
      h.onto adds ⟨role, term, leader, last⟩
    have follower (role : a.role = .follower) : a.leader.isSome = false := by
      simp [h.idle (by simp [role])]
    cases m
    case resign fault =>
      have halted : (a.stepDown a.currentTerm none).Halted := stepDown_halted le_rfl fault
      exact h.retire adds halted.follower halted.leader (stepDown_term le_rfl).ge
    case poll elects role term leader => exact h.elects elects role term leader
    case withdraw elects role term leader => exact h.retire adds role leader term
    case campaign free elects role term leader =>
      have idle := leader.trans (h.idle free)
      have ⟨effects, eq, aside⟩ := adds
      have past {peer request upTo} (s : b.Sent peer request upTo) : request.term ≤ a.currentTerm :=
        h.past peer request upTo (sent_append eq (fun effect mem => (aside effect mem).1) s)
      refine ⟨fun _ => idle, ?_, ?_, by simp [idle], by simp [idle]⟩
      case refine_1 => exact fun peer request upTo s => (past s).trans (by omega)
      case refine_2 => exact fun _ peer request upTo s => (past s).trans_lt (by omega)
    case lead candidate => exact h.lead candidate
    case save op saved =>
      obtain ⟨_, _, rfl⟩ := onStore_eq saved
      exact still rfl rfl rfl fun _ => le_rfl
    case fail failed _ =>
      obtain ⟨_, _, rfl⟩ := onStore_eq failed
      exact h.retire adds rfl rfl le_rfl
    case stop => exact h.retire adds rfl rfl le_rfl
    case extend => exact still rfl rfl rfl fun _ => nextLog_length
    case merge admits _ _ _ => exact still rfl rfl rfl fun leads => by simp [follower admits.follower] at leads
    case install installs =>
      exact still rfl rfl rfl fun leads => by simp [follower installs.follower] at leads
    case apply completed entry _ _ =>
      have ⟨pending, out, eq, _⟩ := applyEntry_eq (a := a) completed (a.lastApplied + 1) entry
      rw [eq] at adds ⊢
      exact h.onto adds ⟨rfl, rfl, rfl, fun _ => le_rfl⟩
    case compact newer =>
      exact still rfl rfl rfl fun _ => by simp only [List.length_drop]; omega
    case send ls leads peer _ => exact h.send leads peer _
    case callback | land | contact | advertise => exact h.note_same (fun _ => rfl) fun _ => rfl
    case advance peer request upTo answers acknowledged expected _ =>
      have ⟨member, sent⟩ := faithful peer request upTo answers expected
      exact h.advance sent member answers acknowledged
    case rewind peer hint => exact h.rewind peer hint
    all_goals exact still rfl rfl rfl fun _ => le_rfl

end Booked

section Run

theorem not_sent_disk (steps : List DiskStep) (h : a.out = steps.map .disk) :
    ¬a.Sent peer request upTo := by
  intro ⟨effect, mem, sent⟩
  rw [h] at mem
  obtain ⟨_, _, rfl⟩ := List.mem_map.mp mem
  contradiction

theorem initial_booked (b : Boot) (store : ShardStore) (r : Recovered) (state : σ) :
    Booked [] (initial b store r state) where
  idle unled           := by
    cases h : b.peers.isEmpty
    case false => simp [initial, h]
    case true => simp [initial, h] at unled
  past _ _ _ s         := absurd s (not_sent_disk [] rfl)
  fresh _ _ _ _ s      := absurd s (not_sent_disk [] rfl)
  own _ _ _ _ s        := absurd s (not_sent_disk [] rfl)
  credit ls leads peer := by
    have : LeaderState.empty = ls := by
      simp only [initial] at leads
      split at leads
      case isTrue => exact Option.some.inj leads
      case isFalse => contradiction
    subst this
    have matched : matchFor .empty peer = 0 := by simp [matchFor, LeaderState.empty]
    have next : nextFor .empty peer = 1 := by simp [nextFor, LeaderState.empty]
    exact ⟨.inl matched, matched ▸ Nat.zero_le _, next ▸ Nat.succ_le_succ (Nat.zero_le _), by omega⟩

-- The effects of opening the store come before all others.
theorem Booked.opened (h : Booked events a) (steps : List DiskStep) :
    Booked events { a with out := steps.map .disk ++ a.out } := by
  set b : ShardActor σ := { a with out := steps.map .disk ++ a.out } with hb
  have before {peer request upTo} (s : b.Sent peer request upTo) : a.Sent peer request upTo := by
    have ⟨effect, mem, sent⟩ := s
    rcases List.mem_append.mp mem with mem | mem
    case inl =>
      obtain ⟨_, _, rfl⟩ := List.mem_map.mp mem
      contradiction
    case inr => exact ⟨effect, mem, sent⟩
  have lately {peer request upTo} (s : a.SentLately peer request upTo) :
      b.SentLately peer request upTo := by
    have ⟨before, effect, after, eq, sent, unled⟩ := s
    exact ⟨steps.map .disk ++ before, effect, after, by simp [hb, eq], sent, unled⟩
  refine ⟨h.idle, fun peer request upTo s => h.past peer request upTo (before s),
    fun role peer request upTo s => h.fresh role peer request upTo (before s), ?_, ?_⟩
  case refine_1 =>
    intro leads peer request upTo s term
    have ⟨s, held⟩ := h.own leads peer request upTo (before s) term
    exact ⟨lately s, held⟩
  case refine_2 =>
    exact fun ls leads peer => (h.credit ls leads peer).onto rfl rfl rfl le_rfl fun _ _ => lately

theorem Booked.arrives (h : Booked events a) (env : Env) (e : Event) :
    Booked (e :: events) (a.observe env) where
  idle   := h.idle
  past   := h.past
  fresh  := h.fresh
  own    := h.own
  credit := by
    intro ls leads peer
    have c := h.credit ls leads peer
    refine ⟨?_, c.held, c.next, c.above⟩
    rcases c.acknowledged with zero | ⟨request, lately, e', member, acked⟩
    case inl => exact .inl zero
    case inr => exact .inr ⟨request, lately, e', List.mem_cons_of_mem _ member, acked⟩

-- The actor is past the term, or it still leads the term and what it credits its peers with has only
-- grown.
def Risen (term : Nat) (ls : LeaderState) (a : ShardActor σ) : Prop :=
  term ≤ a.currentTerm ∧ (a.currentTerm = term → a.role ≠ .candidate ∧
    ∀ ls', a.leader = some ls' → ∀ peer, matchFor ls peer ≤ matchFor ls' peer)

theorem Risen.same {term : Nat} (h : Risen term ls a) (role : b.role = a.role ∨ b.role = .follower)
    (same : b.currentTerm = a.currentTerm) (leader : b.leader = a.leader) : Risen term ls b := by
  refine ⟨same ▸ h.1, fun eq => ?_⟩
  have ⟨free, rises⟩ := h.2 (same ▸ eq)
  refine ⟨?_, leader ▸ rises⟩
  rcases role with role | role
  case inl => exact role ▸ free
  case inr => simp [role]

theorem Risen.retire {term : Nat} (h : Risen term ls a) (role : b.role = .follower)
    (later : a.currentTerm ≤ b.currentTerm) (leader : b.leader = none) : Risen term ls b :=
  ⟨h.1.trans later, fun _ => ⟨by simp [role], by simp [leader]⟩⟩

theorem Risen.note {term : Nat} (h : Risen term ls a) {f : LeaderState → LeaderState}
    (grows : ∀ ls peer, matchFor ls peer ≤ matchFor (f ls) peer) : Risen term ls (a.onLeader f) := by
  refine ⟨h.1, fun eq => ⟨(h.2 eq).1, fun ls' leads peer => ?_⟩⟩
  have ⟨ls'', leads', eq'⟩ := Option.map_eq_some_iff.mp leads
  rw [← eq']
  exact ((h.2 eq).2 ls'' leads' peer).trans (grows ls'' peer)

variable [StateMachine σ] [PeerPlane] {commands commands' : List Command} {disk : Disk → Prop}

omit [PeerPlane] in
theorem quarantined_booked (b : Boot) (reason : String) (steps : List DiskStep) :
    Booked [] ({ quarantined b reason with out := steps.map .disk } : ShardActor σ) where
  idle _       := rfl
  past _ _ _ s := absurd s (not_sent_disk steps rfl)
  fresh h      := nomatch h
  own h        := nomatch h
  credit _ h   := nomatch h

theorem Trace.booked (trace : Trace disk Faithful commands events a) : Booked events a := by
  refine trace.induct (P := Booked) (.message (.queryLocal .serviceList 0)) ?_ ?_ ?_ ?_ ?_ ?_
  case refine_1 => exact quarantined_booked
  case refine_2 => exact fun b d r store state _ _ => initial_booked b store r state
  case refine_3 => exact fun start a b m h => h.move m fun _ _ _ answers => answers.elim
  case refine_4 => exact fun a steps h => h.opened steps
  case refine_5 => exact fun events a env e _ h => h.arrives env e
  case refine_6 =>
    intro events e start a b faithful _ onward m h
    exact h.move m fun peer request upTo answers expected =>
      ⟨List.mem_cons_self, onward.sent (faithful peer request upTo answers expected)⟩

theorem Move.risen {term : Nat} (m : Move e start a b) (h : Risen term ls a) : Risen term ls b := by
  cases m
  case resign fault =>
    have halted : (a.stepDown a.currentTerm none).Halted := stepDown_halted le_rfl fault
    exact h.retire halted.follower (stepDown_term le_rfl).ge halted.leader
  case poll role same leader => exact h.same (role.imp_right (·.2)) same leader
  case withdraw role later leader => exact h.retire role later leader
  case campaign next _ =>
    have := h.1
    exact ⟨by omega, fun eq => by omega⟩
  case lead candidate => exact ⟨h.1, fun eq => absurd candidate (h.2 eq).1⟩
  case save saved =>
    obtain ⟨_, _, rfl⟩ := onStore_eq saved
    exact h.same (.inl rfl) rfl rfl
  case fail failed _ =>
    obtain ⟨_, _, rfl⟩ := onStore_eq failed
    exact h.retire rfl le_rfl rfl
  case stop => exact h.retire rfl le_rfl rfl
  case apply completed entry _ _ =>
    have ⟨pending, out, eq, _⟩ := applyEntry_eq (a := a) completed (a.lastApplied + 1) entry
    rw [eq]
    exact h.same (.inl rfl) rfl rfl
  case send ls' leads peer _ =>
    refine ⟨h.1, fun eq => ⟨(h.2 eq).1, fun ls'' leads' p => ?_⟩⟩
    have := (h.2 eq).2 ls' leads p
    rw [← Option.some.inj leads']
    exact this
  case advance peer request upTo _ _ _ _ =>
    refine h.note fun ls p => ?_
    by_cases other : peer = p <;> simp [matchFor, advanced, other]
  case callback | land | contact | advertise | rewind => exact h.note fun _ _ => le_rfl
  all_goals exact h.same (.inl rfl) rfl rfl

theorem Moves.risen {term : Nat} (m : Moves e start a b) (h : Risen term ls a) : Risen term ls b := by
  induction m
  case refl => exact h
  case tail m ih => exact m.risen ih

theorem Onward.risen {term : Nat} (onward : Onward commands a commands' b) (run : Run commands a)
    (h : Risen term ls a) : Risen term ls b := by
  induction onward
  case refl => exact h
  case event onward env e _ ih =>
    exact ((run.onward onward).moves env e).risen (ih.same (.inl rfl) rfl rfl)
  case propose onward env command ih =>
    exact ((run.onward onward).moves env _).risen (ih.same (.inl rfl) rfl rfl)

-- A callback that nobody waits for is dropped, or it tells of a newer term.
theorem dispatch_unexpected (answers : e.answers peer request upTo)
    (unexpected : ¬a.Expects peer request) :
    (a.dispatch e).1 = a ∨ ∃ term, e.responseTerm = some term ∧ a.currentTerm < term ∧
      (a.dispatch e).1 = a.stepDown term none := by
  have accept (responseTerm : Option Nat) :
      (a.acceptReplicationCallback peer request responseTerm).2 = false ∧
      ((a.acceptReplicationCallback peer request responseTerm).1 = a ∨
        ∃ term, responseTerm = some term ∧ a.currentTerm < term ∧
          (a.acceptReplicationCallback peer request responseTerm).1 = a.stepDown term none) := by
    have ⟨_, expected⟩ : Stages e a a _ ∧ _ := stages_acceptReplicationCallback peer request responseTerm
    simp only [acceptReplicationCallback] at expected ⊢
    split
    case isTrue => exact ⟨rfl, .inl rfl⟩
    case isFalse h =>
      rw [if_neg h] at expected
      split
      case h_1 term higher =>
        obtain ⟨eq, lt⟩ := classifyCallback_higherTerm higher
        exact ⟨rfl, .inr ⟨term, eq, lt, rfl⟩⟩
      case h_2 => exact ⟨rfl, .inl rfl⟩
      case h_3 current =>
        rw [current] at expected
        exact absurd (expected rfl).2 unexpected
  cases e
  case tick => exact answers.elim
  case message msg =>
    cases msg
    case appendReply p r u resp =>
      obtain ⟨rfl, rfl, rfl⟩ := answers
      obtain ⟨rejected, result⟩ := accept (resp.map (·.term))
      simp only [dispatch, handle, rejected, Bool.false_eq_true, if_false]
      exact result
    case snapshotReply p r u resp =>
      obtain ⟨rfl, rfl, rfl⟩ := answers
      obtain ⟨rejected, result⟩ := accept (resp.map (·.term))
      simp only [dispatch, handle, rejected, Bool.false_eq_true, if_false]
      exact result
    all_goals exact answers.elim

-- What a leader credits a peer with is what the peer acknowledged in this leadership and only grows,
-- and the next index is above it as long as there are any left. All other callbacks change nothing,
-- unless they tell of a newer term.
theorem Trace.callbacks (trace : Trace disk Faithful commands events a) :
    (∀ ls, a.leader = some ls → ∀ peer,
      (matchFor ls peer = 0 ∨ ∃ request, a.SentLately peer request (matchFor ls peer) ∧
        ∃ e ∈ events, e.answers peer request (matchFor ls peer) ∧
          e.acknowledges a.currentTerm peer (matchFor ls peer)) ∧
      (a.lastLogIndex < U64.max → matchFor ls peer < nextFor ls peer)) ∧
    (∀ commands' b ls ls', Onward commands a commands' b → a.leader = some ls →
      b.currentTerm = a.currentTerm → b.leader = some ls' →
      ∀ peer, matchFor ls peer ≤ matchFor ls' peer) ∧
    (∀ env (e : Event) peer request upTo, e.answers peer request upTo →
      ¬(a.observe env).Expects peer request →
      ((a.observe env).dispatch e).1 = a.observe env ∨
      ∃ term, e.responseTerm = some term ∧ a.currentTerm < term ∧
        ((a.observe env).dispatch e).1 = (a.observe env).stepDown term none) := by
  refine ⟨fun ls leads peer => ?_, fun commands' b ls ls' onward leads term leads' => ?_, ?_⟩
  case refine_1 =>
    have c := trace.booked.credit ls leads peer
    exact ⟨c.acknowledged, c.above⟩
  case refine_2 =>
    have leader : a.role = .leader := by
      by_contra other
      simp [trace.booked.idle other] at leads
    have risen : Risen a.currentTerm ls a := by
      refine ⟨le_rfl, fun _ => ⟨by simp [leader], fun ls' leads' peer => ?_⟩⟩
      rw [leads] at leads'
      rw [Option.some.inj leads']
    exact ((onward.risen trace.run risen).2 term).2 ls' leads'
  case refine_3 => exact fun env e peer request upTo => dispatch_unexpected

end Run

-- The member of a pair is elected and its first entry acknowledged.
section Pair

def after (a : ShardActor Tally) (now : Instant) (e : Event) : ShardActor Tally :=
  letI := PeerPlane.fixed
  ((a.observe ⟨now, 0, []⟩).dispatch e).1

def elected (a : ShardActor Tally) : ShardActor Tally :=
  let a := after a 1000 .tick
  let a := after a 1000 (.message (.voteReply "b" true { term := 1, granted := true }))
  after a 1000 (.message (.voteReply "b" false { term := 2, granted := true }))

def firstAck (upTo : Nat) : Event :=
  .message (.appendReply "b" ⟨2, 1, 1000⟩ upTo (some {
    term := 2, success := true, matchIndex := upTo, commandProtocol := Command.currentCommandProtocol
  }))

theorem acknowledged_trace {a : ShardActor Tally} {events : List Event} (upTo : Nat)
    (trace : letI := PeerPlane.fixed; Trace (fun _ => True) Faithful [] events a)
    (sent : (elected a).Sent "b" ⟨2, 1, 1000⟩ upTo) :
    letI := PeerPlane.fixed
    ∃ events, Trace (fun _ => True) Faithful [] events (after (elected a) 1000 (firstAck upTo)) := by
  let := PeerPlane.fixed
  have step {a : ShardActor Tally} {events : List Event}
      (trace : Trace (fun _ => True) Faithful [] events a) (e : Event)
      (quiet : ∀ command client, e ≠ .message (.propose command client)) (faithful :
        Faithful (a.observe ⟨1000, 0, []⟩) e) :
      Trace (fun _ => True) Faithful [] (e :: events) (after a 1000 e) :=
    .event trace ⟨1000, 0, []⟩ e quiet faithful
  have trace := step trace .tick (by simp) fun _ _ _ answers => answers.elim
  have trace := step trace (.message (.voteReply "b" true { term := 1, granted := true })) (by simp)
    fun _ _ _ answers => answers.elim
  have trace := step trace (.message (.voteReply "b" false { term := 2, granted := true })) (by simp)
    fun _ _ _ answers => answers.elim
  refine ⟨_, step trace (firstAck upTo) (by simp [firstAck]) fun peer request u answers _ => ?_⟩
  obtain ⟨rfl, rfl, rfl⟩ := answers
  exact sent

-- A snapshot that leaves room for one more index.
def lastButOne : InstallSnapshotReq where
  term              := 1
  leaderId          := "b"
  lastIncludedIndex := U64.max - 1
  lastIncludedTerm  := 1
  state             := []

def atLastButOne : ShardActor Tally :=
  after (boot pair .empty []) 0 (.message (.installSnapshot lastButOne))

theorem indices_saturated :
    letI := PeerPlane.fixed
    ∃ events a ls, Trace (fun _ => True) Faithful [] events (a : ShardActor Tally) ∧
      a.leader = some ls ∧ matchFor ls "b" = U64.max ∧ nextFor ls "b" = U64.max := by
  let := PeerPlane.fixed
  have trace : Trace (fun _ => True) Faithful [] [.message (.installSnapshot lastButOne)] atLastButOne :=
    .event (.boot pair .empty [] trivial) ⟨0, 0, []⟩ _ (by simp) fun _ _ _ answers => answers.elim
  have sent : (elected atLastButOne).out.any (·.sent? = some ("b", ⟨2, 1, 1000⟩, U64.max)) := by
    decide +kernel
  have ⟨events, trace⟩ := acknowledged_trace U64.max trace (by simpa [Sent] using sent)
  have indices : (after (elected atLastButOne) 1000 (firstAck U64.max)).leader.map
      (fun ls => (matchFor ls "b", nextFor ls "b")) = some (U64.max, U64.max) := by decide +kernel
  have ⟨ls, leads, eq⟩ := Option.map_eq_some_iff.mp indices
  exact ⟨events, _, ls, trace, leads, congrArg Prod.fst eq, congrArg Prod.snd eq⟩

theorem first_credited :
    letI := PeerPlane.fixed
    ∃ events a ls, Trace (fun _ => True) Faithful [] events (a : ShardActor Tally) ∧
      a.leader = some ls ∧ matchFor ls "b" = 1 ∧ matchFor ls "b" < nextFor ls "b" := by
  let := PeerPlane.fixed
  have trace : Trace (fun _ => True) Faithful [] [] (boot pair .empty [] : ShardActor Tally) :=
    .boot pair .empty [] trivial
  have sent : (elected (boot pair .empty [])).out.any (·.sent? = some ("b", ⟨2, 1, 1000⟩, 1)) := by
    decide +kernel
  have ⟨events, trace⟩ := acknowledged_trace 1 trace (by simpa [Sent] using sent)
  have last : (after (elected (boot pair .empty [])) 1000 (firstAck 1)).lastLogIndex < U64.max := by
    decide +kernel
  have matched : (after (elected (boot pair .empty [])) 1000 (firstAck 1)).leader.map
      (fun ls => matchFor ls "b") = some 1 := by decide +kernel
  have ⟨ls, leads, eq⟩ := Option.map_eq_some_iff.mp matched
  exact ⟨events, _, ls, trace, leads, eq, (trace.callbacks.1 ls leads "b").2 last⟩

end Pair

end ShardActor
