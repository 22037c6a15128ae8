import FiduciaNode.Consensus.Theorems.Exchange.Follower

namespace ShardActor

variable {σ : Type} [StateMachine σ] {a b : ShardActor σ} {ll : List LogEntry} {term next : Nat}
  {peer : String} {ls : LeaderState}

-- A leader of the term with the log, all of which can be sent to a peer of the same build.
structure Drives (a : ShardActor σ) (ll : List LogEntry) (term : Nat) (peer : String) (ls : LeaderState) :
    Prop where
  alive    : a.storageFault = none
  role     : a.role = .leader
  leads    : a.leader = some ls
  term     : a.currentTerm = term
  member   : peer ∈ a.peers
  carries  : a.Carries ll
  sendable : ∀ entry ∈ a.log, ∀ command ∈ entry.command,
    command.requiredProtocol ≤ a.commandProtocol ∨
    command.requiredProtocol ≤ Command.currentCommandProtocol ∧
      command.requiredProtocol ≤ ls.peerCommandProtocol[peer]?.getD Command.legacyCommandProtocol

-- The effect is a request to the peer from its next index on, by a leader with a snapshot at the given
-- index.
inductive Ships (σ : Type) [StateMachine σ] (ll : List LogEntry) (term snapshot next : Nat) (peer : String)
    (request : RequestStamp) : Effect → Prop
  | append (req : AppendEntriesReq) (slice : req.SliceOf ll) (current : req.term = term)
    (prev : req.prevLogIndex = next - 1) (more : next ≤ ll.length → req.entries ≠ []) :
    Ships σ ll term snapshot next peer request
      (.appendEntries peer request (next - 1 + req.entries.length) req)
  | install (req : InstallSnapshotReq) (current : req.term = term) (newer : next ≤ req.lastIncludedIndex)
    (covered : req.lastIncludedIndex ≤ snapshot) (last : req.lastIncludedIndex ≤ ll.length)
    (lastTerm : req.lastIncludedTerm = Raft.termAt ll req.lastIncludedIndex)
    (restores : StateMachine.restore req.state = .ok (replay (ll.take req.lastIncludedIndex) : σ)) :
    Ships σ ll term snapshot next peer request (.installSnapshot peer request req.lastIncludedIndex req)

-- The leader waits for the answer to a request.
structure Waits (a : ShardActor σ) (ll : List LogEntry) (term : Nat) (peer : String) (ls : LeaderState)
    (request : RequestStamp) (effect : Effect) : Prop where
  outstanding : a.outstanding peer = some effect
  ships       : Ships σ ll term a.snapshotIndex (nextFor ls peer) peer request effect
  pending     : ls.pendingRequests[peer]? = some request
  current     : request.term = term
  past        : request.sentAt ≤ a.now

-- Either the leader waits or it is free to send.
def Ready (a : ShardActor σ) (ll : List LogEntry) (term : Nat) (peer : String) (ls : LeaderState) : Prop :=
  ls.inFlight[peer]?.getD false = false ∨ ∃ request effect, a.Waits ll term peer ls request effect

section Send

omit [StateMachine σ] in
theorem resign_follower (leader : Option String) : (a.stepDown a.currentTerm leader).role = .follower := by
  rw [stepDown_eq le_rfl]
  split
  case h_1 => rfl
  case h_2 b h =>
    have := congrArg (·.1.role) h
    simp only [persistHardState, persistHardStateAt] at this
    rw [onStore_frame] at this
    exact this.symm

omit [StateMachine σ] in
theorem outstanding_emit {effect : Effect} {request : RequestStamp} {upTo : Nat}
    (h : effect.sent? = some (peer, request, upTo)) : (a.emit effect).outstanding peer = some effect := by
  rw [outstanding, emit, List.reverse_append]
  simp [h]

theorem Ships.sent {snapshot : Nat} {request : RequestStamp} {effect : Effect}
    (h : Ships σ ll term snapshot next peer request effect) :
    ∃ upTo, effect.sent? = some (peer, request, upTo) := by
  cases h
  case append req _ _ _ _ => exact ⟨_, rfl⟩
  case install req _ _ _ _ _ _ => exact ⟨_, rfl⟩

omit [StateMachine σ] in
theorem lastLogIndex_congr (r : b.replica = a.replica) : b.lastLogIndex = a.lastLogIndex := by
  injection r with hs _ _ hl
  rw [lastLogIndex, hs, hl, lastLogIndex]

variable [PeerPlane]

theorem Drives.appendEntriesReq_slice (d : Drives a ll term peer ls) (h : a.snapshotIndex < nextFor ls peer)
    (le : nextFor ls peer ≤ ll.length + 1) :
    ∃ req, a.appendEntriesReq (nextFor ls peer - 1)
        (ls.peerCommandProtocol[peer]?.getD Command.legacyCommandProtocol) = req ∧
      req.SliceOf ll ∧ req.term = term ∧ req.prevLogIndex = nextFor ls peer - 1 ∧
      (nextFor ls peer ≤ ll.length → req.entries ≠ []) := by
  have sendable : appendableProtocolPrefix (a.log.drop (nextFor ls peer - 1 - a.snapshotIndex))
      (ls.peerCommandProtocol[peer]?.getD Command.legacyCommandProtocol) a.commandProtocol =
      ll.drop (nextFor ls peer - 1) := by
    rw [d.carries.holds.log, List.drop_drop, show a.snapshotIndex + (nextFor ls peer - 1 - a.snapshotIndex) =
      nextFor ls peer - 1 by omega]
    refine List.takeWhile_eq_self_iff.mpr fun entry mem => ?_
    cases hc : entry.command
    case none => rfl
    case some command =>
      have mem : entry ∈ a.log := by
        rw [d.carries.holds.log]
        have : ll.drop (nextFor ls peer - 1) =
            (ll.drop a.snapshotIndex).drop (nextFor ls peer - 1 - a.snapshotIndex) := by
          rw [List.drop_drop]
          congr 1
          omega
        exact List.mem_of_mem_drop (this ▸ mem)
      have := d.sendable entry mem command hc
      simp only [Option.all_some, Bool.or_eq_true, decide_eq_true_eq]
      omega
  simp only [appendEntriesReq, sendable]
  have ⟨n, eq, positive⟩ := boundedAppendRequest_first {
    term            := a.currentTerm
    leaderId        := a.nodeId
    prevLogIndex    := nextFor ls peer - 1
    prevLogTerm     := a.termAt (nextFor ls peer - 1)
    entries         := []
    leaderCommit    := a.commitIndex
    commandProtocol := Command.currentCommandProtocol
  } PeerPlane.appendMaxEntries PeerPlane.appendMaxBytes (ll.drop (nextFor ls peer - 1))
  refine ⟨_, eq, ⟨by simp only; omega, d.carries.holds.termAt (by omega), ⟨n, rfl⟩, d.carries.committed⟩,
    d.term, rfl, fun more => ?_⟩
  have more : ll.drop (nextFor ls peer - 1) ≠ [] := by
    intro empty
    have := List.drop_eq_nil_iff.mp empty
    omega
  simp only [ne_eq, List.take_eq_nil_iff, more, or_false]
  exact (positive more).ne'

theorem Drives.shipment_ships (d : Drives a ll term peer ls) (pos : 0 < nextFor ls peer)
    (le : nextFor ls peer ≤ ll.length + 1) (sequence : Nat) :
    Ships σ ll term a.snapshotIndex (nextFor ls peer) peer ⟨a.currentTerm, sequence, a.now⟩
      (a.shipment ls peer sequence) := by
  simp only [shipment]
  split
  case isTrue older =>
    exact .install a.installSnapshotReq d.term older le_rfl d.carries.holds.snapshot d.carries.holds.term
      (d.carries.bytes.resolve_left (by omega))
  case isFalse h =>
    obtain ⟨req, eq, slice, current, prev, more⟩ := d.appendEntriesReq_slice (by omega) le
    obtain ⟨n, entries⟩ := slice.entries
    have exact' : U64.saturatingAdd (nextFor ls peer - 1) req.entries.length =
        nextFor ls peer - 1 + req.entries.length := by
      have length := congrArg List.length entries
      have := d.carries.holds.fits
      simp only [List.length_take, List.length_drop] at length
      rw [U64.saturatingAdd]
      omega
    rw [eq, exact']
    exact .append req slice current prev more

theorem sendAppendTo_eq (member : peer ∈ a.peers) (leads : a.leader = some ls)
    (idle : ls.inFlight[peer]?.getD false = false) :
    a.sendAppendTo peer = a.stepDown a.currentTerm none ∨
    a.sendAppendTo peer = emit (a.requesting ls peer (ls.requestSequence + 1))
      (a.shipment ls peer (ls.requestSequence + 1)) := by
  have contains : a.peers.contains peer := List.contains_iff_mem.mpr member
  simp only [sendAppendTo, contains, Bool.not_true, Bool.false_eq_true, if_false, leads, idle]
  split
  case h_1 => exact .inl rfl
  case h_2 sequence eq =>
    obtain rfl := (U64.checkedAdd_eq_some_iff.mp eq).1
    refine .inr ?_
    simp only [shipment]
    split
    case isTrue older =>
      rw [if_pos (show nextFor ls peer ≤ a.snapshotIndex from older)]
      rfl
    case isFalse newer =>
      rw [if_neg (show ¬nextFor ls peer ≤ a.snapshotIndex from newer)]
      rfl

theorem Drives.sends (d : Drives a ll term peer ls) (pos : 0 < nextFor ls peer)
    (le : nextFor ls peer ≤ ll.length + 1) (idle : ls.inFlight[peer]?.getD false = false)
    (role : (a.sendAppendTo peer).role = .leader) :
    ∃ ls' request effect, Drives (a.sendAppendTo peer) ll term peer ls' ∧
      (a.sendAppendTo peer).Waits ll term peer ls' request effect ∧
      matchFor ls' peer = matchFor ls peer ∧ nextFor ls' peer = nextFor ls peer ∧
      (a.sendAppendTo peer).now = a.now ∧ (a.Healthy → (a.sendAppendTo peer).Healthy) := by
  rcases sendAppendTo_eq d.member d.leads idle with eq | eq
  case inl =>
    rw [eq, resign_follower] at role
    contradiction
  case inr =>
    rw [eq]
    have ships := d.shipment_ships pos le (ls.requestSequence + 1)
    have ⟨upTo, sent⟩ := ships.sent
    refine ⟨_, ⟨a.currentTerm, ls.requestSequence + 1, a.now⟩, _,
      ⟨d.alive, d.role, rfl, d.term, d.member, d.carries.congr rfl, d.sendable⟩,
      ⟨outstanding_emit sent, ships, ?_, d.term, le_rfl⟩, rfl, rfl, rfl, fun h => ⟨h.alive, h.store⟩⟩
    simp

theorem sendAppendTo_busy (leads : a.leader = some ls) (busy : ls.inFlight[peer]?.getD false = true) :
    a.sendAppendTo peer = a := by
  simp only [sendAppendTo, leads, busy, if_true]
  split <;> rfl

-- Once the leader has been told to send, it waits for an answer.
theorem Drives.waits (d : Drives a ll term peer ls) (r : a.Ready ll term peer ls) (h : a.Healthy)
    (pos : 0 < nextFor ls peer) (le : nextFor ls peer ≤ ll.length + 1)
    (role : (a.sendAppendTo peer).role = .leader) :
    ∃ ls' request effect, Drives (a.sendAppendTo peer) ll term peer ls' ∧
      (a.sendAppendTo peer).Waits ll term peer ls' request effect ∧
      matchFor ls' peer = matchFor ls peer ∧ nextFor ls' peer = nextFor ls peer ∧
      (a.sendAppendTo peer).now = a.now ∧ (a.sendAppendTo peer).Healthy := by
  by_cases idle : ls.inFlight[peer]?.getD false = false
  case pos =>
    have ⟨ls', request, effect, d', w, matched, next, now, healthy⟩ := d.sends pos le idle role
    exact ⟨ls', request, effect, d', w, matched, next, now, healthy h⟩
  case neg =>
    have ⟨request, effect, w⟩ := r.resolve_left idle
    rw [sendAppendTo_busy d.leads (by simpa using idle)]
    exact ⟨ls, request, effect, d, w, rfl, rfl, rfl, h⟩

theorem replica_sendAppendTo (peer : String) : (a.sendAppendTo peer).replica = a.replica := by
  simp only [sendAppendTo]
  split
  case isTrue => rfl
  case isFalse =>
    split
    case h_1 => rfl
    case h_2 =>
      split
      case isTrue => rfl
      case isFalse =>
        split
        case h_1 => exact replica_stepDown _ _
        case h_2 => split <;> rfl

theorem replica_broadcastAppendEntries : a.broadcastAppendEntries.replica = a.replica := by
  simp only [broadcastAppendEntries]
  split
  case isTrue => rfl
  case isFalse h =>
    clear h
    generalize a.peers = peers
    induction peers generalizing a
    case nil => rfl
    case cons peer peers ih => exact ih.trans (replica_sendAppendTo peer)

end Send

section Follow

theorem Drives.note (d : Drives a ll term peer ls) (ls' : LeaderState)
    (protocol : ls'.peerCommandProtocol[peer]? = ls.peerCommandProtocol[peer]? ∨
      ls'.peerCommandProtocol[peer]? = some Command.currentCommandProtocol) :
    Drives { a with leader := some ls' } ll term peer ls' where
  alive    := d.alive
  role     := d.role
  leads    := rfl
  term     := d.term
  member   := d.member
  carries  := d.carries.congr rfl
  sendable := fun entry mem command proposes => by
    rcases d.sendable entry mem command proposes with active | ⟨current, advertised⟩
    case inl => exact .inl active
    case inr =>
      refine .inr ⟨current, ?_⟩
      rcases protocol with same | new
      case inl => rwa [same]
      case inr => rwa [new]

theorem Drives.maybeAdvanceCommit [Lossless σ] (d : Drives a ll term peer ls) (h : a.Healthy)
    (pos : 0 < term) :
    Drives a.maybeAdvanceCommit ll term peer ls ∧ a.maybeAdvanceCommit.Healthy ∧
    a.maybeAdvanceCommit.now = a.now := by
  simp only [ShardActor.maybeAdvanceCommit]
  split
  case isTrue => exact ⟨d, h, rfl⟩
  case isFalse =>
    split
    case isFalse => exact ⟨d, h, rfl⟩
    case isTrue commits =>
      simp only [gt_iff_lt, Bool.and_eq_true, decide_eq_true_eq] at commits
      have held := (termAt_pos (commits.2 ▸ d.term ▸ pos)).2
      rw [d.carries.holds.length] at held
      have s := d.carries.commitTo_settled h commits.1.le held "persisting leader commit index"
      refine ⟨⟨s.healthy.alive, s.settles.role.trans d.role, s.settles.leader.trans d.leads,
        s.settles.term.trans d.term, ?_, s.carries, fun entry mem command proposes => ?_⟩, s.healthy,
        s.settles.now⟩
      case refine_1 =>
        rw [s.settles.peers]
        exact d.member
      case refine_2 =>
        exact (d.sendable entry (s.log entry mem) command proposes).imp_left (·.trans s.protocol)

variable [PeerPlane]

-- The actor does not lead any more, or its log has gone on.
def Strays (a : ShardActor σ) (ll : List LogEntry) : Prop :=
  a.role = .leader → a.lastLogIndex ≠ ll.length

theorem Strays.send (h : a.Strays ll) (peer : String) : (a.sendAppendTo peer).Strays ll := by
  intro leader
  rw [lastLogIndex_congr (replica_sendAppendTo peer)]
  exact h (sendAppendTo_keeps peer leader).1

-- A leader of others either leaves its log alone or appends the record.
theorem Drives.maybeActivateCommandProtocol (d : Drives a ll term peer ls) (h : a.Healthy) :
    a.maybeActivateCommandProtocol = a ∨ a.maybeActivateCommandProtocol.Strays ll := by
  have members : a.members ≠ 1 := by
    have := List.length_pos_of_mem d.member
    rw [ShardActor.members]
    omega
  simp only [ShardActor.maybeActivateCommandProtocol]
  split
  case isTrue => exact .inl rfl
  case isFalse =>
    split
    case isTrue => exact .inl rfl
    case isFalse =>
      refine .inr ?_
      split
      case h_1 => rintro ⟨⟩
      case h_2 index fits =>
        obtain ⟨_, fits⟩ := U64.checkedAdd_eq_some_iff.mp fits
        have healthy (entry : LogEntry) : Healthy { a with log := a.log ++ [entry] } := ⟨h.alive, h.store⟩
        obtain ⟨b, eq, s⟩ := (healthy (a.newEntry index
          (some (.activateCommandProtocol Command.currentCommandProtocol)))).persistLogAppend
        have others : ¬b.members = 1 := by
          rw [ShardActor.members, s.settles.peers]
          exact members
        simp only [eq, others, if_false]
        intro _
        rw [lastLogIndex_congr (replica_broadcastAppendEntries.trans s.replica)]
        have length := d.carries.holds.length
        have last := d.carries.holds.lastLogIndex
        simp only [lastLogIndex, U64.saturatingAdd, List.length_append, List.length_singleton]
        omega

end Follow

section Reply

theorem Drives.accepts (d : Drives a ll term peer ls) (pending : ls.pendingRequests[peer]? = some request)
    (current : request.term = term) (past : request.sentAt ≤ a.now) :
    a.acceptReplicationCallback peer request (some term) =
      (a.onLeader fun ls => { ls with pendingRequests := ls.pendingRequests.erase peer }, true) := by
  have verdict : classifyCallback a.currentTerm (some request) request (some term) a.now = .current := by
    simp [classifyCallback, d.term, current, Option.filter, past]
  simp [acceptReplicationCallback, d.alive, d.member, d.role, d.leads, pending, verdict, onLeader]

omit [StateMachine σ] in
theorem onLeader_onLeader (f g : LeaderState → LeaderState) :
    (a.onLeader f).onLeader g = a.onLeader fun ls => g (f ls) := by
  simp only [onLeader, Option.map_map]
  rfl

theorem Drives.onLeader (d : Drives a ll term peer ls) (f : LeaderState → LeaderState)
    (protocol : (f ls).peerCommandProtocol[peer]? = ls.peerCommandProtocol[peer]? ∨
      (f ls).peerCommandProtocol[peer]? = some Command.currentCommandProtocol) :
    Drives (a.onLeader f) ll term peer (f ls) := by
  have eq : a.onLeader f = { a with leader := some (f ls) } := by rw [ShardActor.onLeader, d.leads]; rfl
  rw [eq]
  exact d.note (f ls) protocol

variable [PeerPlane] {request : RequestStamp} {upTo : Nat}

-- What the leader notes about an answer in its term.
def noted (peer : String) (sentAt : Instant) (protocol : Nat) (ls : LeaderState) : LeaderState :=
  contacted peer sentAt { landed peer ls with
    peerCommandProtocol := ls.peerCommandProtocol.insert peer protocol }

theorem handleAppendReply_current {resp : AppendEntriesResp} {sentAt : Instant}
    (alive : a.storageFault = none) (role : a.role = .leader) (respTerm : resp.term = a.currentTerm) :
    a.handleAppendReply sentAt peer upTo (some resp) =
      let b := a.onLeader (noted peer sentAt resp.commandProtocol)
      if resp.success && resp.matchIndex ≥ upTo then
        let b := b.onLeader (advanced peer upTo)
        let more := b.leader.any fun ls => ls.matchIndex[peer]?.getD 0 < b.lastLogIndex
        let c := b.maybeAdvanceCommit.maybeActivateCommandProtocol
        if more then c.sendAppendTo peer else c
      else
        (b.onLeader (rewound peer resp.matchIndex)).maybeActivateCommandProtocol := by
  have alive' (f : LeaderState → LeaderState) : (a.onLeader f).storageFault = none := alive
  have role' (f : LeaderState → LeaderState) : (a.onLeader f).role = .leader := role
  have term' (f : LeaderState → LeaderState) : (a.onLeader f).currentTerm = resp.term := respTerm.symm
  simp only [handleAppendReply, alive, Option.isSome_none, Bool.false_eq_true, if_false, term', role',
    gt_iff_lt, lt_irrefl, ne_eq, not_true, decide_false, Bool.or_self, onLeader_onLeader]
  rfl

-- The leader as it handles the answer that it waits for.
theorem Drives.appendReply_eq {resp : AppendEntriesResp} (d : Drives a ll term peer ls) (upTo : Nat)
    (pending : ls.pendingRequests[peer]? = some request) (current : request.term = term)
    (past : request.sentAt ≤ a.now) (respTerm : resp.term = term)
    (protocol : resp.commandProtocol = Command.currentCommandProtocol) :
    ∃ b ls', (a.dispatch (.message (.appendReply peer request upTo (some resp)))).1 =
        (if resp.success && resp.matchIndex ≥ upTo then
          let b := b.onLeader (advanced peer upTo)
          let more := b.leader.any fun ls => ls.matchIndex[peer]?.getD 0 < b.lastLogIndex
          let c := b.maybeAdvanceCommit.maybeActivateCommandProtocol
          if more then c.sendAppendTo peer else c
        else
          (b.onLeader (rewound peer resp.matchIndex)).maybeActivateCommandProtocol) ∧
      Drives b ll term peer ls' ∧ (a.Healthy → b.Healthy) ∧ b.replica = a.replica ∧ b.now = a.now ∧
      matchFor ls' peer = matchFor ls peer ∧ nextFor ls' peer = nextFor ls peer ∧
      ls'.inFlight[peer]?.getD false = false := by
  let f (ls : LeaderState) : LeaderState :=
    noted peer request.sentAt resp.commandProtocol { ls with pendingRequests := ls.pendingRequests.erase peer }
  refine ⟨a.onLeader f, f ls, ?_, d.onLeader f (.inr ?_), fun h => ⟨h.alive, h.store⟩, rfl, rfl, rfl, rfl, ?_⟩
  case refine_1 =>
    simp only [dispatch, handle, Option.map_some, respTerm, d.accepts pending current past, if_true]
    rw [handleAppendReply_current (a := a.onLeader _) d.alive d.role (respTerm.trans d.term.symm)]
    simp only [onLeader_onLeader, f]
  case refine_2 => simp [f, noted, contacted, protocol]
  case refine_3 => simp [f, noted, contacted, landed]

-- The leader goes on with its log if nothing has been appended to it.
theorem Drives.activated (d : Drives a ll term peer ls) (h : a.Healthy)
    (strays : ¬a.maybeActivateCommandProtocol.Strays ll) : a.maybeActivateCommandProtocol = a :=
  (d.maybeActivateCommandProtocol h).resolve_right strays

-- The leader credits the peer with what it acknowledged.
theorem Drives.appendReply_success [Lossless σ] {resp : AppendEntriesResp} {final : ShardActor σ}
    (d : Drives a ll term peer ls) (h : a.Healthy) (pos : 0 < term)
    (pending : ls.pendingRequests[peer]? = some request) (current : request.term = term)
    (past : request.sentAt ≤ a.now) (success : resp.success = true) (reported : upTo ≤ resp.matchIndex)
    (respTerm : resp.term = term) (protocol : resp.commandProtocol = Command.currentCommandProtocol)
    (eq : (a.dispatch (.message (.appendReply peer request upTo (some resp)))).1 = final)
    (still : ¬final.Strays ll) :
    ∃ ls', Drives final ll term peer ls' ∧ final.Ready ll term peer ls' ∧ final.now = a.now ∧
      matchFor ls' peer = max (matchFor ls peer) upTo ∧
      nextFor ls' peer = U64.saturatingAdd (max (matchFor ls peer) upTo) 1 := by
  have ⟨b, ls₁, reply, d₁, healthy, _, now, matched, next, idle⟩ :=
    d.appendReply_eq upTo pending current past respTerm protocol
  rw [← eq, reply]
  rw [← eq, reply] at still
  simp only [success, Bool.true_and, ge_iff_le, reported, decide_true, if_true] at still ⊢
  have d₂ := d₁.onLeader (advanced peer upTo) (.inl rfl)
  have h₂ : (b.onLeader (advanced peer upTo)).Healthy := ⟨(healthy h).alive, (healthy h).store⟩
  have matched₂ : matchFor (advanced peer upTo ls₁) peer = max (matchFor ls peer) upTo := by
    simp only [← matched]
    simp [matchFor, advanced]
  have next₂ : nextFor (advanced peer upTo ls₁) peer =
      U64.saturatingAdd (max (matchFor ls peer) upTo) 1 := by
    simp only [← matched]
    simp [nextFor, matchFor, advanced]
  have idle₂ : (advanced peer upTo ls₁).inFlight[peer]?.getD false = false := idle
  have now₂ : (b.onLeader (advanced peer upTo)).now = a.now := now
  generalize b.onLeader (advanced peer upTo) = b at d₂ h₂ now₂ still ⊢
  obtain ⟨d₃, h₃, now₃⟩ := d₂.maybeAdvanceCommit h₂ pos
  have stays : b.maybeAdvanceCommit.maybeActivateCommandProtocol = b.maybeAdvanceCommit := by
    refine d₃.activated h₃ fun strays => still ?_
    split
    case isTrue => exact strays.send peer
    case isFalse => exact strays
  rw [stays] at still ⊢
  split
  case isFalse => exact ⟨_, d₃, .inl idle₂, now₃.trans now₂, matched₂, next₂⟩
  case isTrue more =>
    rw [if_pos more] at still
    have more : max (matchFor ls peer) upTo < ll.length := by
      rw [d₂.leads, Option.any_some, d₂.carries.holds.lastLogIndex, decide_eq_true_eq] at more
      exact matched₂ ▸ more
    have room : nextFor (advanced peer upTo ls₁) peer = max (matchFor ls peer) upTo + 1 :=
      next₂.trans (Nat.min_eq_left (Nat.succ_le_of_lt (more.trans_le d₂.carries.holds.fits)))
    have leads : (b.maybeAdvanceCommit.sendAppendTo peer).role = .leader := by
      by_contra other
      exact still fun leader => absurd leader other
    obtain ⟨ls₄, _, _, d₄, waits, matched₄, next₄, now₄, _⟩ := d₃.sends (by omega) (by omega) idle₂ leads
    exact ⟨ls₄, d₄, .inr ⟨_, _, waits⟩, now₄.trans (now₃.trans now₂), matched₄.trans matched₂,
      next₄.trans next₂⟩

-- A mismatch takes the leader back, by one or to the hint, but not behind what is acknowledged.
theorem Drives.appendReply_rewound {resp : AppendEntriesResp} (d : Drives a ll term peer ls) (upTo : Nat)
    (pending : ls.pendingRequests[peer]? = some request) (current : request.term = term)
    (past : request.sentAt ≤ a.now) (failure : resp.success = false) (respTerm : resp.term = term)
    (protocol : resp.commandProtocol = Command.currentCommandProtocol) :
    ∃ b ls', (a.dispatch (.message (.appendReply peer request upTo (some resp)))).1 =
        b.maybeActivateCommandProtocol ∧
      Drives b ll term peer ls' ∧ (a.Healthy → b.Healthy) ∧ b.replica = a.replica ∧ b.now = a.now ∧
      matchFor ls' peer = matchFor ls peer ∧
      nextFor ls' peer = max (min (U64.saturatingAdd resp.matchIndex 1) (nextFor ls peer - 1))
        (U64.saturatingAdd (matchFor ls peer) 1) ∧
      ls'.inFlight[peer]?.getD false = false := by
  have ⟨b, ls₁, reply, d₁, healthy, replica, now, matched, next, idle⟩ :=
    d.appendReply_eq upTo pending current past respTerm protocol
  simp only [failure, Bool.false_and, Bool.false_eq_true, if_false] at reply
  refine ⟨_, _, reply, d₁.onLeader (rewound peer resp.matchIndex) (.inl rfl),
    fun h => ⟨(healthy h).alive, (healthy h).store⟩, replica, now, matched, ?_, idle⟩
  rw [← matched, ← next]
  simp [nextFor, matchFor, rewound]

theorem Drives.appendReply_mismatch {resp : AppendEntriesResp} {final : ShardActor σ}
    (d : Drives a ll term peer ls) (h : a.Healthy) (pending : ls.pendingRequests[peer]? = some request)
    (current : request.term = term) (past : request.sentAt ≤ a.now) (failure : resp.success = false)
    (respTerm : resp.term = term) (protocol : resp.commandProtocol = Command.currentCommandProtocol)
    (eq : (a.dispatch (.message (.appendReply peer request upTo (some resp)))).1 = final)
    (still : ¬final.Strays ll) :
    ∃ ls', Drives final ll term peer ls' ∧ final.Ready ll term peer ls' ∧ final.now = a.now ∧
      matchFor ls' peer = matchFor ls peer ∧
      nextFor ls' peer = max (min (U64.saturatingAdd resp.matchIndex 1) (nextFor ls peer - 1))
        (U64.saturatingAdd (matchFor ls peer) 1) := by
  have ⟨b, ls', reply, d', healthy, _, now, matched, next, idle⟩ :=
    d.appendReply_rewound upTo pending current past failure respTerm protocol
  rw [← eq, reply] at still ⊢
  rw [d'.activated (healthy h) still]
  exact ⟨ls', d', .inl idle, now, matched, next⟩

-- What the leader notes about a snapshot that the peer has taken over.
def caughtUpTo (peer : String) (sentAt : Instant) (upTo : Nat) (ls : LeaderState) : LeaderState :=
  contacted peer sentAt { landed peer ls with
    matchIndex := ls.matchIndex.insert peer (max (matchFor ls peer) upTo)
    nextIndex  := ls.nextIndex.insert peer (U64.saturatingAdd (max (matchFor ls peer) upTo) 1)
  }

theorem handleSnapshotReply_current {resp : InstallSnapshotResp} {sentAt : Instant}
    (alive : a.storageFault = none) (role : a.role = .leader) (leads : a.leader = some ls)
    (respTerm : resp.term = a.currentTerm) (success : resp.success = true)
    (reported : upTo ≤ resp.matchIndex) :
    a.handleSnapshotReply sentAt peer upTo (some resp) =
      (a.onLeader (caughtUpTo peer sentAt upTo)).sendAppendTo peer := by
  have leads' : (a.onLeader (landed peer)).leader = some (landed peer ls) := by
    rw [onLeader, leads]
    rfl
  have known : acknowledgedPrefix ((landed peer ls).matchIndex[peer]?.getD 0) upTo resp.matchIndex =
      some (max (matchFor ls peer) upTo, U64.saturatingAdd (max (matchFor ls peer) upTo) 1) :=
    if_neg (Nat.not_lt.mpr reported)
  have newer : ¬resp.term > (a.onLeader (landed peer)).currentTerm := Nat.not_lt.mpr respTerm.le
  have listens : ¬((decide ((a.onLeader (landed peer)).role ≠ .leader) ||
      decide (resp.term ≠ (a.onLeader (landed peer)).currentTerm) || !resp.success) = true) := by
    simp [onLeader, role, respTerm, success]
  simp only [handleSnapshotReply, alive, Option.isSome_none, Bool.false_eq_true, if_false]
  rw [if_neg newer, if_neg listens, leads']
  simp only [known]
  congr 1
  rw [onLeader, onLeader, leads]
  rfl

-- The leader credits the peer with the snapshot and goes on from there.
theorem Drives.snapshotReply_success {resp : InstallSnapshotResp} {final : ShardActor σ}
    (d : Drives a ll term peer ls) (pending : ls.pendingRequests[peer]? = some request)
    (current : request.term = term) (past : request.sentAt ≤ a.now) (success : resp.success = true)
    (reported : upTo ≤ resp.matchIndex) (respTerm : resp.term = term)
    (bound : max (matchFor ls peer) upTo ≤ ll.length)
    (eq : (a.dispatch (.message (.snapshotReply peer request upTo (some resp)))).1 = final)
    (still : ¬final.Strays ll) :
    ∃ ls', Drives final ll term peer ls' ∧ final.Ready ll term peer ls' ∧ final.now = a.now ∧
      matchFor ls' peer = max (matchFor ls peer) upTo ∧
      nextFor ls' peer = U64.saturatingAdd (max (matchFor ls peer) upTo) 1 := by
  let f (ls : LeaderState) : LeaderState :=
    caughtUpTo peer request.sentAt upTo { ls with pendingRequests := ls.pendingRequests.erase peer }
  have reply : (a.dispatch (.message (.snapshotReply peer request upTo (some resp)))).1 =
      (a.onLeader f).sendAppendTo peer := by
    have leads (g : LeaderState → LeaderState) : (a.onLeader g).leader = some (g ls) := by
      rw [ShardActor.onLeader, d.leads]
      rfl
    simp only [dispatch, handle, Option.map_some, respTerm, d.accepts pending current past, if_true]
    rw [handleSnapshotReply_current (a := a.onLeader _) d.alive d.role (leads _)
      (respTerm.trans d.term.symm) success reported, onLeader_onLeader]
  have d₁ := d.onLeader f (.inl rfl)
  have matched : matchFor (f ls) peer = max (matchFor ls peer) upTo := by
    simp [f, caughtUpTo, contacted, matchFor]
  have next : nextFor (f ls) peer = U64.saturatingAdd (max (matchFor ls peer) upTo) 1 := by
    simp [f, caughtUpTo, contacted, nextFor, matchFor]
  have idle : (f ls).inFlight[peer]?.getD false = false := by
    simp [f, caughtUpTo, contacted, landed]
  rw [← eq, reply] at still ⊢
  have leads : ((a.onLeader f).sendAppendTo peer).role = .leader := by
    by_contra other
    exact still fun leader => absurd leader other
  have pos : 0 < U64.saturatingAdd (max (matchFor ls peer) upTo) 1 :=
    Nat.lt_min.mpr ⟨Nat.succ_pos _, by decide⟩
  have le : U64.saturatingAdd (max (matchFor ls peer) upTo) 1 ≤ ll.length + 1 :=
    (Nat.min_le_left _ _).trans (Nat.succ_le_succ bound)
  obtain ⟨ls₂, _, _, d₂, waits, matched₂, next₂, now₂, _⟩ := d₁.sends (next ▸ pos) (next ▸ le) idle leads
  exact ⟨ls₂, d₂, .inr ⟨_, _, waits⟩, now₂, matched₂.trans matched, next₂.trans next⟩

end Reply

end ShardActor
