import FiduciaNode.Consensus.Theorems.Exchange.Leader

namespace ShardActor

variable {σ : Type} [StateMachine σ] {actors : ShardActor σ × ShardActor σ}
  {a leader follower : ShardActor σ} {l ll : List LogEntry} {term : Nat} {peer : String} {ls : LeaderState}
  {env : Env × Env}

-- A leader and a follower on their way to the same log. What the leader knows the follower to hold is
-- true, and the next index is past all that the two agree on.
structure Approaches (actors : ShardActor σ × ShardActor σ) (ll : List LogEntry) (term : Nat)
    (peer : String) (l : List LogEntry) (ls : LeaderState) : Prop where
  drives   : Drives actors.1 ll term peer ls
  ready    : actors.1.Ready ll term peer ls
  alive    : actors.2.storageFault = none
  trails   : actors.2.Trails l ll term
  matched  : matchFor ls peer ≤ l.length
  truthful : l.take (matchFor ls peer) = ll.take (matchFor ls peer)
  beyond   : ∀ i ≤ l.length, l.take i = ll.take i → i ≤ ll.length → i < nextFor ls peer
  next     : nextFor ls peer ≤ ll.length + 1

-- The leader leads and knows that the follower holds its whole log, and so the follower does.
structure Converged (actors : ShardActor σ × ShardActor σ) (ll : List LogEntry) (peer : String) : Prop where
  role     : actors.1.role = .leader
  leader   : actors.1.Carries ll
  matched  : ∃ ls, actors.1.leader = some ls ∧ matchFor ls peer = ll.length
  follower : ∃ l, actors.2.Carries l ∧ l.take ll.length = ll

-- Every round gets closer: either more is acknowledged or the next index goes back.
def distance (ll : List LogEntry) (peer : String) (ls : LeaderState) : Nat :=
  (ll.length - matchFor ls peer) * (ll.length + 2) + nextFor ls peer

section Basic

omit [StateMachine σ] in
theorem le_length_of_take_eq {i : Nat} (le : i ≤ l.length) (eq : l.take i = ll.take i) : i ≤ ll.length := by
  have := congrArg List.length eq
  simp only [List.length_take] at this
  omega

theorem Drives.observe (d : Drives a ll term peer ls) (env : Env) :
    Drives (a.observe env) ll term peer ls :=
  ⟨d.alive, d.role, d.leads, d.term, d.member, d.carries.congr rfl, d.sendable⟩

theorem Ready.observe (r : a.Ready ll term peer ls) {env : Env} (clock : a.now ≤ env.now) :
    (a.observe env).Ready ll term peer ls :=
  r.imp_right fun ⟨request, effect, w⟩ =>
    ⟨request, effect, w.outstanding, w.ships, w.pending, w.current, w.past.trans clock⟩

theorem Trails.congr {b : ShardActor σ} (t : a.Trails l ll term) (r : b.replica = a.replica)
    (le : b.currentTerm ≤ term) : b.Trails l ll term :=
  ⟨t.carries.congr r, le, t.matching,
    (show b.commitIndex = a.commitIndex from congrArg Replica.commitIndex r) ▸ t.agree⟩

-- A prefix of the log of the leader is a fine log for a follower.
theorem Carries.trails {n : Nat} (c : a.Carries (ll.take n)) (le : a.currentTerm ≤ term) :
    a.Trails (ll.take n) ll term where
  carries  := c
  term     := le
  matching := by
    intro i e₁ e₂ h₁ h₂ _
    have lt := (List.getElem?_eq_some_iff.mp h₁).1
    rw [List.length_take] at lt
    rw [List.take_take, Nat.min_eq_left (by omega)]
  agree    := by
    have := c.committed
    rw [List.length_take] at this
    rw [List.take_take, Nat.min_eq_left (by omega)]

end Basic

section Progress

-- What is known of a pair once the follower holds a prefix of the log of the leader.
theorem Approaches.of_taken {n : Nat} (d : Drives leader ll term peer ls)
    (r : leader.Ready ll term peer ls) (alive : follower.storageFault = none)
    (c : follower.Carries (ll.take n)) (le : follower.currentTerm ≤ term) (lt : n < ll.length)
    (matched : matchFor ls peer = n) (next : nextFor ls peer = n + 1) :
    Approaches (leader, follower) ll term peer (ll.take n) ls where
  drives   := d
  ready    := r
  alive    := alive
  trails   := c.trails le
  matched  := by simp only [matched, List.length_take]; omega
  truthful := by rw [matched, List.take_take, Nat.min_self]
  beyond   := by
    intro i le _ _
    rw [List.length_take] at le
    omega
  next     := by omega

-- A follower that has taken over more is either done or on its way.
theorem advanced_or_converged {n : Nat} {ls' : LeaderState} (d : Drives leader ll term peer ls')
    (r : leader.Ready ll term peer ls') (alive : follower.storageFault = none)
    (c : follower.Carries (ll.take n)) (le : follower.currentTerm ≤ term) (len : n ≤ ll.length)
    (more : matchFor ls peer < n)
    (matched : matchFor ls' peer = n) (next : nextFor ls' peer = U64.saturatingAdd n 1) :
    Converged (leader, follower) ll peer ∨ ∃ l' ls', Approaches (leader, follower) ll term peer l' ls' ∧
      distance ll peer ls' < distance ll peer ls := by
  rcases Nat.eq_or_lt_of_le len with whole | lt
  case inl =>
    refine .inl ⟨d.role, d.carries, ⟨ls', d.leads, matched.trans whole⟩, _, c, ?_⟩
    rw [whole, List.take_take, Nat.min_self, List.take_length]
  case inr =>
    have next : nextFor ls' peer = n + 1 :=
      next.trans (Nat.min_eq_left (Nat.succ_le_of_lt (lt.trans_le d.carries.holds.fits)))
    refine .inr ⟨_, ls', .of_taken d r alive c le lt matched next, ?_⟩
    rw [distance, distance, matched, next]
    have step : (ll.length - n + 1) * (ll.length + 2) ≤
        (ll.length - matchFor ls peer) * (ll.length + 2) := Nat.mul_le_mul_right _ (by omega)
    rw [Nat.add_mul, Nat.one_mul] at step
    omega

-- The follower agrees with the leader up to the commit index, so the next index is past it.
theorem Approaches.committed_lt (h : Approaches actors ll term peer l ls) :
    actors.2.commitIndex < nextFor ls peer :=
  h.beyond _ h.trails.carries.committed h.trails.agree
    (le_length_of_take_eq h.trails.carries.committed h.trails.agree)

-- The follower has the entry of the leader wherever the two agree.
theorem Trails.termAt_agree {n : Nat} (t : a.Trails l ll term) (covered : a.snapshotIndex ≤ n)
    (eq : l.take n = ll.take n) : a.termAt n = Raft.termAt ll n :=
  (t.carries.holds.termAt covered).trans (Raft.termAt_of_take_eq eq le_rfl)

-- The requests of the leader start past all that the two agree on.
theorem Approaches.agree_le (h : Approaches actors ll term peer l ls) {i : Nat} (le : i ≤ l.length)
    (agree : l.take i = ll.take i) : i ≤ nextFor ls peer - 1 := by
  have := h.beyond i le agree (le_length_of_take_eq le agree)
  omega

-- The follower accepts the entries: either it had all of them, or it has got new ones.
theorem Approaches.accepted {b c final : ShardActor σ} {ls' : LeaderState} {req : AppendEntriesReq}
    (h : Approaches actors ll term peer l ls) (authored : Authored ll term) (t : b.Trails l ll term)
    (slice : req.SliceOf ll) (prev : req.prevLogIndex = nextFor ls peer - 1)
    (more : nextFor ls peer ≤ ll.length → req.entries ≠ [])
    (agrees : req.prevLogIndex = 0 ∨ b.termAt req.prevLogIndex = req.prevLogTerm)
    (d : Drives final ll term peer ls') (ready : final.Ready ll term peer ls')
    (alive : c.storageFault = none) (carries : c.Carries (Raft.merge l req.prevLogIndex req.entries))
    (le : c.currentTerm ≤ term)
    (matched : matchFor ls' peer = req.prevLogIndex + req.entries.length)
    (next : nextFor ls' peer = U64.saturatingAdd (req.prevLogIndex + req.entries.length) 1) :
    Converged (final, c) ll peer ∨ ∃ l' ls', Approaches (final, c) ll term peer l' ls' ∧
      distance ll peer ls' < distance ll peer ls := by
  have f := t.follows authored
  have ⟨n, entries⟩ := slice.entries
  have slack := slice.length_le
  have agree := f.prev_agree slice.prev (agrees.imp_right (·.trans slice.prevTerm))
  rcases Raft.merge_eq f.matching entries slice.prev agree with ⟨same, all⟩ | ⟨taken, differ⟩
  case inl =>
    rw [same] at carries
    have held : req.prevLogIndex + req.entries.length ≤ l.length := by
      have := congrArg List.length all
      simp only [List.length_take] at this
      omega
    have none : req.entries.length = 0 := by
      have := h.agree_le held all
      omega
    have whole : req.prevLogIndex + req.entries.length = ll.length := by
      have : ¬nextFor ls peer ≤ ll.length := fun le => more le (List.eq_nil_of_length_eq_zero none)
      have := slice.prev
      omega
    rw [whole] at matched all
    exact .inl ⟨d.role, d.carries, ⟨ls', d.leads, matched⟩, l, carries, all.trans List.take_length⟩
  case inr =>
    rw [taken] at carries
    refine advanced_or_converged d ready alive carries le slack ?_ matched next
    have some : req.entries.length ≠ 0 := fun zero => differ (by rwa [zero])
    have := h.agree_le h.matched h.truthful
    omega

-- The follower misses the previous entry: the next index goes back behind what it holds.
theorem Approaches.refused {b final : ShardActor σ} {ls' : LeaderState} {prev : Nat}
    (h : Approaches actors ll term peer l ls) (alive : b.storageFault = none) (t : b.Trails l ll term)
    (replica : b.replica = actors.2.replica) (eq : prev = nextFor ls peer - 1) (behind : prev ≠ 0)
    (differs : b.termAt prev ≠ Raft.termAt ll prev) (d : Drives final ll term peer ls')
    (ready : final.Ready ll term peer ls') (matched : matchFor ls' peer = matchFor ls peer)
    (next : nextFor ls' peer =
      max (min (U64.saturatingAdd (min b.lastLogIndex (prev - 1)) 1) (nextFor ls peer - 1))
        (U64.saturatingAdd (matchFor ls peer) 1)) :
    Approaches (final, b) ll term peer l ls' ∧ distance ll peer ls' < distance ll peer ls := by
  have last := t.carries.holds.lastLogIndex
  have committed := h.committed_lt
  have covered : b.snapshotIndex ≤ prev := by
    have : b.commitIndex = actors.2.commitIndex := congrArg Replica.commitIndex replica
    have := t.carries.snapshot
    have := t.carries.applied
    omega
  have short {i : Nat} (le : i ≤ l.length) (agree : l.take i = ll.take i) : i < prev := by
    refine Nat.lt_of_le_of_ne (eq ▸ h.agree_le le agree) fun same => differs ?_
    exact t.termAt_agree covered (same ▸ agree)
  have shortMatch := short h.matched h.truthful
  have fits := d.carries.holds.fits
  have bound := h.next
  have next : nextFor ls' peer = min l.length (prev - 1) + 1 := by
    rw [next, last, ← eq,
      show U64.saturatingAdd (min l.length (prev - 1)) 1 = min l.length (prev - 1) + 1 from
        Nat.min_eq_left (by omega),
      show U64.saturatingAdd (matchFor ls peer) 1 = matchFor ls peer + 1 from Nat.min_eq_left (by omega)]
    have := h.matched
    omega
  refine ⟨⟨d, ready, alive, t, matched ▸ h.matched, matched ▸ h.truthful, ?_, ?_⟩, ?_⟩
  case refine_1 =>
    intro i le agree _
    have := short le agree
    omega
  case refine_2 => omega
  case refine_3 =>
    rw [distance, distance, matched]
    omega

end Progress

section Step

variable [PeerPlane]

-- An answer does not make anyone lead.
theorem dispatch_answer_role {e : Event} {request : RequestStamp} {upTo : Nat}
    (answers : e.answers peer request upTo) (unled : a.role ≠ .leader) : (a.dispatch e).1.role ≠ .leader := by
  rcases dispatch_unexpected answers fun h => unled h.1 with eq | ⟨term, _, _, eq⟩
  case inl => rwa [eq]
  case inr =>
    rw [eq]
    rcases stepDown_follower (a := a) term none with same | follower
    case inl => rwa [same]
    case inr => simp [follower]

theorem exchange_role (unled : ((actors.1.observe env.1).sendAppendTo peer).role ≠ .leader) :
    (exchange peer env actors).1.role ≠ .leader := by
  simp only [exchange]
  split
  case h_1 | h_2 => exact dispatch_answer_role ⟨rfl, rfl, rfl⟩ unled
  case h_3 => exact unled

variable [Lossless σ]

theorem Approaches.append {leader : ShardActor σ} {ls' : LeaderState} {request : RequestStamp}
    {effect : Effect} {req : AppendEntriesReq} (h : Approaches actors ll term peer l ls)
    (authored : Authored ll term) (pos : 0 < term) (ok : env.2.outcomes = [])
    (d : Drives leader ll term peer ls') (w : leader.Waits ll term peer ls' request effect)
    (healthy : leader.Healthy) (matched : matchFor ls' peer = matchFor ls peer)
    (next : nextFor ls' peer = nextFor ls peer) (slice : req.SliceOf ll) (reqTerm : req.term = term)
    (prev : req.prevLogIndex = nextFor ls peer - 1) (more : nextFor ls peer ≤ ll.length → req.entries ≠ [])
    {resp : AppendEntriesResp} (handled : (actors.2.observe env.2).handleAppendEntries req = (follower, resp))
    {final : ShardActor σ} (reply : (leader.dispatch (.message (.appendReply peer request
      (req.prevLogIndex + req.entries.length) (some resp)))).1 = final)
    (still : ¬final.Strays ll) :
    final.now = leader.now ∧ (Converged (final, follower) ll peer ∨
      ∃ l' ls', Approaches (final, follower) ll term peer l' ls' ∧
        distance ll peer ls' < distance ll peer ls) := by
  have ⟨b, hb, rb, tb, eq⟩ := handleAppendEntries_caughtUp (.observe h.alive ok)
    (reqTerm ▸ h.trails.term) (reqTerm ▸ authored) slice
  have tb : b.currentTerm = term := tb.trans reqTerm
  have t : b.Trails l ll term := h.trails.congr rb tb.le
  rw [eq] at handled
  by_cases agrees : req.prevLogIndex = 0 ∨ b.termAt req.prevLogIndex = req.prevLogTerm
  case pos =>
    have ⟨c, accepted, hc, tc, carries, _⟩ :=
      appendFrom_accepts t.carries hb (t.follows authored) slice agrees
    rw [accepted] at handled
    obtain ⟨rfl, rfl⟩ := Prod.mk.inj handled
    have reported : req.prevLogIndex + req.entries.length ≤ c.lastLogIndex := by
      have ⟨_, entries⟩ := slice.entries
      rw [carries.holds.lastLogIndex]
      exact Raft.le_length_merge t.matching entries slice.prev
        ((t.follows authored).prev_agree slice.prev (agrees.imp_right (·.trans slice.prevTerm)))
    have ⟨ls₂, d₂, ready, now, matched₂, next₂⟩ :=
      d.appendReply_success healthy pos w.pending w.current w.past rfl reported (tc.trans tb) rfl reply still
    have := h.agree_le h.matched h.truthful
    rw [matched, Nat.max_eq_right (by omega)] at matched₂ next₂
    exact ⟨now, h.accepted authored t slice prev more agrees d₂ ready hc.alive carries (tc.trans tb).le
      matched₂ next₂⟩
  case neg =>
    have ⟨behind, differs⟩ := not_or.mp agrees
    have refused : b.appendFrom req = b.appendResp false (min b.lastLogIndex (req.prevLogIndex - 1)) := by
      rw [appendFrom, if_pos]
      simp only [gt_iff_lt, ne_eq, Bool.and_eq_true, decide_eq_true_eq]
      exact ⟨by omega, differs⟩
    rw [refused] at handled
    obtain ⟨rfl, rfl⟩ := Prod.mk.inj handled
    obtain ⟨ls₂, d₂, ready, now, matched₂, next₂⟩ :=
      d.appendReply_mismatch healthy w.pending w.current w.past rfl tb rfl reply still
    rw [matched] at matched₂
    rw [matched, next] at next₂
    exact ⟨now, .inr ⟨l, ls₂, h.refused hb.alive t rb prev behind (slice.prevTerm ▸ differs) d₂ ready
      matched₂ next₂⟩⟩

theorem Approaches.install {leader : ShardActor σ} {ls' : LeaderState} {request : RequestStamp}
    {effect : Effect} {req : InstallSnapshotReq} (h : Approaches actors ll term peer l ls)
    (authored : Authored ll term) (ok : env.2.outcomes = []) (d : Drives leader ll term peer ls')
    (w : leader.Waits ll term peer ls' request effect) (matched : matchFor ls' peer = matchFor ls peer)
    (reqTerm : req.term = term) (newer : nextFor ls peer ≤ req.lastIncludedIndex)
    (last : req.lastIncludedIndex ≤ ll.length)
    (lastTerm : req.lastIncludedTerm = Raft.termAt ll req.lastIncludedIndex)
    (restores : StateMachine.restore req.state = .ok (replay (ll.take req.lastIncludedIndex) : σ))
    {resp : InstallSnapshotResp}
    (handled : (actors.2.observe env.2).handleInstallSnapshot req = (follower, resp))
    {final : ShardActor σ} (reply : (leader.dispatch (.message (.snapshotReply peer request
      req.lastIncludedIndex (some resp)))).1 = final)
    (still : ¬final.Strays ll) :
    final.now = leader.now ∧ (Converged (final, follower) ll peer ∨
      ∃ l' ls', Approaches (final, follower) ll term peer l' ls' ∧
        distance ll peer ls' < distance ll peer ls) := by
  have t : (actors.2.observe env.2).Trails l ll term := h.trails.congr rfl h.trails.term
  have conflict : (actors.2.observe env.2).termAt req.lastIncludedIndex ≠ req.lastIncludedTerm := by
    intro same
    have agree := (t.follows authored).prev_agree last (.inr (same.trans lastTerm))
    have := h.agree_le (le_length_of_take_eq last agree.symm) agree
    have := h.committed_lt
    omega
  have ⟨c, accepted, hc, tc, carries, _⟩ := handleInstallSnapshot_accepts t.carries (.observe h.alive ok)
    (reqTerm ▸ t.term) (reqTerm ▸ authored) last lastTerm restores
    (h.committed_lt.trans_le newer) conflict
  rw [accepted] at handled
  obtain ⟨rfl, rfl⟩ := Prod.mk.inj handled
  have more : matchFor ls peer < req.lastIncludedIndex :=
    (h.beyond _ h.matched h.truthful (le_length_of_take_eq h.matched h.truthful)).trans_le newer
  have ⟨ls₂, d₂, ready, now, matched₂, next₂⟩ := d.snapshotReply_success w.pending w.current w.past rfl
    (le_refl req.lastIncludedIndex) (tc.trans reqTerm) (matched ▸ max_le (more.le.trans last) last) reply still
  rw [matched, Nat.max_eq_right more.le] at matched₂ next₂
  exact ⟨now, advanced_or_converged d₂ ready hc.alive carries (tc.trans reqTerm).le last more matched₂ next₂⟩

-- A round in which the leader stays as it is gets closer.
theorem Approaches.exchange (h : Approaches actors ll term peer l ls) (authored : Authored ll term)
    (pos : 0 < term) (ok : env.1.outcomes = [] ∧ env.2.outcomes = []) (clock : actors.1.now ≤ env.1.now)
    (still : ¬(exchange peer env actors).1.Strays ll) :
    (exchange peer env actors).1.now = env.1.now ∧ (Converged (exchange peer env actors) ll peer ∨
      ∃ l' ls', Approaches (exchange peer env actors) ll term peer l' ls' ∧
        distance ll peer ls' < distance ll peer ls) := by
  have leads : ((actors.1.observe env.1).sendAppendTo peer).role = .leader := by
    by_contra other
    exact still fun leader => absurd leader (exchange_role other)
  have pos' : 0 < nextFor ls peer := h.beyond 0 (Nat.zero_le _) rfl (Nat.zero_le _)
  have ⟨ls', request, effect, d, w, matched, next, now, healthy⟩ :=
    (h.drives.observe env.1).waits (h.ready.observe clock) (.observe h.drives.alive ok.1) pos' h.next leads
  have ships := w.ships
  rw [next] at ships
  simp only [ShardActor.exchange, w.outstanding] at still ⊢
  rw [show env.1.now = _ from now.symm]
  cases ships
  case append req slice reqTerm prev more =>
    rw [← prev] at still ⊢
    exact h.append authored pos ok.2 d w healthy matched next slice reqTerm prev more rfl rfl still
  case install req reqTerm newer _ last lastTerm restores =>
    exact h.install authored ok.2 d w matched reqTerm newer last lastTerm restores rfl rfl still

-- After any number of rounds the pair has converged or is that much closer.
theorem Approaches.rounds {env : Nat → Env × Env} (h : Approaches actors ll term peer l ls)
    (authored : Authored ll term) (pos : 0 < term)
    (ok : ∀ i, (env i).1.outcomes = [] ∧ (env i).2.outcomes = [])
    (clock : actors.1.now ≤ (env 0).1.now) (ticks : ∀ i, (env i).1.now ≤ (env (i + 1)).1.now) (n : Nat)
    (still : ∀ i ≤ n, ¬(rounds peer env actors i).1.Strays ll) :
    (∃ i ≤ n, Converged (rounds peer env actors i) ll peer) ∨
    (rounds peer env actors n).1.now ≤ (env n).1.now ∧
      ∃ l' ls', Approaches (rounds peer env actors n) ll term peer l' ls' ∧
        distance ll peer ls' + n ≤ distance ll peer ls := by
  induction n
  case zero => exact .inr ⟨clock, l, ls, h, le_rfl⟩
  case succ n ih =>
    rcases ih fun i le => still i (by omega) with ⟨i, le, done⟩ | ⟨clock, l₁, ls₁, h₁, closer⟩
    case inl => exact .inl ⟨i, by omega, done⟩
    case inr =>
      have ⟨now, progress⟩ := h₁.exchange authored pos (ok n) clock (still (n + 1) le_rfl)
      rcases progress with done | ⟨l₂, ls₂, h₂, lt⟩
      case inl => exact .inl ⟨n + 1, le_rfl, done⟩
      case inr =>
        refine .inr ⟨?_, l₂, ls₂, h₂, by omega⟩
        exact now.trans_le (ticks n)

end Step

section Rewind

-- What the leader knows about the peer.
def knowing (matched next : Nat) : LeaderState where
  __         := LeaderState.empty
  nextIndex  := (∅ : HashMap String Nat).insert "b" next
  matchIndex := (∅ : HashMap String Nat).insert "b" matched

-- The leader with a log that it has committed.
def replicating (ls : LeaderState) : ShardActor Tally where
  __ := initial {
    shardId := 0, nodeId := "a", peers := ["b", "c"], dataDir := "", now := 0, nowMs := 0
    nowNanos := 0, timing := .default
  } { durableLen := 3, outcomes := [] } {
    currentTerm := 2, votedFor := some "a", commitIndex := 3, log := leaderLog, snapshot := none
  } StateMachine.new
  role   := .leader
  leader := some ls

theorem knowing_eq (matched next : Nat) :
    matchFor (knowing matched next) "b" = matched ∧ nextFor (knowing matched next) "b" = next := by
  simp [knowing, matchFor, nextFor]

theorem leaderLog_noops : ∀ entry ∈ leaderLog, entry.command = none := by
  simp [leaderLog, noop]

theorem leaderLog_authored : Authored leaderLog 2 where
  fits     := by decide
  index    := by
    intro k entry h
    match k with
    | 0 | 1 | 2 => cases h; rfl
    | k + 3 => cases h
  positive := by decide
  term     := by decide

theorem replicating_drives (ls : LeaderState) : Drives (replicating ls) leaderLog 2 "b" ls where
  alive    := rfl
  role     := rfl
  leads    := rfl
  term     := rfl
  member   := List.mem_cons_self
  carries  := ⟨⟨rfl, Nat.zero_le _, rfl, by decide⟩, le_rfl, Nat.zero_le _, le_refl 3, rfl, .inl rfl⟩
  sendable := by
    intro entry mem command some
    rw [leaderLog_noops entry mem] at some
    cases some

-- The clocks stand still and no write fails.
def calm (_ : Nat) : Env × Env := (⟨0, 0, []⟩, ⟨0, 0, []⟩)

end Rewind

section Stuck

variable [PeerPlane]

-- The follower has replaced what the leader knows it to hold, and more, by a snapshot.
structure Stuck (actors : ShardActor σ × ShardActor σ) (ll : List LogEntry) (term : Nat) (peer : String)
    (l : List LogEntry) (ls : LeaderState) : Prop where
  drives       : Drives actors.1 ll term peer ls
  ready        : actors.1.Ready ll term peer ls
  active       : Command.currentCommandProtocol ≤ actors.1.commandProtocol
  alive        : actors.2.storageFault = none
  trails       : actors.2.Trails l ll term
  acknowledged : 0 < matchFor ls peer
  next         : nextFor ls peer = matchFor ls peer + 1
  stored       : actors.1.snapshotIndex ≤ matchFor ls peer
  compacted    : matchFor ls peer < actors.2.snapshotIndex

omit [PeerPlane] in
theorem Stuck.lt_length (h : Stuck actors ll term peer l ls) : matchFor ls peer < ll.length := by
  have := le_length_of_take_eq h.trails.carries.committed h.trails.agree
  have := h.trails.carries.snapshot
  have := h.trails.carries.applied
  have := h.compacted
  omega

omit [PeerPlane] in
theorem Stuck.not_converged (h : Stuck actors ll term peer l ls) : ¬Converged actors ll peer := by
  intro ⟨_, _, ⟨ls', leads, matched⟩, _⟩
  cases h.drives.leads.symm.trans leads
  exact absurd matched h.lt_length.ne

omit [StateMachine σ] [PeerPlane] in
theorem termAt_compacted {n : Nat} (lt : n < a.snapshotIndex) : a.termAt n = 0 := by
  simp only [termAt, lt, lt.ne, if_true, if_false, ite_self]

theorem sendAppendTo_unled (unled : a.role ≠ .leader) : (a.sendAppendTo peer).role ≠ .leader := by
  simp only [sendAppendTo]
  split
  case isTrue => exact unled
  case isFalse =>
    split
    case h_1 => exact unled
    case h_2 =>
      split
      case isTrue => exact unled
      case isFalse =>
        split
        case h_1 => simp [resign_follower]
        case h_2 => split <;> exact unled

theorem maybeActivateCommandProtocol_active (h : Command.currentCommandProtocol ≤ a.commandProtocol) :
    a.maybeActivateCommandProtocol = a := by
  simp [maybeActivateCommandProtocol, h]

omit [PeerPlane] in
theorem appendFrom_compacted {req : AppendEntriesReq} (authored : Authored ll term) (slice : req.SliceOf ll)
    (pos : 0 < req.prevLogIndex) (lt : req.prevLogIndex < a.snapshotIndex) :
    a.appendFrom req = a.appendResp false (min a.lastLogIndex (req.prevLogIndex - 1)) := by
  have differs : a.termAt req.prevLogIndex ≠ req.prevLogTerm := by
    rw [termAt_compacted lt, slice.prevTerm]
    exact (authored.termAt_pos pos slice.prev).ne
  rw [appendFrom, if_pos (by simp [pos, differs])]

theorem exchange_append {request : RequestStamp} {upTo : Nat} {req : AppendEntriesReq}
    {resp : AppendEntriesResp} (sent : ((actors.1.observe env.1).sendAppendTo peer).outstanding peer =
      some (.appendEntries peer request upTo req))
    (handled : (actors.2.observe env.2).handleAppendEntries req = (follower, resp))
    (reply : (((actors.1.observe env.1).sendAppendTo peer).dispatch
      (.message (.appendReply peer request upTo (some resp)))).1 = leader) :
    exchange peer env actors = (leader, follower) := by
  simp only [exchange, sent, handled, reply]

-- The follower does not find the previous entry, and the leader does not go back any further.
theorem Stuck.exchange (h : Stuck actors ll term peer l ls) (authored : Authored ll term)
    (ok : env.1.outcomes = [] ∧ env.2.outcomes = []) (clock : actors.1.now ≤ env.1.now) :
    (exchange peer env actors).1.role ≠ .leader ∨ (exchange peer env actors).1.now = env.1.now ∧
      ∃ ls', Stuck (exchange peer env actors) ll term peer l ls' := by
  by_cases leads : ((actors.1.observe env.1).sendAppendTo peer).role = .leader
  case neg => exact .inl (exchange_role leads)
  case pos =>
    have lt := h.lt_length
    have next := h.next
    have pos := h.acknowledged
    have compacted := h.compacted
    have ⟨ls₁, request, effect, d, w, matched, next₁, now, healthy⟩ :=
      (h.drives.observe env.1).waits (h.ready.observe clock) (.observe h.drives.alive ok.1)
        (by omega) (by omega) leads
    have replica := replica_sendAppendTo (a := actors.1.observe env.1) peer
    have stored : ((actors.1.observe env.1).sendAppendTo peer).snapshotIndex ≤ matchFor ls peer :=
      (congrArg Replica.snapshotIndex replica).trans_le h.stored
    rw [next] at next₁
    have ships := w.ships
    rw [next₁] at ships
    have sent := w.outstanding
    cases ships
    case install req reqTerm newer covered last lastTerm restores => omega
    case append req slice reqTerm prev more =>
      have ⟨b, hb, rb, tb, eq⟩ := handleAppendEntries_caughtUp (.observe h.alive ok.2)
        (reqTerm ▸ h.trails.term) (reqTerm ▸ authored) slice
      have tb : b.currentTerm = term := tb.trans reqTerm
      have same : b.snapshotIndex = actors.2.snapshotIndex := congrArg Replica.snapshotIndex rb
      have refused : b.appendFrom req = b.appendResp false (min b.lastLogIndex (req.prevLogIndex - 1)) :=
        appendFrom_compacted authored slice (by omega) (by omega)
      have ⟨c, ls₂, reply, d₂, _, rc, now₂, matched₂, next₂, idle⟩ := d.appendReply_rewound
        (matchFor ls peer + 1 - 1 + req.entries.length) w.pending w.current w.past
        (show (b.appendResp false (min b.lastLogIndex (req.prevLogIndex - 1))).2.success = false from rfl)
        tb rfl
      have active : Command.currentCommandProtocol ≤ c.commandProtocol :=
        h.active.trans_eq (commandProtocol_congr (rc.trans replica)).symm
      rw [maybeActivateCommandProtocol_active active] at reply
      rw [exchange_append sent (eq.trans refused) reply]
      rw [matched] at matched₂
      have floor : U64.saturatingAdd (matchFor ls₁ peer) 1 = matchFor ls peer + 1 := by
        rw [matched]
        exact Nat.min_eq_left (Nat.succ_le_of_lt (lt.trans_le d₂.carries.holds.fits))
      refine .inr ⟨now₂.trans now, ls₂, d₂, .inl idle, active, hb.alive, h.trails.congr rb tb.le,
        matched₂ ▸ pos, ?_, ?_, ?_⟩
      case refine_1 =>
        rw [next₂, next₁, floor, matched₂]
        omega
      case refine_2 =>
        rw [matched₂]
        exact (congrArg Replica.snapshotIndex rc).trans_le stored
      case refine_3 => exact matched₂ ▸ same ▸ compacted

theorem Stuck.rounds (h : Stuck actors ll term peer l ls) (env : Nat → Env × Env)
    (authored : Authored ll term) (ok : ∀ i, (env i).1.outcomes = [] ∧ (env i).2.outcomes = [])
    (clock : actors.1.now ≤ (env 0).1.now) (ticks : ∀ i, (env i).1.now ≤ (env (i + 1)).1.now) (n : Nat) :
    (rounds peer env actors n).1.role ≠ .leader ∨ (rounds peer env actors n).1.now ≤ (env n).1.now ∧
      ∃ ls', Stuck (rounds peer env actors n) ll term peer l ls' := by
  induction n
  case zero => exact .inr ⟨clock, ls, h⟩
  case succ n ih =>
    rcases ih with unled | ⟨clock, ls', h'⟩
    case inl => exact .inl (exchange_role (sendAppendTo_unled unled))
    case inr =>
      refine (h'.exchange authored (ok n) clock).imp_right fun ⟨now, ls₂, h₂⟩ => ⟨?_, ls₂, h₂⟩
      exact now.trans_le (ticks n)

end Stuck

section Compacted

-- A follower that holds the log of the leader and has compacted it up to the second entry.
def compacted : ShardActor Tally :=
  initial {
    shardId := 0, nodeId := "b", peers := ["a", "c"], dataDir := "", now := 0, nowMs := 0
    nowNanos := 0, timing := .default
  } { durableLen := 1, outcomes := [] } {
    currentTerm := 2, votedFor := none, commitIndex := 2, log := leaderLog.drop 2
    snapshot    := some { lastIncludedIndex := 2, lastIncludedTerm := 2, state := [] }
  } StateMachine.new

theorem compacted_trails : compacted.Trails leaderLog leaderLog 2 := by
  have carries : compacted.Carries leaderLog :=
    ⟨⟨rfl, by decide, rfl, by decide⟩, le_rfl, le_rfl, by decide, rfl, .inr rfl⟩
  exact (carries.trails le_rfl : compacted.Trails (leaderLog.take 3) leaderLog 2)

end Compacted

end ShardActor
