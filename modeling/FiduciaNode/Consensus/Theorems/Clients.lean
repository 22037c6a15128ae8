import FiduciaNode.Consensus.Run
import FiduciaNode.Consensus.Theorems.Apply

namespace Effect

def answered? : Effect → Option Nat
  | .answer client _ => some client
  | _ => none

-- Neither tells a client of success nor gives a proposal its place.
def Mute : Effect → Prop
  | .answer _ (.ok _) | .proposed .. => False
  | _ => True

end Effect

namespace ShardActor

variable {σ : Type} {a b : ShardActor σ} {commands : List Command} {held : List Nat}
  {es out out' : List Effect} {i : Nat}

section Definitions

def answered (out : List Effect) : List Nat :=
  out.filterMap Effect.answered?

def waiting (a : ShardActor σ) : List Nat :=
  a.pending.toList.map (·.2.client)

-- The entry carries the command of the client, in the form that the active protocol permits.
def Own (commands : List Command) (client : Nat) (entry : LogEntry) : Prop :=
  ∃ command protocol own, commands[client]? = some command ∧
    command.forActiveProtocol protocol = .ok own ∧ entry.command = some own

-- The proposal of a client was applied at its place, in the term in which it got that place, and the
-- commit index on disk covers it.
def Done (out : List Effect) (client index : Nat) (result : ApplyResult) : Prop :=
  ∃ entry hardState,
    .proposed client entry ∈ out ∧
    .applied index entry.term entry (some result) ∈ out ∧
    .disk (.writeMeta hardState) ∈ out ∧
    entry.index = index ∧
    index ≤ hardState.commitIndex

def Justified (shardId : Nat) (out : List Effect) : Prop :=
  ∀ before client outcome after, out = before ++ .answer client (.ok outcome) :: after →
    ∃ result, Done before client outcome.logIndex result ∧
      outcome = {
        shard := shardId, logIndex := outcome.logIndex, revision := result.revision
        output := result.output
      }

-- What a waiting client can count on: its entry is in the log and has not been applied yet.
def Promised (a : ShardActor σ) (index client : Nat) : Prop :=
  ∃ entry,
    a.entryAt? index = some entry ∧
    .proposed client entry ∈ a.out ∧
    entry.index = index ∧
    entry.term = a.currentTerm ∧
    a.lastApplied < index

end Definitions

section Outputs

@[simp]
theorem answered_append : answered (out ++ out') = answered out ++ answered out' :=
  List.filterMap_append

theorem waiting_of_empty (h : a.pending = ∅) : waiting a = [] := by
  rw [waiting, h]
  rfl

theorem Done.mono {client index : Nat} {result : ApplyResult} (d : Done out client index result)
    (sub : out ⊆ out') : Done out' client index result := by
  have ⟨entry, hardState, h₁, h₂, h₃, h⟩ := d
  exact ⟨entry, hardState, sub h₁, sub h₂, sub h₃, h⟩

theorem Justified.append {shardId : Nat} (j : Justified shardId out)
    (h : ∀ client outcome, .answer client (.ok outcome) ∈ es →
      ∃ result, Done out client outcome.logIndex result ∧
        outcome = {
          shard := shardId, logIndex := outcome.logIndex, revision := result.revision
          output := result.output
        }) : Justified shardId (out ++ es) := by
  intro before client outcome after eq
  -- The answer is either part of `out` or one of the new effects.
  cases List.append_eq_append_iff.mp eq
  case inl h' =>
    have ⟨rest, hb, hes⟩ := h'
    have ⟨result, d, ho⟩ := h client outcome (by rw [hes]; simp)
    exact ⟨result, d.mono (by rw [hb]; exact List.subset_append_left _ _), ho⟩
  case inr h' =>
    have ⟨rest, ho, hrest⟩ := h'
    cases rest
    case nil =>
      have ⟨result, d, ho'⟩ := h client outcome (by simp at hrest; rw [← hrest]; simp)
      exact ⟨result, by simpa [ho] using d, ho'⟩
    case cons e rest =>
      injection hrest with he hrest
      exact j before client outcome rest (by rw [ho, ← he])

theorem Justified.append_mute {shardId : Nat} (j : Justified shardId out) (mute : ∀ e ∈ es, e.Mute) :
    Justified shardId (out ++ es) :=
  j.append fun _ _ h => (mute _ h).elim

theorem Own.append {client : Nat} {entry : LogEntry} (o : Own commands client entry)
    (command : Command) : Own (commands ++ [command]) client entry := by
  have ⟨c, protocol, own, h, rest⟩ := o
  have lt : client < commands.length := (List.getElem?_eq_some_iff.mp h).1
  exact ⟨c, protocol, own, by rw [List.getElem?_append_left lt, h], rest⟩

-- Errors go to whoever waits.
theorem answered_errors (a : ShardActor σ) (error : ProposeError) :
    answered (a.pending.toList.map fun (_, p) => .answer p.client (.error error)) = waiting a := by
  rw [answered, waiting, List.filterMap_map, ← List.filterMap_eq_map]
  rfl

def clientsOf (completed : List Completed) : List Nat :=
  completed.map (·.pending.client)

theorem answered_completed (completed : List Completed)
    (result : Completed → Except ProposeError ProposeOutcome) :
    answered (completed.map fun c => .answer c.pending.client (result c)) = clientsOf completed := by
  rw [answered, clientsOf, List.filterMap_map, ← List.filterMap_eq_map]
  rfl

theorem onStore_saveMeta {hardState : Meta} (stored : a.store.isSome)
    (h : a.onStore (·.saveMeta hardState) = (b, none)) : .disk (.writeMeta hardState) ∈ b.out := by
  have ⟨store, hs⟩ := Option.isSome_iff_exists.mp stored
  simp only [onStore, hs, ShardStore.saveMeta, ShardStore.perform] at h
  split at h
  case h_1 | h_2 =>
    cases h
    simp
  case h_3 => simp at h

end Outputs

section Waiting

-- Nobody has been answered and nobody has come to wait.
def Since (a b : ShardActor σ) : Prop :=
  b.shardId = a.shardId ∧ b.pending = a.pending ∧
    ∃ es, b.out = a.out ++ es ∧ ∀ e ∈ es, e.Mute ∧ e.answered? = none

theorem Since.refl (a : ShardActor σ) : Since a a :=
  ⟨rfl, rfl, [], by simp, by simp⟩

theorem Since.of_eq (shard : b.shardId = a.shardId) (pending : b.pending = a.pending)
    (out : b.out = a.out) : Since a b :=
  ⟨shard, pending, [], by simp [out], by simp⟩

theorem Since.subset (h : Since a b) : a.out ⊆ b.out := by
  have ⟨_, _, es, out, _⟩ := h
  rw [out]
  exact List.subset_append_left _ _

theorem Since.trans {c : ShardActor σ} (h₁ : Since a b) (h₂ : Since b c) : Since a c := by
  have ⟨s₁, p₁, es₁, o₁, m₁⟩ := h₁
  have ⟨s₂, p₂, es₂, o₂, m₂⟩ := h₂
  refine ⟨s₂.trans s₁, p₂.trans p₁, es₁ ++ es₂, by rw [o₂, o₁, List.append_assoc], fun e he => ?_⟩
  cases List.mem_append.mp he
  case inl he => exact m₁ e he
  case inr he => exact m₂ e he

theorem since_emit {e : Effect} (mute : e.Mute) (silent : e.answered? = none) : Since a (a.emit e) :=
  ⟨rfl, rfl, [e], rfl, by simpa using ⟨mute, silent⟩⟩

theorem entryAt?_congr (h : b.replica = a.replica) (i : Nat) : b.entryAt? i = a.entryAt? i := by
  injection h with snapshot _ _ log
  rw [entryAt?, entryAt?, snapshot, log]

theorem entryAt?_eq_some {entry : LogEntry} :
    a.entryAt? i = some entry ↔ a.snapshotIndex < i ∧ a.log[i - a.snapshotIndex - 1]? = some entry := by
  rw [entryAt?]
  split
  case isTrue h => simp [h]
  case isFalse h => simp [not_le.mp h]

-- Applying an entry concerns nobody who waits for a later one.
theorem Promised.advance {client : Nat} (h : Promised a i client) (hi : i ≠ a.lastApplied + 1)
    (snapshot : b.snapshotIndex = a.snapshotIndex) (log : b.log = a.log)
    (term : b.currentTerm = a.currentTerm) (applied : b.lastApplied = a.lastApplied + 1)
    (out : a.out ⊆ b.out) : Promised b i client := by
  have ⟨e, h₁, h₂, h₃, h₄, h₅⟩ := h
  exact ⟨e, by rwa [entryAt?, snapshot, log, ← entryAt?], out h₂, h₃, by rw [term, h₄], by omega⟩

-- The answers that are being prepared are deserved.
def Completing (a : ShardActor σ) (completed : List Completed) : Prop :=
  ∀ c ∈ completed, Done a.out c.pending.client c.index c.result

-- Whoever waits for an entry up to `index` can be told that it is committed.
def Saved (a : ShardActor σ) (index : Nat) : Prop :=
  a.pending ≠ ∅ → ∃ hardState, .disk (.writeMeta hardState) ∈ a.out ∧ index ≤ hardState.commitIndex

theorem Completing.mono {completed : List Completed} (c : Completing a completed)
    (out : a.out ⊆ b.out) : Completing b completed :=
  fun x hx => (c x hx).mono out

-- The rest of what matters to the clients of an actor.
def core (a : ShardActor σ) :=
  (a.replica, a.role, a.currentTerm, a.preVoteTerm, a.storageFault, a.store.isSome)

-- Nothing has happened that matters to a client.
structure Quiet (a b : ShardActor σ) : Prop where
  since : Since a b
  core  : b.core = a.core

theorem Quiet.refl (a : ShardActor σ) : Quiet a a :=
  ⟨.refl a, rfl⟩

theorem quiet_emit {e : Effect} (mute : e.Mute) (silent : e.answered? = none) : Quiet a (a.emit e) :=
  ⟨since_emit mute silent, rfl⟩

theorem quiet_onStore (op : ShardStore → ShardStore.Result) : Quiet a (a.onStore op).1 := by
  simp only [onStore]
  cases h : a.store
  case none => exact .refl a
  case some store =>
    refine ⟨⟨rfl, rfl, (op store).2.1.map .disk, rfl, fun e he => ?_⟩, ?_⟩
    case refine_1 =>
      obtain ⟨step, _, he⟩ := List.mem_map.mp he
      exact he ▸ ⟨trivial, rfl⟩
    case refine_2 =>
      simp only [core, h]
      rfl

end Waiting

variable [StateMachine σ]

def activates (entry : LogEntry) : Bool :=
  entry.command.any fun
    | .activateCommandProtocol version => version = Command.currentCommandProtocol
    | _ => false

-- What has been applied is committed and in the log, and an applied activation has had its effect.
structure Ordered (r : Replica σ) : Prop where
  snapshot  : r.snapshotIndex ≤ r.lastApplied
  committed : r.lastApplied ≤ r.commitIndex
  logged    : r.lastApplied ≤ r.snapshotIndex + r.log.length
  activated : ∀ k entry, r.log[k]? = some entry → activates entry →
    r.snapshotIndex + k < r.lastApplied →
    Command.currentCommandProtocol ≤ StateMachine.commandProtocol r.state

structure Orderly (a : ShardActor σ) : Prop where
  ordered : Ordered a.replica
  polled  : a.preVoteTerm ≤ a.currentTerm + if a.role = .follower then 1 else 0
  fault   : a.storageFault.isSome → a.role = .follower
  stored  : a.storageFault = none → a.store.isSome

-- The clients are accounted for: those that were answered, those that wait and those whose answer
-- is being prepared.
structure Sound (commands : List Command) (held : List Nat) (a : ShardActor σ) : Prop
    extends Orderly a where
  clients   : (answered a.out ++ (waiting a ++ held)).Perm (List.range commands.length)
  idle      : a.role ≠ .leader → a.pending = ∅
  promised  : ∀ i p, a.pending[i]? = some p → Promised a i p.client
  justified : Justified a.shardId a.out
  own       : ∀ client entry, .proposed client entry ∈ a.out → Own commands client entry


section Steps

-- Clients only move from waiting or held to answered.
theorem Sound.step {held' : List Nat} (s : Sound commands held a) (orderly : Orderly b)
    (shard : b.shardId = a.shardId) (out : b.out = a.out ++ es) (mute : ∀ e ∈ es, e.Mute)
    (moved : (answered es ++ (waiting b ++ held')).Perm (waiting a ++ held))
    (idle : b.role ≠ .leader → b.pending = ∅)
    (promised : ∀ i p, b.pending[i]? = some p → Promised b i p.client) :
    Sound commands held' b where
  toOrderly := orderly
  clients   := by
    rw [out, answered_append, List.append_assoc]
    exact (moved.append_left _).trans s.clients
  idle      := idle
  promised  := promised
  justified := by
    rw [out, shard]
    exact s.justified.append_mute mute
  own       := by
    intro client entry h
    rw [out] at h
    cases List.mem_append.mp h
    case inl h => exact s.own client entry h
    case inr h => exact (mute _ h).elim

-- Whoever waits is answered with an error.
theorem Sound.drain (s : Sound commands held a) (es : List Effect) (orderly : Orderly b)
    (shard : b.shardId = a.shardId) (out : b.out = a.out ++ es) (mute : ∀ e ∈ es, e.Mute)
    (all : (answered es).Perm (waiting a)) (empty : b.pending = ∅) : Sound commands held b := by
  refine s.step orderly shard out mute ?_ (fun _ => empty) (by simp [empty])
  simpa [waiting_of_empty empty] using all.append_right held

theorem Orderly.quiet (o : Orderly a) (h : b.core = a.core) : Orderly b := by
  simp only [core, Prod.mk.injEq] at h
  obtain ⟨replica, role, term, poll, fault, store⟩ := h
  exact ⟨replica ▸ o.ordered, by rw [poll, term, role]; exact o.polled,
    by rw [fault, role]; exact o.fault, by rw [fault, store]; exact o.stored⟩

-- The log can change as long as the entries stay that clients may wait for.
theorem Sound.relog (s : Sound commands held a) (h : Since a b) (orderly : Orderly b)
    (role : b.role = a.role) (term : b.currentTerm = a.currentTerm)
    (applied : b.lastApplied = a.lastApplied)
    (entries : ∀ i entry, a.lastApplied < i → a.entryAt? i = some entry → b.entryAt? i = some entry) :
    Sound commands held b := by
  have ⟨hshard, hpend, es, out, mute⟩ := h
  have empty : answered es = [] := List.filterMap_eq_nil_iff.mpr fun e he => (mute e he).2
  refine s.step orderly hshard out (fun e he => (mute e he).1) ?_
    (by rw [role, hpend]; exact s.idle) ?_
  case refine_1 => rw [empty, waiting, waiting, hpend, List.nil_append]
  case refine_2 =>
    intro i p hp
    rw [hpend] at hp
    have ⟨e, h₁, h₂, h₃, h₄, h₅⟩ := s.promised i p hp
    exact ⟨e, entries i e h₅ h₁, by rw [out]; exact List.mem_append_left _ h₂, h₃, by rw [term, h₄],
      by rwa [applied]⟩

theorem Sound.quiet (s : Sound commands held a) (q : Quiet a b) : Sound commands held b := by
  have core := q.core
  simp only [ShardActor.core, Prod.mk.injEq] at core
  obtain ⟨replica, role, term, -⟩ := core
  refine s.relog q.since (s.toOrderly.quiet q.core) role term ?_ fun i entry _ he => ?_
  case refine_1 => exact congrArg Replica.lastApplied replica
  case refine_2 => exact (entryAt?_congr replica i).trans he

-- As long as nobody waits, an actor can change in any orderly way.
theorem Sound.idle_step (s : Sound commands held a) (empty : a.pending = ∅) (h : Since a b)
    (orderly : Orderly b) : Sound commands held b := by
  have ⟨hshard, hpend, es, out, mute⟩ := h
  have none_answered : answered es = [] := List.filterMap_eq_nil_iff.mpr fun e he => (mute e he).2
  exact s.drain _ orderly hshard out (fun e he => (mute e he).1)
    (by rw [none_answered, waiting_of_empty empty]) (hpend.trans empty)

end Steps

section Storage

theorem Sound.drainPending (s : Sound commands held a) (h : Since a b) (orderly : Orderly b)
    (error : ProposeError) : Sound commands held (b.drainPending error) := by
  have ⟨hshard, hpend, es, out, mute⟩ := h
  refine s.drain (es ++ b.pending.toList.map fun (_, p) => .answer p.client (.error error))
    ⟨orderly.ordered, orderly.polled, orderly.fault, orderly.stored⟩ hshard ?_ ?_ ?_ rfl
  case refine_1 =>
    simp only [ShardActor.drainPending]
    rw [out, List.append_assoc]
  case refine_2 =>
    intro e he
    cases List.mem_append.mp he
    case inl he => exact (mute e he).1
    case inr he =>
      have ⟨_, _, he⟩ := List.mem_map.mp he
      exact he ▸ trivial
  case refine_3 =>
    have : answered es = [] := List.filterMap_eq_nil_iff.mpr fun e he => (mute e he).2
    rw [answered_append, this, answered_errors, waiting, hpend, List.nil_append, waiting]

-- A storage fault ends whatever the actor was doing.
theorem Sound.failStorage (s : Sound commands held a) (h : Since a b)
    (ordered : Ordered b.replica) (polled : b.preVoteTerm ≤ b.currentTerm + 1)
    (operation error : String) : Sound commands held (b.failStorage operation error) := by
  refine s.drainPending (b := { b with
    storageFault := b.storageFault.or (some (operation ++ ": " ++ error)), role := .follower
    leaderId := none, leader := none, votes := ∅, preVotes := ∅
  }) (h.trans (.of_eq rfl rfl rfl)) ?_ _
  exact ⟨ordered, by simpa using polled, fun _ => rfl, by simp⟩

theorem Orderly.polled_succ (o : Orderly a) : a.preVoteTerm ≤ a.currentTerm + 1 := by
  have := o.polled
  split at this <;> omega

theorem Sound.stepDown (s : Sound commands held a) (term : Nat) (leader : Option String) :
    Sound commands held (a.stepDown term leader) := by
  simp only [ShardActor.stepDown]
  split
  case isTrue => exact s
  case isFalse hlt =>
    generalize hb : ({ (if term > a.currentTerm then { a with currentTerm := term, votedFor := none }
      else a) with role := .follower, leader := none, votes := ∅, leaderId := leader } : ShardActor σ)
      = b
    have since : Since a b := by
      subst hb
      split <;> exact .of_eq rfl rfl rfl
    have orderly : Orderly b := by
      have polled := s.polled_succ
      subst hb
      split
      case isTrue h => exact ⟨s.ordered, by simp only [if_true]; omega, fun _ => rfl, s.stored⟩
      case isFalse h => exact ⟨s.ordered, by simpa using polled, fun _ => rfl, s.stored⟩
    have q : Quiet b b.persistHardState.1 := quiet_onStore _
    generalize b.persistHardState = r at q
    obtain ⟨c, error⟩ := r
    have orderly := orderly.quiet q.core
    cases error
    case some error =>
      exact s.failStorage (since.trans q.since) orderly.ordered orderly.polled_succ _ _
    case none =>
      exact s.drainPending (b := c.resetElectionDeadline)
        (since.trans (q.since.trans (.of_eq rfl rfl rfl))) (orderly.quiet rfl) _

end Storage

section Apply

omit [StateMachine σ] in
theorem index_eq {index : Nat} (h : U64.checkedAdd a.lastLogIndex 1 = some index) :
    index = a.snapshotIndex + a.log.length + 1 := by
  have ⟨eq, le⟩ := U64.checkedAdd_eq_some_iff.mp h
  simp only [lastLogIndex, U64.saturatingAdd] at eq le
  omega

theorem Ordered.append {r : Replica σ} (o : Ordered r) (entry : LogEntry) :
    Ordered { r with log := r.log ++ [entry] } := by
  refine ⟨o.snapshot, o.committed, ?_, fun k e he ha hk => ?_⟩
  case refine_1 =>
    have := o.logged
    simp only [List.length_append, List.length_singleton]
    omega
  case refine_2 =>
    have hk : r.snapshotIndex + k < r.lastApplied := hk
    have := o.logged
    rw [List.getElem?_append_left (by omega)] at he
    exact o.activated k e he ha hk

theorem Ordered.apply {r : Replica σ} (o : Ordered r) (entry : LogEntry)
    (he : r.log[r.lastApplied - r.snapshotIndex]? = some entry) (hc : r.lastApplied < r.commitIndex) :
    Ordered { r with lastApplied := r.lastApplied + 1, state := applied r.state entry } := by
  have := o.snapshot
  have mono : StateMachine.commandProtocol r.state ≤
      StateMachine.commandProtocol (applied r.state entry) := by
    rw [applied]
    split
    case h_1 => exact le_rfl
    case h_2 => exact StateMachine.protocol_mono _ _ _
  refine ⟨Nat.le_succ_of_le o.snapshot, hc, ?_, fun k e hk ha lt => ?_⟩
  case refine_1 =>
    have := (List.getElem?_eq_some_iff.mp he).1
    simp only
    omega
  case refine_2 =>
    have lt : r.snapshotIndex + k < r.lastApplied + 1 := lt
    by_cases old : r.snapshotIndex + k < r.lastApplied
    case pos => exact (o.activated k e hk ha old).trans mono
    case neg =>
      have : k = r.lastApplied - r.snapshotIndex := by omega
      subst this
      cases he.symm.trans hk
      simp only [applied]
      cases hcmd : entry.command
      case none => simp [activates, hcmd] at ha
      case some command =>
        cases command
        case activateCommandProtocol version =>
          simp only [activates, hcmd, Option.any_some, decide_eq_true_eq] at ha
          subst ha
          exact StateMachine.protocol_activated _ _
        all_goals simp [activates, hcmd] at ha

theorem Sound.append_log (s : Sound commands held a) (entry : LogEntry) :
    Sound commands held { a with log := a.log ++ [entry] } := by
  refine s.relog (.of_eq rfl rfl rfl) ⟨s.ordered.append entry, s.polled, s.fault, s.stored⟩ rfl rfl rfl
    fun i e _ he => ?_
  rw [entryAt?_eq_some] at he ⊢
  exact ⟨he.1, List.getElem?_append_left (List.getElem?_eq_some_iff.mp he.2).1 ▸ he.2⟩

theorem Sound.maybeCompact (s : Sound commands held a) : Sound commands held a.maybeCompact := by
  simp only [ShardActor.maybeCompact]
  split
  case isTrue => exact s
  case isFalse =>
    split
    case h_1 => exact s
    case h_2 state _ =>
      have q := quiet_onStore (a := a) (·.saveSnapshot
        ⟨a.lastApplied, a.termAt a.lastApplied, state⟩ (a.log.drop (a.lastApplied - a.snapshotIndex)))
      generalize a.onStore _ = r at q ⊢
      obtain ⟨c, error⟩ := r
      have s' := s.quiet q
      cases error
      case some error => exact s'.failStorage (.refl _) s'.ordered s'.polled_succ _ _
      case none =>
        have replica := congrArg Prod.fst q.core
        injection replica with hsnap _ _ hlog hcommit happ _
        have happ : c.lastApplied = a.lastApplied := happ
        have ordered := s'.ordered
        refine s'.relog (.of_eq rfl rfl rfl) ⟨⟨happ.ge, ordered.committed, ?_, ?_⟩, s'.polled, s'.fault,
          s'.stored⟩ rfl rfl rfl ?_
        case refine_1 => exact happ.le.trans (Nat.le_add_right _ _)
        case refine_2 =>
          intro k entry _ _ (hk : a.lastApplied + k < c.lastApplied)
          omega
        -- Dropping what has been applied does not move the entries after it.
        intro i e (hi : c.lastApplied < i) he
        have : a.snapshotIndex ≤ a.lastApplied := s.ordered.snapshot
        rw [entryAt?_eq_some] at he ⊢
        simp only at he ⊢
        rw [hlog, hsnap] at he
        refine ⟨by omega, ?_⟩
        rw [List.getElem?_drop, ← he.2]
        congr 1
        omega

theorem Sound.applyEntry {completed : List Completed} {entry : LogEntry}
    (s : Sound commands (clientsOf completed ++ held) a) (c : Completing a completed)
    (he : a.entryAt? (a.lastApplied + 1) = some entry) (saved : Saved a a.commitIndex)
    (hn : a.lastApplied < a.commitIndex) :
    ∃ b completed', a.applyEntry completed (a.lastApplied + 1) entry = (b, completed') ∧
      Sound commands (clientsOf completed' ++ held) b ∧
      Completing b completed' ∧
      Saved b b.commitIndex ∧
      b.commitIndex = a.commitIndex ∧
      b.lastApplied = a.lastApplied + 1 := by
  have ordered := s.ordered.apply entry (by
    have := (entryAt?_eq_some.mp he).2
    rwa [show a.lastApplied + 1 - a.snapshotIndex - 1 = a.lastApplied - a.snapshotIndex by omega]
      at this) hn
  -- The entry that a client waits for at this place is the one that is applied.
  have own {p : PendingProposal} (hp : a.pending[a.lastApplied + 1]? = some p) :
      .proposed p.client entry ∈ a.out ∧ entry.index = a.lastApplied + 1 ∧
        entry.term = a.currentTerm := by
    have ⟨e, h₁, h₂, h₃, h₄, _⟩ := s.promised _ p hp
    cases h₁.symm.trans he
    exact ⟨h₂, h₃, h₄⟩
  simp only [ShardActor.applyEntry]
  cases hc : entry.command
  case none =>
    simp only [applied, hc] at ordered
    refine ⟨_, _, rfl, ?_, c.mono (List.subset_append_left _ _), fun h => ?_, rfl, rfl⟩
    case refine_1 =>
      refine s.step ⟨ordered, s.polled, s.fault, s.stored⟩ rfl
        (show _ = a.out ++ [_] from rfl) (by simp [Effect.Mute])
        (.refl _) s.idle fun i p hp => ?_
      refine (s.promised i p hp).advance (fun hi => ?_) rfl rfl rfl rfl (List.subset_append_left _ _)
      obtain ⟨_, _, _, _, _, h⟩ := s.own _ _ (own (hi ▸ hp)).1
      simp [hc] at h
    case refine_2 =>
      obtain ⟨m, h₁, h₂⟩ := saved h
      exact ⟨m, List.mem_append_left _ h₁, h₂⟩
  case some command =>
    simp only [applied, hc, replica] at ordered ⊢
    generalize StateMachine.applyAt a.state command entry.proposedAtMs = r at ordered ⊢
    obtain ⟨state, result⟩ := r
    obtain ⟨out, eq, events⟩ := publishChange_eq (a := emit { a with
      lastApplied := a.lastApplied + 1, state } (.applied (a.lastApplied + 1) a.currentTerm entry
      (some result))) command result.output result.revision
    simp only [emit] at eq ⊢
    rw [eq]
    have silent : ∀ e ∈ .applied (a.lastApplied + 1) a.currentTerm entry (some result) :: out,
        e.Mute ∧ e.answered? = none := by
      intro e h
      cases List.mem_cons.mp h
      case inl h => exact h ▸ ⟨trivial, rfl⟩
      case inr h =>
        obtain ⟨event, h⟩ := events e h
        exact h ▸ ⟨trivial, rfl⟩
    have unanswered : answered (.applied (a.lastApplied + 1) a.currentTerm entry (some result) :: out) =
        [] :=
      List.filterMap_eq_nil_iff.mpr fun e h => (silent e h).2
    have sub : a.out ⊆ a.out ++ [.applied (a.lastApplied + 1) a.currentTerm entry (some result)] ++
        out :=
      fun e h => List.mem_append_left _ (List.mem_append_left _ h)
    split
    case h_1 hp =>
      refine ⟨_, _, rfl, ?_, c.mono sub, fun h => ?_, rfl, rfl⟩
      case refine_1 =>
        refine s.step ⟨ordered, s.polled, s.fault, s.stored⟩ rfl (List.append_assoc _ [_] out)
          (fun e h => (silent e h).1) ?_ s.idle fun i p h => ?_
        case refine_1 =>
          rw [List.singleton_append, unanswered]
          exact .refl _
        case refine_2 =>
          refine (s.promised i p h).advance (fun hi => ?_) rfl rfl rfl rfl sub
          rw [hi] at h
          exact absurd (h.symm.trans hp) (by simp)
      case refine_2 =>
        obtain ⟨m, h₁, h₂⟩ := saved h
        exact ⟨m, sub h₁, h₂⟩
    case h_2 p hp =>
      obtain ⟨m, saved, covers⟩ := saved fun h => by simp [h] at hp
      refine ⟨_, _, rfl, ?_, fun x hx => ?_, fun h => ⟨m, sub saved, covers⟩, rfl, rfl⟩
      case refine_1 =>
        refine s.step ⟨ordered, s.polled, s.fault, s.stored⟩ rfl (List.append_assoc _ [_] out)
          (fun e h => (silent e h).1) ?_ (fun h => ?_) fun i p h => ?_
        case refine_1 =>
          rw [List.singleton_append, unanswered, clientsOf, List.map_append, List.nil_append]
          have := (HashMap.toList_erase_perm hp).map (·.2.client)
          rw [List.map_cons] at this
          refine .trans ?_ (this.symm.append_right _)
          refine .trans ?_ List.perm_middle
          refine .append_left _ ?_
          simp [clientsOf]
        case refine_2 =>
          have := s.idle h
          simp [this] at hp
        case refine_3 =>
          simp only [HashMap.get_erase] at h
          split at h
          case isTrue => contradiction
          case isFalse ne =>
            exact (s.promised i p h).advance (Ne.symm ne) rfl rfl rfl rfl sub
      case refine_2 =>
        cases List.mem_append.mp hx
        case inl hx => exact (c x hx).mono sub
        case inr hx =>
          cases List.mem_singleton.mp hx
          obtain ⟨h₁, h₂, h₃⟩ := own hp
          refine ⟨entry, m, sub h₁, ?_, sub saved, h₂, Nat.le_trans hn covers⟩
          rw [h₃]
          exact List.mem_append_left _ (List.mem_append_right _ (by simp))

theorem Sound.applyLoop {fuel : Nat} {completed : List Completed}
    (s : Sound commands (clientsOf completed ++ held) a) (c : Completing a completed)
    (saved : Saved a a.commitIndex) (hn : fuel ≤ a.commitIndex - a.lastApplied) :
    ∃ b completed' finished, a.applyLoop completed fuel = (b, completed', finished) ∧
      Sound commands (clientsOf completed' ++ held) b ∧ Completing b completed' := by
  induction fuel generalizing a completed
  case zero => exact ⟨a, completed, true, rfl, s, c⟩
  case succ fuel ih =>
    simp only [ShardActor.applyLoop]
    have failed (operation error : String) :
        Sound commands (clientsOf completed ++ held) (a.failStorage operation error) ∧
        Completing (a.failStorage operation error) completed :=
      ⟨s.failStorage (.refl a) s.ordered s.polled_succ _ _, c.mono (List.subset_append_left _ _)⟩
    split
    case h_1 => exact ⟨_, _, _, rfl, failed _ _⟩
    case h_2 index hi =>
      obtain ⟨hi, _⟩ := U64.checkedAdd_eq_some_iff.mp hi
      subst hi
      split
      case h_1 => exact ⟨_, _, _, rfl, failed _ _⟩
      case h_2 entry he =>
        obtain ⟨b, completed', eq, s', c', saved', commit, applied⟩ := s.applyEntry c he saved (by omega)
        have hn : fuel ≤ b.commitIndex - b.lastApplied := by omega
        rw [eq]
        exact ih s' c' saved' hn

theorem Sound.failCompleted {completed : List Completed}
    (s : Sound commands (clientsOf completed ++ held) a) :
    Sound commands held (a.failCompleted completed) := by
  refine s.step ⟨s.ordered, s.polled, s.fault, s.stored⟩ rfl rfl ?_ ?_ s.idle fun i p h => ?_
  case refine_1 =>
    intro e he
    have ⟨_, _, he⟩ := List.mem_map.mp he
    exact he ▸ trivial
  case refine_2 =>
    rw [answered_completed, ← List.append_assoc, ← List.append_assoc]
    exact List.perm_append_comm.append_right _
  case refine_3 =>
    have ⟨e, h₁, h₂, h⟩ := s.promised i p h
    exact ⟨e, h₁, List.mem_append_left _ h₂, h⟩

theorem Sound.succeed {completed : List Completed}
    (s : Sound commands (clientsOf completed ++ held) a) (c : Completing a completed) :
    Sound commands held (a.succeed completed) where
  toOrderly := ⟨s.ordered, s.polled, s.fault, s.stored⟩
  clients   := by
    simp only [ShardActor.succeed]
    rw [answered_append, answered_completed, List.append_assoc]
    refine .trans (.append_left _ ?_) s.clients
    rw [← List.append_assoc, ← List.append_assoc]
    exact List.perm_append_comm.append_right _
  idle      := s.idle
  promised  := by
    intro i p h
    have ⟨e, h₁, h₂, h⟩ := s.promised i p h
    exact ⟨e, h₁, List.mem_append_left _ h₂, h⟩
  justified := by
    refine s.justified.append fun client outcome h => ?_
    have ⟨x, hx, eq⟩ := List.mem_map.mp h
    cases eq
    exact ⟨x.result, c x hx, rfl⟩
  own       := by
    intro client entry h
    cases List.mem_append.mp h
    case inl h => exact s.own client entry h
    case inr h => simp at h

theorem subset_maybeCompact : a.out ⊆ a.maybeCompact.out := by
  simp only [maybeCompact]
  split
  case isTrue => exact List.Subset.refl _
  case isFalse =>
    split
    case h_1 => exact List.Subset.refl _
    case h_2 state _ =>
      have q := quiet_onStore (a := a) (·.saveSnapshot
        ⟨a.lastApplied, a.termAt a.lastApplied, state⟩ (a.log.drop (a.lastApplied - a.snapshotIndex)))
      generalize a.onStore _ = r at q ⊢
      obtain ⟨c, error⟩ := r
      have sub : a.out ⊆ c.out := q.since.subset
      cases error
      case some error => exact List.Subset.trans sub (List.subset_append_left _ _)
      case none => exact sub

theorem Sound.applyCommitted (s : Sound commands held a) (saved : Saved a a.commitIndex) :
    Sound commands held a.applyCommitted := by
  have empty : Sound commands (clientsOf [] ++ held) a := s
  have ⟨b, completed, finished, eq, s', c⟩ := empty.applyLoop (by simp [Completing]) saved le_rfl
  simp only [ShardActor.applyCommitted, eq]
  split
  case isTrue => exact s'.failCompleted
  case isFalse =>
    split
    case isTrue => exact s'.maybeCompact.failCompleted
    case isFalse => exact s'.maybeCompact.succeed (c.mono subset_maybeCompact)

end Apply

section Commit

theorem Sound.commitTo {index : Nat} (s : Sound commands held a) (hi : a.lastApplied ≤ index)
    (operation : String) : Sound commands held (a.commitTo index operation) := by
  have q : Quiet a (a.persistHardStateAt index).1 := quiet_onStore _
  simp only [ShardActor.commitTo]
  cases h : a.persistHardStateAt index
  case mk c error =>
    rw [h] at q
    have s' := s.quiet q
    cases error
    case some error => exact s'.failStorage (.refl c) s'.ordered s'.polled_succ _ _
    case none =>
      have ordered := s'.ordered
      have hi : c.lastApplied ≤ index := by
        have := congrArg (Replica.lastApplied ·.1) q.core
        exact this.le.trans hi
      have s'' : Sound commands held { c with commitIndex := index } :=
        s'.relog (.of_eq rfl rfl rfl) ⟨⟨ordered.snapshot, hi, ordered.logged, ordered.activated⟩,
          s'.polled, s'.fault, s'.stored⟩ rfl rfl rfl fun _ _ _ => id
      refine s''.applyCommitted fun waiting =>
        ⟨_, onStore_saveMeta (b := c) (s.stored ?_) h, le_rfl⟩
      -- Clients only wait for a leader, and a leader has had no fault.
      by_contra fault
      have waiting : c.pending ≠ ∅ := waiting
      rw [q.since.2.1] at waiting
      have follower := s.fault (Option.isSome_iff_ne_none.mpr fault)
      exact waiting (s.idle (by rw [follower]; decide))

end Commit

section Send

variable [PeerPlane]

theorem Sound.sendAppendTo (s : Sound commands held a) (peer : String) :
    Sound commands held (a.sendAppendTo peer) := by
  simp only [ShardActor.sendAppendTo]
  split
  case isTrue => exact s
  case isFalse =>
    split
    case h_1 => exact s
    case h_2 ls hl =>
      split
      case isTrue => exact s
      case isFalse =>
        split
        case h_1 => exact s.stepDown _ _
        case h_2 sequence _ =>
          have s' (ls : LeaderState) : Sound commands held { a with leader := some ls } :=
            s.quiet ⟨.of_eq rfl rfl rfl, rfl⟩
          split
          case isTrue | isFalse => exact (s' _).quiet (quiet_emit trivial rfl)

theorem Sound.broadcastAppendEntries (s : Sound commands held a) :
    Sound commands held a.broadcastAppendEntries := by
  simp only [ShardActor.broadcastAppendEntries]
  split
  case isTrue => exact s
  case isFalse h =>
    clear h
    generalize a.peers = peers
    induction peers generalizing a
    case nil => exact s
    case cons peer peers ih => exact ih (s.sendAppendTo peer)

end Send

end ShardActor
