import FiduciaNode.Consensus.Exchange
import FiduciaNode.Consensus.Theorems.Callbacks
import FiduciaNode.Consensus.Theorems.FollowerCommit

-- The state machine reads back what it has written.
class Lossless (σ : Type) [StateMachine σ] : Prop where
  restore_snapshot : ∀ (state : σ) bytes,
    StateMachine.snapshot state = some bytes → StateMachine.restore bytes = .ok state

instance : Lossless Tally where
  restore_snapshot state bytes h := by
    obtain rfl : List.replicate state.commands 0 = bytes := Option.some.inj h
    simp [StateMachine.restore]

namespace ShardStore

-- The operation succeeds if no failure is due.
def Safe (op : ShardStore → Result) : Prop :=
  ∀ store, store.outcomes = [] → (op store).1.outcomes = [] ∧ (op store).2.2 = none

theorem perform_of_nil {store : ShardStore} (h : store.outcomes = []) (steps : List DiskStep) :
    store.perform steps = (store, steps, none) := by
  rw [perform, h]

theorem safe_saveMeta (hardState : Meta) : Safe (·.saveMeta hardState) := by
  intro store h
  simp only [saveMeta, perform_of_nil h]
  exact ⟨h, trivial⟩

theorem safe_appendTail (log : List LogEntry) : Safe (·.appendTail log) := by
  intro store h
  simp only [appendTail]
  split
  case isTrue => exact ⟨h, rfl⟩
  case isFalse =>
    rw [perform_of_nil h]
    exact ⟨h, rfl⟩

theorem safe_rewrite (log : List LogEntry) : Safe (·.rewrite log) := by
  intro store h
  simp only [rewrite, perform_of_nil h]
  exact ⟨h, rfl⟩

theorem safe_saveSnapshot (snapshot : PersistedSnapshot) (remaining : List LogEntry) :
    Safe (·.saveSnapshot snapshot remaining) := by
  intro store h
  simp only [saveSnapshot, perform_of_nil h]
  exact ⟨h, rfl⟩

end ShardStore

namespace ShardActor

variable {σ : Type} {a b c : ShardActor σ} {l : List LogEntry}

-- Storage has not failed, and it will not fail in the event at hand.
structure Healthy (a : ShardActor σ) : Prop where
  alive : a.storageFault = none
  store : ∀ store, a.store = some store → store.outcomes = []

-- Only what comes with the log and the state machine is different.
def Settles (a b : ShardActor σ) : Prop :=
  b = { a with
    snapshotIndex := b.snapshotIndex
    snapshotTerm  := b.snapshotTerm
    snapshotState := b.snapshotState
    log           := b.log
    commitIndex   := b.commitIndex
    lastApplied   := b.lastApplied
    store         := b.store
    pending       := b.pending
    state         := b.state
    out           := b.out
  }

section Basic

theorem Settles.refl (a : ShardActor σ) : Settles a a :=
  rfl

theorem Settles.trans (h₁ : Settles a b) (h₂ : Settles b c) : Settles a c := by
  rw [Settles, h₂]
  rw [h₁]

theorem Settles.role (h : Settles a b) : b.role = a.role := by
  rw [h]

theorem Settles.term (h : Settles a b) : b.currentTerm = a.currentTerm := by
  rw [h]

theorem Settles.leader (h : Settles a b) : b.leader = a.leader := by
  rw [h]

theorem Settles.peers (h : Settles a b) : b.peers = a.peers := by
  rw [h]

theorem Settles.now (h : Settles a b) : b.now = a.now := by
  rw [h]

theorem Healthy.observe (alive : a.storageFault = none) {env : Env} (h : env.outcomes = []) :
    (a.observe env).Healthy where
  alive      := alive
  store s hs := by
    obtain ⟨_, _, rfl⟩ := Option.map_eq_some_iff.mp hs
    exact h

-- What a successful operation on the store leaves.
structure Stores (a b : ShardActor σ) : Prop where
  healthy : b.Healthy
  settles : Settles a b
  replica : b.replica = a.replica
  adds    : Adds a b

theorem Healthy.onStore (h : a.Healthy) {op : ShardStore → ShardStore.Result} (safe : ShardStore.Safe op) :
    ∃ b, a.onStore op = (b, none) ∧ Stores a b := by
  cases hs : a.store
  case none =>
    refine ⟨a, by rw [ShardActor.onStore, hs], h, .refl a, rfl, .of_eq rfl⟩
  case some store =>
    obtain ⟨outcomes, ok⟩ := safe store (h.store store hs)
    refine ⟨{ a with store := some (op store).1, out := a.out ++ (op store).2.1.map .disk }, ?_,
      ⟨h.alive, fun s eq => Option.some.inj eq ▸ outcomes⟩, rfl, rfl, _, rfl, ?_⟩
    case refine_1 =>
      rw [ShardActor.onStore, hs]
      simp only
      rw [← ok]
    case refine_2 =>
      intro effect mem
      obtain ⟨_, _, rfl⟩ := List.mem_map.mp mem
      exact ⟨rfl, rfl⟩

theorem Healthy.persistHardStateAt (h : a.Healthy) (n : Nat) :
    ∃ b, a.persistHardStateAt n = (b, none) ∧ Stores a b :=
  h.onStore (ShardStore.safe_saveMeta _)

theorem Healthy.persistLogAppend (h : a.Healthy) : ∃ b, a.persistLogAppend = (b, none) ∧ Stores a b :=
  h.onStore (ShardStore.safe_appendTail _)

end Basic

section Apply

variable [StateMachine σ]

-- The actor holds the log and has applied what it says it has.
structure Carries (a : ShardActor σ) (l : List LogEntry) : Prop where
  holds     : a.Holds l
  snapshot  : a.snapshotIndex ≤ a.lastApplied
  applied   : a.lastApplied ≤ a.commitIndex
  committed : a.commitIndex ≤ l.length
  state     : a.state = replay (l.take a.lastApplied)
  bytes     : a.snapshotIndex = 0 ∨
    StateMachine.restore a.snapshotState = .ok (replay (l.take a.snapshotIndex) : σ)

theorem Carries.congr (h : a.Carries l) (r : b.replica = a.replica) : b.Carries l := by
  have holds := h.holds.congr r
  injection r with hs _ hb _ hc ha hst
  exact ⟨holds, hs ▸ ha ▸ h.snapshot, ha ▸ hc ▸ h.applied, hc ▸ h.committed, by rw [hst, ha, h.state],
    by rw [hs, hb]; exact h.bytes⟩

theorem Carries.commitTo (h : a.Carries l) {n : Nat} (le : a.commitIndex ≤ n) (fits : n ≤ l.length) :
    Carries { a with commitIndex := n } l :=
  ⟨⟨h.holds.log, h.holds.snapshot, h.holds.term, h.holds.fits⟩, h.snapshot, h.applied.trans le, fits,
    h.state, h.bytes⟩

-- How far an actor has got that goes on with its log.
structure Settled (a b : ShardActor σ) (l : List LogEntry) : Prop where
  healthy  : b.Healthy
  settles  : Settles a b
  adds     : Adds a b
  carries  : b.Carries l
  commit   : b.commitIndex = a.commitIndex
  protocol : a.commandProtocol ≤ b.commandProtocol
  log      : ∀ entry ∈ b.log, entry ∈ a.log

theorem Settled.trans (h₁ : Settled a b l) (h₂ : Settled b c l) : Settled a c l where
  healthy        := h₂.healthy
  settles        := h₁.settles.trans h₂.settles
  adds           := h₁.adds.trans h₂.adds
  carries        := h₂.carries
  commit         := h₂.commit.trans h₁.commit
  protocol       := h₁.protocol.trans h₂.protocol
  log entry mem  := h₁.log entry (h₂.log entry mem)

theorem Carries.maybeCompact [Lossless σ] (c : a.Carries l) (h : a.Healthy) :
    Settled a a.maybeCompact l := by
  have still : Settled a a l := ⟨h, .refl a, .of_eq rfl, c, rfl, le_rfl, fun _ => id⟩
  simp only [ShardActor.maybeCompact]
  split
  case isTrue => exact still
  case isFalse =>
    split
    case h_1 => exact still
    case h_2 bytes taken =>
      obtain ⟨b, eq, s⟩ := h.onStore (ShardStore.safe_saveSnapshot
        ⟨a.lastApplied, a.termAt a.lastApplied, bytes⟩ (a.log.drop (a.lastApplied - a.snapshotIndex)))
      simp only [eq]
      have cb := c.congr s.replica
      have hb := s.replica
      injection hb with hs ht _ hl hc ha hst
      have length := c.applied.trans c.committed
      refine ⟨⟨s.healthy.alive, s.healthy.store⟩, ?_, s.adds, ?_, hc, (commandProtocol_congr s.replica).ge,
        fun _ => List.mem_of_mem_drop⟩
      case refine_1 =>
        rw [Settles]
        conv_lhs => rw [s.settles]
      case refine_2 =>
        refine ⟨⟨?_, length, ?_, c.holds.fits⟩, ha.ge, ha.le.trans (c.applied.trans hc.ge),
          hc.le.trans c.committed, by simp only [hst, ha, c.state], .inr ?_⟩
        case refine_1 =>
          simp only
          rw [c.holds.log, List.drop_drop]
          congr 1
          have := c.snapshot
          omega
        case refine_2 => exact c.holds.termAt c.snapshot
        case refine_3 =>
          rw [Lossless.restore_snapshot _ _ taken, c.state]

theorem le_foldl_commandProtocol (entries : List LogEntry) (state : σ) :
    StateMachine.commandProtocol state ≤ StateMachine.commandProtocol (entries.foldl applied state) := by
  induction entries generalizing state
  case nil => exact le_rfl
  case cons entry entries ih => exact (le_applied_commandProtocol state entry).trans (ih _)

theorem replay_take {n m : Nat} (le : n ≤ m) :
    (((l.drop n).take (m - n)).foldl applied (replay (l.take n)) : σ) = replay (l.take m) := by
  rw [replay, replay, ← List.foldl_append]
  congr 1
  rw [← List.take_append_drop n (l.take m), List.take_take, Nat.min_eq_left le, List.drop_take]

theorem Carries.applyCommitted [Lossless σ] (c : a.Carries l) (h : a.Healthy) :
    Settled a a.applyCommitted l := by
  have fuel : a.lastApplied + (a.commitIndex - a.lastApplied) ≤ l.length := by
    have := c.applied
    have := c.committed
    omega
  have ⟨p, out, eq, finished, aside⟩ := applyLoop_eq c.holds c.snapshot fuel []
  generalize hr : a.applyLoop [] (a.commitIndex - a.lastApplied) = r at eq finished
  obtain ⟨b, completed, f⟩ := r
  simp only at eq finished
  have reached : b.lastApplied = a.commitIndex := by
    rw [eq]
    exact Nat.add_sub_cancel' c.applied
  have cb : b.Carries l := by
    have holds : b.Holds l := by
      rw [eq]
      exact ⟨c.holds.log, c.holds.snapshot, c.holds.term, c.holds.fits⟩
    have commit : b.commitIndex = a.commitIndex := by rw [eq]
    have snapshot : b.snapshotIndex = a.snapshotIndex := by rw [eq]
    refine ⟨holds, ?_, by omega, by rw [commit]; exact c.committed, ?_, ?_⟩
    case refine_1 =>
      rw [reached, snapshot]
      exact c.snapshot.trans c.applied
    case refine_2 =>
      rw [reached, eq]
      simp only [c.state]
      exact replay_take c.applied
    case refine_3 =>
      rw [eq]
      exact c.bytes
  have caughtUp : Settled a b l := by
    refine ⟨?_, by rw [eq]; rfl, ⟨out, by rw [eq], fun effect mem => ?_⟩, cb, by rw [eq], ?_,
      by rw [eq]; exact fun _ => id⟩
    case refine_1 =>
      rw [eq]
      exact ⟨h.alive, h.store⟩
    case refine_2 =>
      rcases aside effect mem with ⟨i, entry, _, _, _, ⟨event, rfl⟩ | ⟨result, rfl⟩⟩
      all_goals exact ⟨rfl, rfl⟩
    case refine_3 =>
      rw [eq]
      exact le_foldl_commandProtocol _ a.state
  have compacted := cb.maybeCompact caughtUp.healthy
  have answered (d : ShardActor σ) (h : d.Healthy) (c : d.Carries l) : Settled d (d.succeed completed) l := by
    refine ⟨⟨h.alive, h.store⟩, rfl, ⟨_, rfl, fun effect mem => ?_⟩, c.congr rfl, rfl, le_rfl, fun _ => id⟩
    obtain ⟨_, _, rfl⟩ := List.mem_map.mp mem
    exact ⟨rfl, rfl⟩
  simp only [ShardActor.applyCommitted, hr, finished, Bool.not_true, Bool.false_eq_true, if_false,
    compacted.healthy.alive, Option.isSome_none]
  exact (caughtUp.trans compacted).trans (answered _ compacted.healthy compacted.carries)

theorem Carries.commitTo_settled [Lossless σ] (c : a.Carries l) (h : a.Healthy) {n : Nat}
    (le : a.commitIndex ≤ n) (fits : n ≤ l.length) (operation : String) :
    Settled { a with commitIndex := n } (a.commitTo n operation) l := by
  have ⟨b, eq, s⟩ := h.persistHardStateAt n
  have cb := (c.congr s.replica).commitTo (n := n)
    ((congrArg Replica.commitIndex s.replica).le.trans le) fits
  have settled := cb.applyCommitted ⟨s.healthy.alive, s.healthy.store⟩
  simp only [ShardActor.commitTo, eq]
  have first : Settled { a with commitIndex := n } { b with commitIndex := n } l := by
    refine ⟨⟨s.healthy.alive, s.healthy.store⟩, ?_, s.adds, cb, rfl, (commandProtocol_congr s.replica).ge, ?_⟩
    case refine_1 =>
      rw [Settles]
      conv_lhs => rw [s.settles]
    case refine_2 =>
      have : b.log = a.log := congrArg Replica.log s.replica
      simp [this]
  exact first.trans settled

end Apply

end ShardActor
