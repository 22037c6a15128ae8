import FiduciaNode.Consensus.Theorems.Refinement.Deeds

namespace Disk

-- Opening rewrites the log file, and the first opening writes the hard state.
def canonicalWrites (d : Disk) (log : List LogEntry) : List DiskStep :=
  .writeLog log :: if d.hardState.isSome then [] else [.writeMeta ⟨0, none, 0⟩]

end Disk

namespace ShardStore

theorem performs_canonicalize (store : ShardStore) (d : Disk) (log : List LogEntry) :
    Performs (d.canonicalWrites log) log.length (store.canonicalize d log) := by
  have p : Performs [.writeLog log] log.length (store.rewrite log) :=
    (store.performs_perform _).replacing
  simp only [canonicalize, Disk.canonicalWrites]
  generalize store.rewrite log = r at p
  obtain ⟨store', steps, error⟩ := r
  cases error
  case some error =>
    have ⟨k, cut⟩ := p.cut
    refine ⟨by simp, min k 1, ?_⟩
    simp only at cut ⊢
    rw [cut]
    cases k
    case zero => rfl
    case succ k => simp
  case none =>
    have ⟨len, all⟩ := p.done rfl
    simp only at len all ⊢
    subst all
    split
    case isTrue => exact ⟨fun _ => ⟨len, rfl⟩, 1, rfl⟩
    case isFalse =>
      have p' := store'.performs_perform [.writeMeta ⟨0, none, 0⟩]
      rw [saveMeta]
      generalize store'.perform [.writeMeta ⟨0, none, 0⟩] = r' at p'
      obtain ⟨store'', steps', error'⟩ := r'
      refine ⟨fun ok => ⟨((p'.done ok).1.trans len :), ?_⟩, ?_⟩
      case refine_1 =>
        have := (p'.done ok).2
        simp only at this
        rw [this]
        rfl
      case refine_2 =>
        obtain ⟨k, cut⟩ := p'.cut
        refine ⟨k + 1, ?_⟩
        simp only at cut ⊢
        rw [cut]
        rfl

end ShardStore

namespace ShardActor

variable {σ : Type} {o : Occasion} {a : ShardActor σ}

-- The indices of the log go on from the snapshot.
def Indexed (snapshotIndex : Nat) (log : List LogEntry) : Prop :=
  ∀ k entry, log[k]? = some entry → entry.index = snapshotIndex + k + 1 ∧ entry.index ≤ U64.max

theorem contiguous_indexed {shardId snapshotIndex offset : Nat} {log : List LogEntry}
    (h : contiguous shardId snapshotIndex offset log = .ok ()) :
    Indexed (snapshotIndex + offset) log := by
  induction log generalizing offset
  case nil => simp [Indexed]
  case cons entry log ih =>
    simp only [contiguous] at h
    split at h
    case h_1 => contradiction
    case h_2 expected next =>
      split at h
      case isTrue => contradiction
      case isFalse same =>
        intro k x hk
        cases k
        case zero =>
          obtain rfl := Option.some.inj hk
          have ⟨first, bound, next⟩ := Option.bind_eq_some_iff.mp next
          have := (U64.checkedAdd_eq_some_iff.mp bound).1
          have := U64.checkedAdd_eq_some_iff.mp next
          omega
        case succ k =>
          have := ih h k x hk
          omega

theorem Indexed.tail {snapshotIndex : Nat} {log : List LogEntry} (h : Indexed snapshotIndex log) :
    log.getLast?.elim snapshotIndex (·.index) = snapshotIndex + log.length := by
  cases hl : log.getLast?
  case none => simp [List.getLast?_eq_none_iff.mp hl]
  case some entry =>
    have ne : log.length ≠ 0 := fun h => by simp [List.length_eq_zero_iff.mp h] at hl
    rw [List.getLast?_eq_getElem?] at hl
    have := (h _ entry hl).1
    simp only [Option.elim_some]
    omega

theorem Tidy.observe (t : a.Tidy) (env : Env) : (a.observe env).Tidy where
  halted fault  := have h := t.halted fault; ⟨h.fault, h.leader, h.follower⟩
  bounded alive := have h := t.bounded alive; ⟨h.positive, h.snapshot, h.applied, h.committed⟩
  caughtUp      := t.caughtUp

variable [StateMachine σ]

def restored (r : Recovered) : Except String σ :=
  r.snapshot.elim (.ok StateMachine.new) fun snapshot => StateMachine.restore snapshot.state

-- What an actor that takes part has started from.
structure Started (b : Boot) (d : Disk) (r : Recovered) (store : ShardStore) (state : σ) : Prop where
  recovered : d.recover = .ok r
  stored    : store.durableLen = r.log.length
  restored  : restored r = .ok state
  indexed   : Indexed r.snapshotIndex r.log
  committed : r.commitIndex ≤ r.snapshotIndex + r.log.length

theorem Started.sane {b : Boot} {d : Disk} {r : Recovered} {store : ShardStore} {state : σ}
    (s : Started b d r store state) : (initial b store r state).Sane where
  halted fault := by simp [initial] at fault
  bounded _    := by
    have := s.committed
    refine ⟨?_, le_rfl, ?_, ?_⟩
    case refine_1 => exact Nat.lt_of_lt_of_le Nat.one_pos (Nat.le_max_right _ _)
    case refine_2 => exact Nat.le_max_right _ _
    case refine_3 =>
      simp only [initial]
      omega

-- An actor that has recovered applies what was committed.
def awake (b : Boot) (store : ShardStore) (r : Recovered) (state : σ) : ShardActor σ :=
  let a := (initial b store r state).resetElectionDeadline
  if a.commitIndex > 0 then a.applyCommitted else a

theorem new_ok {b : Boot} {d : Disk} {r : Recovered} {store : ShardStore} {a : ShardActor σ}
    (recovered : d.recover = .ok r) (len : store.durableLen = r.log.length)
    (fresh : new b store r = .ok a) : ∃ state, Started b d r store state ∧ awake b store r state = a := by
  simp only [new] at fresh
  split at fresh
  case h_1 => contradiction
  case h_2 contiguous =>
    split at fresh
    case isTrue => contradiction
    case isFalse committed =>
      split at fresh
      case h_1 => contradiction
      case h_2 state restored =>
        have indexed : Indexed r.snapshotIndex r.log := contiguous_indexed contiguous
        refine ⟨state, ⟨recovered, len, restored, indexed, ?_⟩, Except.ok.inj fresh⟩
        rw [indexed.tail] at committed
        omega

-- An actor starts in quarantine, or from what it has recovered once it has put the log in order.
theorem boot_cases (b : Boot) (d : Disk) (outcomes : List Outcome) :
    (∃ reason steps,
      (boot b d outcomes : ShardActor σ) = { quarantined b reason with out := steps.map .disk } ∧
      (steps = [] ∨ ∃ r k, d.recover = .ok r ∧ steps = (d.canonicalWrites r.log).take k)) ∨
    ∃ r store state, Started b d r store state ∧ (boot b d outcomes : ShardActor σ) =
      { awake b store r state with
        out := (d.canonicalWrites r.log).map .disk ++ (awake b store r state).out } := by
  simp only [boot]
  split
  case h_1 => exact .inl ⟨_, [], rfl, .inl rfl⟩
  case h_2 r recovered =>
    have p := ShardStore.performs_canonicalize { durableLen := 0, outcomes } d r.log
    split
    case h_1 steps error h =>
      have ⟨k, cut⟩ := p.cut
      rw [h] at cut
      exact .inl ⟨_, steps, rfl, .inr ⟨r, k, recovered, cut⟩⟩
    case h_2 store steps h =>
      have ⟨len, all⟩ := p.done (by rw [h])
      rw [h] at len all
      simp only at len all
      subst all
      split
      case h_1 => exact .inl ⟨_, _, rfl, .inr ⟨r, _, recovered, List.take_length.symm⟩⟩
      case h_2 a fresh =>
        obtain ⟨state, started, rfl⟩ := new_ok recovered len fresh
        exact .inr ⟨r, store, state, started, rfl⟩

variable [PeerPlane]

theorem Started.goes {b : Boot} {d : Disk} {r : Recovered} {store : ShardStore} {state : σ}
    (s : Started b d r store state) (o : Occasion) :
    Goes o (initial b store r state) (awake b store r state) := by
  have quiet : Reaches o (initial b store r state)
    (initial b store r state).resetElectionDeadline := .quiet rfl rfl
  have sane := quiet.sane s.sane
  simp only [awake]
  split
  case isTrue =>
    have g := goes_applyCommitted (o := o) sane rfl
    exact ⟨quiet.trans g.reaches, g.caughtUp⟩
  case isFalse none =>
    have := (sane.bounded rfl).applied
    exact ⟨quiet, fun _ => by omega⟩

theorem boot_goes (b : Boot) (d : Disk) (outcomes : List Outcome) (o : Occasion) :
    ((boot b d outcomes : ShardActor σ).Halted ∧
      ((boot b d outcomes : ShardActor σ).seen = [] ∨ ∃ r k, d.recover = .ok r ∧
        (boot b d outcomes : ShardActor σ).seen = ((d.canonicalWrites r.log).take k).map .disk)) ∨
    ∃ r store state effects, Started b d r store state ∧
      Steps o (initial b store r state).bare effects (boot b d outcomes : ShardActor σ).bare ∧
      (boot b d outcomes : ShardActor σ).seen = (d.canonicalWrites r.log).map .disk ++ effects ∧
      (boot b d outcomes : ShardActor σ).CaughtUp := by
  have visible (steps : List DiskStep) :
      (steps.map Effect.disk).filter (·.visible) = steps.map .disk :=
    List.filter_eq_self.mpr (by simp [Effect.visible])
  rcases boot_cases (σ := σ) b d outcomes with ⟨reason, steps, eq, all⟩ | ⟨r, store, state, started, eq⟩
  case inl =>
    rw [eq]
    refine .inl ⟨⟨rfl, rfl, rfl⟩, ?_⟩
    rcases all with rfl | ⟨r, k, recovered, rfl⟩
    case inl => exact .inl rfl
    case inr => exact .inr ⟨r, k, recovered, visible _⟩
  case inr =>
    have g := started.goes o
    obtain ⟨effects, steps, seen_eq⟩ := g.reaches
    rw [eq]
    refine .inr ⟨r, store, state, effects, started, steps, ?_, g.caughtUp⟩
    simp only [seen, List.filter_append, visible] at seen_eq ⊢
    rw [seen_eq]
    rfl

section Run

theorem boot_tidy (b : Boot) (d : Disk) (outcomes : List Outcome) :
    (boot b d outcomes : ShardActor σ).Tidy := by
  rcases boot_goes (σ := σ) b d outcomes ⟨.tick, True⟩ with
    ⟨halted, _⟩ | ⟨r, store, state, effects, started, steps, _, caughtUp⟩
  case inl => exact ⟨halted.sane, halted.caughtUp⟩
  case inr => exact ⟨.of_bare (steps.sane started.sane.bare), caughtUp⟩

end Run

end ShardActor
