import FiduciaNode.Consensus.Stages
import FiduciaNode.Consensus.Theorems.Protocol

namespace ShardActor

variable {σ : Type} {a b c : ShardActor σ} {o : Occasion}

-- All that is committed has been applied.
def CaughtUp (a : ShardActor σ) : Prop :=
  a.storageFault = none → a.lastApplied = a.commitIndex

structure Tidy (a : ShardActor σ) : Prop extends Sane a where
  caughtUp : a.CaughtUp

theorem Sane.of_bare (h : a.bare.Sane) : a.Sane where
  halted fault  := bare_halted.mp (h.halted (by simpa [bare] using fault))
  bounded alive :=
    have b := h.bounded (bare_alive alive)
    ⟨b.positive, b.snapshot, b.applied, b.committed⟩

theorem Sane.bare (h : a.Sane) : a.bare.Sane where
  halted fault  := bare_halted.mpr (h.halted (by simpa [ShardActor.bare] using fault))
  bounded alive :=
    have b := h.bounded (by simpa [ShardActor.bare] using alive)
    ⟨b.positive, b.snapshot, b.applied, b.committed⟩

theorem Halted.caughtUp (h : a.Halted) : a.CaughtUp :=
  fun alive => absurd h.fault (by simp [alive])

theorem CaughtUp.of_bare (c : a.CaughtUp) (h : b.bare = a.bare) : b.CaughtUp := by
  intro alive
  have fault := congrArg storageFault h
  have applied := congrArg lastApplied h
  have commit := congrArg commitIndex h
  simp only [bare, alive, Option.map_none] at fault applied commit
  rw [applied, commit]
  exact c (Option.map_eq_none_iff.mp fault.symm)

theorem onStore_eq {op : ShardStore → ShardStore.Result} {error : Option String}
    (h : a.onStore op = (b, error)) : ∃ store out, b = { a with store, out } :=
  ⟨_, _, (congrArg Prod.fst h).symm.trans (onStore_frame op)⟩

theorem onStore_alive {op : ShardStore → ShardStore.Result} {error : Option String}
    (h : a.onStore op = (b, error)) (alive : a.storageFault = none) : b.storageFault = none := by
  obtain ⟨_, _, rfl⟩ := onStore_eq h
  exact alive

theorem stepDown_eq {term : Nat} (le : a.currentTerm ≤ term) (leader : Option String) :
    a.stepDown term leader =
      match persistHardState { a.adopted term with leaderId := leader } with
      | (a, some error) => a.failStorage "persisting higher term while stepping down" error
      | (a, none) => a.resetElectionDeadline.failPending := by
  have newer : (if term > a.currentTerm then { a with currentTerm := term, votedFor := none } else a) =
      { a with
        currentTerm := term, votedFor := if term > a.currentTerm then none else a.votedFor
      } := by
    split
    case isTrue => rfl
    case isFalse h => rw [Nat.le_antisymm (Nat.not_lt.mp h) le]
  rw [stepDown, if_neg (Nat.not_lt.mpr le)]
  exact congrArg (fun a : ShardActor σ =>
    match persistHardState { a with role := .follower, leader := none, votes := ∅, leaderId := leader } with
    | (a, some error) => a.failStorage "persisting higher term while stepping down" error
    | (a, none) => a.resetElectionDeadline.failPending) newer

theorem stepDown_term {term : Nat} {leader : Option String} (le : a.currentTerm ≤ term) :
    (a.stepDown term leader).currentTerm = term := by
  rw [stepDown_eq le]
  split
  all_goals
    rename_i h
    obtain ⟨store, out, rfl⟩ := onStore_eq h
    rfl

variable [StateMachine σ] [PeerPlane]

-- The first actor gets to the second one by actions, and it is between two actions on the log.
structure Goes (o : Occasion) (a b : ShardActor σ) : Prop where
  reaches  : Reaches o a b
  caughtUp : b.CaughtUp

section Basic

theorem Reaches.sane (h : Reaches o a b) (s : a.Sane) : b.Sane :=
  have ⟨_, steps, _⟩ := h
  .of_bare (steps.sane s.bare)

theorem Goes.tidy (g : Goes o a b) (t : a.Tidy) : b.Tidy where
  toSane   := g.reaches.sane t.toSane
  caughtUp := g.caughtUp

theorem Goes.refl (t : a.Tidy) : Goes o a a :=
  ⟨.refl, t.caughtUp⟩

theorem Goes.trans (g₁ : Goes o a b) (g₂ : Goes o b c) : Goes o a c :=
  ⟨g₁.reaches.trans g₂.reaches, g₂.caughtUp⟩

theorem Goes.broken {effects : List Effect} {k : Nat} (alive : a.storageFault = none)
    (act : Act o a effects c) (halted : b.Halted) (s : b.seen = a.seen ++ effects.take k) : Goes o a b :=
  ⟨.broken alive act halted s, halted.caughtUp⟩

theorem Goes.halt (halted : b.Halted) (s : b.seen = a.seen) : Goes o a b :=
  ⟨.halt halted s, halted.caughtUp⟩

theorem Goes.quiet (t : a.Tidy) (h : b.bare = a.bare) (s : b.seen = a.seen) : Goes o a b :=
  ⟨.quiet h s, t.caughtUp.of_bare h⟩

theorem Goes.act {effects : List Effect} (alive : a.storageFault = none) (act : Act o a effects c)
    (caughtUp : c.CaughtUp) (h : b.bare = c.bare) (s : b.seen = a.seen ++ effects) : Goes o a b :=
  ⟨.act alive act h s, caughtUp.of_bare h⟩

end Basic

-- An action whose writes are those of one operation on the store. The actor `a'` is what is in the
-- memory when the operation is started.
section Operations

variable {a' target : ShardActor σ} {steps : List DiskStep} {r : ShardActor σ × Option String}

theorem Reaches.updated (f : ShardActor σ → ShardActor σ) (h : r = (b, none))
    (p : a'.Performs steps target r) (alive : a.storageFault = none) (act : Act o a (a.writes steps) c)
    (before : a'.seen = a.seen) (store : a'.store = a.store) (bare : ∀ x, (f x).bare = f x.bare)
    (seen : ∀ x, (f x).seen = x.seen) (after : f target.bare = c.bare) : Reaches o a (f b) := by
  have ⟨memory, done⟩ := h ▸ p.done (by rw [h])
  have same : a'.writes steps = a.writes steps := by rw [writes, writes, store]
  exact .act alive act (by rw [bare, memory, after]) (by rw [seen, done, before, same])

theorem Goes.updated (f : ShardActor σ → ShardActor σ) (h : r = (b, none)) (p : a'.Performs steps target r)
    (alive : a.storageFault = none) (act : Act o a (a.writes steps) c) (caughtUp : c.CaughtUp)
    (before : a'.seen = a.seen) (store : a'.store = a.store) (bare : ∀ x, (f x).bare = f x.bare)
    (seen : ∀ x, (f x).seen = x.seen) (after : f target.bare = c.bare) : Goes o a (f b) where
  reaches  := .updated f h p alive act before store bare seen after
  caughtUp := by
    have ⟨memory, _⟩ := h ▸ p.done (by rw [h])
    exact caughtUp.of_bare (by rw [bare, memory, after])

theorem Goes.performed (h : r = (b, none)) (p : a'.Performs steps target r)
    (alive : a.storageFault = none) (act : Act o a (a.writes steps) c) (caughtUp : c.CaughtUp)
    (before : a'.seen = a.seen) (store : a'.store = a.store) (after : target.bare = c.bare) :
    Goes o a b :=
  .updated id h p alive act caughtUp before store (fun _ => rfl) (fun _ => rfl) after

theorem Goes.failed {error : String} (h : r = (b, some error)) (p : a'.Performs steps target r)
    (alive : a.storageFault = none) (act : Act o a (a.writes steps) c) (before : a'.seen = a.seen)
    (store : a'.store = a.store) (operation : String) :
    Goes o a (b.failStorage operation error) := by
  have ⟨k, cut⟩ := h ▸ p.cut
  have same : a'.writes steps = a.writes steps := by rw [writes, writes, store]
  exact .broken alive act (failStorage_halted _ _) (k := k)
    (by rw [seen_failStorage, cut, before, same])

theorem Goes.saved {error : Option String} (h : r = (b, error)) (p : a'.Performs steps target r)
    (alive : a.storageFault = none) (act : Act o a (a.writes steps) c) (caughtUp : c.CaughtUp)
    (before : a'.seen = a.seen) (store : a'.store = a.store) (after : target.bare = c.bare)
    (operation : String) : Goes o a (b.settled operation error) := by
  cases error
  case none => exact .performed h p alive act caughtUp before store after
  case some => exact .failed h p alive act before store _

end Operations

section StepDown

theorem goes_stepDown (t : a.Tidy) (alive : a.storageFault = none) (term : Nat)
    (leader : Option String) : Goes o a (a.stepDown term leader) := by
  by_cases lt : term < a.currentTerm
  case pos =>
    rw [stepDown, if_pos lt]
    exact .refl t
  case neg =>
    rw [stepDown_eq (Nat.not_lt.mp lt)]
    have act := Act.adopt (o := o) term (Nat.not_lt.mp lt)
    split
    case h_1 b error h => exact .failed h performs_persistHardState alive act rfl rfl _
    case h_2 b h =>
      have g : Goes o a b := .performed h performs_persistHardState alive act t.caughtUp rfl rfl
        rfl
      exact g.trans (.quiet (g.tidy t) rfl (seen_drainPending _))

end StepDown

end ShardActor
