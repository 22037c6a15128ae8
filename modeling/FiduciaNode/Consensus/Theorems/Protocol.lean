import FiduciaNode.Consensus.Protocol
import FiduciaNode.Consensus.Theorems.Activation

namespace ShardStore

variable {steps : List DiskStep} {n m : Nat} {r : Result}

-- An operation makes all of its writes, or it fails and has made some of the first ones.
structure Performs (steps : List DiskStep) (durableLen : Nat) (r : Result) : Prop where
  done : r.2.2 = none → r.1.durableLen = durableLen ∧ r.2.1 = steps
  cut  : ∃ k, r.2.1 = steps.take k

theorem performs_perform (store : ShardStore) (steps : List DiskStep) :
    Performs steps store.durableLen (store.perform steps) := by
  simp only [perform]
  split
  case h_1 | h_2 => exact ⟨fun _ => ⟨rfl, rfl⟩, steps.length, by simp⟩
  case h_3 written _ _ _ => exact ⟨by simp, written, rfl⟩

theorem Performs.replacing (h : Performs steps n r) : Performs steps m (replacing m r) := by
  obtain ⟨store, written, error⟩ := r
  cases error
  case none => exact ⟨fun _ => ⟨rfl, (h.done rfl).2⟩, h.cut⟩
  case some => exact ⟨by simp [ShardStore.replacing], h.cut⟩

end ShardStore

namespace ShardActor

variable {σ : Type} {a b c : ShardActor σ} {o : Occasion} {effects : List Effect}

def seen (a : ShardActor σ) : List Effect :=
  a.out.filter (·.visible)

section Bare

@[simp]
theorem bare_durableLen : a.bare.durableLen = a.durableLen := by
  cases h : a.store <;> simp [durableLen, bare, h]

@[simp]
theorem bare_writes (steps : List DiskStep) : a.bare.writes steps = a.writes steps := by
  simp [writes, bare]

@[simp]
theorem bare_stored (n : Nat) : (a.stored n).bare = a.bare.stored n := by
  simp [stored, bare, Function.comp_def]

@[simp]
theorem stored_durableLen : a.stored a.durableLen = a := by
  cases h : a.store <;> simp [stored, durableLen, h]
  all_goals rw [← h]

@[simp]
theorem bare_lengthened (log : List LogEntry) : (a.lengthened log).bare = a.bare.lengthened log := by
  rw [lengthened, bare_stored, lengthened, bare_durableLen]
  rfl

@[simp]
theorem bare_relogged (log : List LogEntry) : (a.relogged log).bare = a.bare.relogged log := by
  rw [relogged, bare_stored, relogged]
  rfl

theorem bare_onLeader (f : LeaderState → LeaderState) (h : ∀ ls, (f ls).bare = f ls.bare) :
    (a.onLeader f).bare = a.bare.onLeader f := by
  simp [onLeader, bare, Function.comp_def, h]

theorem bare_alive (h : a.storageFault = none) : a.bare.storageFault = none := by
  simp [bare, h]

theorem bare_halted : a.bare.Halted ↔ a.Halted := by
  constructor
  case mp | mpr => exact fun h => ⟨by simpa [bare] using h.fault, by simpa [bare] using h.leader, h.follower⟩

end Bare

section Loop

-- The same without the parts that do not matter.
def Appended.bare (s : Appended σ) : Appended σ :=
  { s with actor := s.actor.bare }

theorem appendLoop_bare {s s' : Appended σ} {i : Nat} {es : List LogEntry}
    (h : appendLoop s i es = .ok s') : appendLoop s.bare i es = .ok s'.bare := by
  induction es generalizing s i
  case nil => exact congrArg (Except.ok ∘ Appended.bare) (Except.ok.inj h)
  case cons entry es ih =>
    simp only [appendLoop] at h ⊢
    split at h
    case isTrue skip => exact (if_pos skip).trans (ih h)
    case isFalse skip =>
      refine (if_neg skip).trans ?_
      split at h
      case h_1 absent =>
        have absent : s.bare.actor.log[i + 1 - s.bare.actor.snapshotIndex - 1]? = none := absent
        rw [absent]
        exact ih h
      case h_2 existing present =>
        have present : s.bare.actor.log[i + 1 - s.bare.actor.snapshotIndex - 1]? = some existing :=
          present
        rw [present]
        split at h
        case isTrue same => exact (if_pos same).trans (ih h)
        case isFalse differ =>
          refine (if_neg differ).trans ?_
          split at h
          case isTrue => contradiction
          case isFalse uncommitted => exact (if_neg uncommitted).trans (ih h)

-- Nothing but the log changes, and what is committed stays in it.
theorem appendLoop_ok {s s' : Appended σ} {i : Nat} {es : List LogEntry}
    (h : appendLoop s i es = .ok s') :
    s'.actor = { s.actor with log := s'.actor.log } ∧
    (s.actor.commitIndex ≤ s.actor.snapshotIndex + s.actor.log.length →
      s.actor.commitIndex ≤ s.actor.snapshotIndex + s'.actor.log.length) := by
  induction es generalizing s i
  case nil => exact Except.ok.inj h ▸ ⟨rfl, id⟩
  case cons entry es ih =>
    simp only [appendLoop] at h
    split at h
    case isTrue => exact ih h
    case isFalse =>
      split at h
      case h_1 =>
        obtain ⟨frame, bound⟩ := ih h
        exact ⟨frame, fun le => bound (by simp; omega)⟩
      case h_2 existing present =>
        split at h
        case isTrue => exact ih h
        case isFalse =>
          split at h
          case isTrue => contradiction
          case isFalse uncommitted =>
            obtain ⟨frame, bound⟩ := ih h
            have := (List.getElem?_eq_some_iff.mp present).1
            exact ⟨frame, fun _ => bound (by simp; omega)⟩

-- Without a flag nothing has happened.
theorem appendLoop_flags {s s' : Appended σ} {i : Nat} {es : List LogEntry}
    (h : appendLoop s i es = .ok s') :
    (s.truncated = true → s'.truncated = true) ∧ (s.grew = true → s'.grew = true) ∧
    (s'.truncated = false → s'.grew = false → s'.actor.log = s.actor.log) := by
  induction es generalizing s i
  case nil => exact Except.ok.inj h ▸ ⟨id, id, fun _ _ => rfl⟩
  case cons entry es ih =>
    simp only [appendLoop] at h
    split at h
    case isTrue => exact ih h
    case isFalse =>
      split at h
      case h_1 =>
        obtain ⟨t, g, _⟩ := ih h
        exact ⟨t, fun _ => g rfl, fun _ ng => absurd (g rfl) (by simp [ng])⟩
      case h_2 =>
        split at h
        case isTrue => exact ih h
        case isFalse =>
          split at h
          case isTrue => contradiction
          case isFalse =>
            obtain ⟨t, g, _⟩ := ih h
            exact ⟨fun _ => t rfl, g, fun nt _ => absurd (t rfl) (by simp [nt])⟩

end Loop

section Acts

theorem bare_merge (s : Appended σ) : a.bare.mergeWrites s.bare = a.mergeWrites s ∧
    a.bare.merged s.bare = (a.merged s).bare := by
  have t : s.bare.truncated = s.truncated := rfl
  have g : s.bare.grew = s.grew := rfl
  have l : s.bare.actor.log = s.actor.log := rfl
  simp only [mergeWrites, merged, t, g, l, bare_durableLen, true_and]
  split
  case isTrue => exact (bare_relogged _).symm
  case isFalse =>
    split
    case isTrue => exact (bare_lengthened _).symm
    case isFalse => rfl

theorem matched_bare (peer : String) : a.bare.matched peer = a.matched peer := by
  cases h : a.leader <;> simp [matched, bare, h, LeaderState.bare]

theorem Replicated.bare {index : Nat} (h : a.Replicated index) : a.bare.Replicated index := by
  simp only [Replicated, matched_bare]
  exact h

theorem bare_nextWrites (command : Option Command) : a.bare.nextWrites command = a.nextWrites command := by
  rw [nextWrites, bare_durableLen]
  rfl

theorem bare_extended (command : Option Command) :
    (a.extended command).bare = a.bare.extended command :=
  bare_lengthened _

variable [StateMachine σ]

theorem appliedNext_bare (entry : LogEntry) :
    a.bare.appliedNext entry = ((a.appliedNext entry).1.bare, (a.appliedNext entry).2) := by
  simp only [appliedNext]
  cases entry.command <;> rfl

variable [PeerPlane]

-- An action does not depend on what an actor is without.
theorem Act.bare (act : Act o a effects b) : Act o a.bare effects b.bare := by
  cases act
  case adopt term le =>
    rw [← bare_writes]
    exact .adopt term le
  case campaign free =>
    rw [← bare_writes]
    exact .campaign free
  case abandon free => exact .abandon free
  case solicit preVote real => exact .solicit preVote real
  case grant req asked real term free ok =>
    rw [← bare_writes]
    exact .grant req asked real term free ok
  case count voter resp reply candidate term granted =>
    exact .count voter resp reply candidate term granted
  case lead candidate elected fits =>
    have := Act.lead (a := a.bare) (o := o) candidate elected fits
    rw [bare_writes, bare_nextWrites] at this
    rw [bare_extended]
    exact this
  case extend leader command proposable fits =>
    have := Act.extend (a := a.bare) (o := o) leader command proposable fits
    rw [bare_writes, bare_nextWrites] at this
    rw [bare_extended]
    exact this
  case follow leads => exact .follow leads
  case accept req asked admits s stored =>
    have := Act.accept (a := a.bare) req asked
      ⟨admits.term, admits.prevTerm, admits.wellFormed, admits.prev, admits.follower⟩
      s.bare (appendLoop_bare stored)
    rw [bare_writes, (bare_merge s).1, (bare_merge s).2] at this
    exact this
  case install req asked restored installs =>
    have := Act.install (a := a.bare) req asked restored ⟨installs.term, installs.zero,
      installs.termLe, installs.newer, installs.beyond, installs.restored, installs.follower⟩
    rw [bare_writes] at this
    rw [installed, bare_stored]
    exact this
  case commit index leader newer replicated current =>
    rw [← bare_writes]
    exact .commit index leader newer replicated.bare current
  case apply entry committed present =>
    have := Act.apply (o := o) (a := a.bare) entry committed present
    rw [appliedNext_bare] at this
    exact this
  case compact state snapshot newer =>
    have := Act.compact (o := o) (a := a.bare) state snapshot newer
    rw [bare_writes] at this
    rw [folded, bare_stored]
    exact this
  case contact peer sentAt contacts member leader past =>
    rw [bare_onLeader (contacted peer sentAt) fun _ => rfl]
    exact .contact peer sentAt contacts member leader past
  case advance peer upTo acknowledged member leader =>
    rw [bare_onLeader (advanced peer upTo) fun _ => rfl]
    exact .advance peer upTo acknowledged member leader
  case rewind peer hint refused member leader =>
    rw [bare_onLeader (rewound peer hint) fun _ => rfl]
    exact .rewind peer hint refused member leader
  case sendAppend ls leads peer member held caughtUp sequence peerProtocol =>
    have leads : a.bare.leader = some ls.bare := by simp [ShardActor.bare, leads]
    exact .sendAppend ls.bare leads peer member held caughtUp sequence peerProtocol
  case sendSnapshot ls leads peer member gone sequence =>
    have leads : a.bare.leader = some ls.bare := by simp [ShardActor.bare, leads]
    exact .sendSnapshot ls.bare leads peer member gone sequence

end Acts

section Sane

-- The indices of an actor that takes part.
structure Bounded (a : ShardActor σ) : Prop where
  positive  : 0 < a.currentTerm
  snapshot  : a.snapshotIndex ≤ a.lastApplied
  applied   : a.lastApplied ≤ a.commitIndex
  committed : a.commitIndex ≤ a.snapshotIndex + a.log.length

structure Sane (a : ShardActor σ) : Prop where
  halted  : a.storageFault.isSome → a.Halted
  bounded : a.storageFault = none → a.Bounded

theorem Halted.sane (h : a.Halted) : a.Sane where
  halted _      := h
  bounded alive := absurd h.fault (by simp [alive])

theorem termAt_pos {i : Nat} (h : 0 < a.termAt i) :
    a.snapshotIndex ≤ i ∧ i ≤ a.snapshotIndex + a.log.length := by
  simp only [termAt] at h
  split at h
  case isTrue => contradiction
  case isFalse =>
    split at h
    case isTrue e => omega
    case isFalse =>
      split at h
      case isTrue => contradiction
      case isFalse =>
        have : i - a.snapshotIndex - 1 < a.log.length := by
          by_contra short
          simp [List.getElem?_eq_none (Nat.not_lt.mp short)] at h
        omega

theorem lastLogIndex_le : a.lastLogIndex ≤ a.snapshotIndex + a.log.length :=
  Nat.min_le_left _ _

theorem Bounded.merged {s : Appended σ} {i : Nat} {es : List LogEntry} (h : a.Bounded)
    (stored : appendLoop ⟨a, false, false⟩ i es = .ok s) : (a.merged s).Bounded := by
  have bound := (appendLoop_ok stored).2 h.committed
  simp only [ShardActor.merged]
  split
  case isTrue => exact ⟨h.positive, h.snapshot, h.applied, bound⟩
  case isFalse =>
    split
    case isTrue => exact ⟨h.positive, h.snapshot, h.applied, bound⟩
    case isFalse => exact h

theorem nextLog_length {command : Option Command} :
    a.snapshotIndex + a.log.length ≤ a.snapshotIndex + (a.nextLog command).length := by
  simp [nextLog]

variable [StateMachine σ] [PeerPlane]

theorem Act.bounded (act : Act o a effects b) (h : a.Bounded) : b.Bounded := by
  cases act
  case adopt le => exact ⟨h.positive.trans_le le, h.snapshot, h.applied, h.committed⟩
  case campaign => exact ⟨Nat.succ_pos _, h.snapshot, h.applied, h.committed⟩
  case lead | extend => exact ⟨h.positive, h.snapshot, h.applied, h.committed.trans nextLog_length⟩
  case accept stored =>
    have h := h.merged stored
    exact ⟨h.positive, h.snapshot, h.applied.trans (Nat.le_max_left _ _),
      Nat.max_le.mpr ⟨h.committed, (Nat.min_le_right _ _).trans lastLogIndex_le⟩⟩
  case install installs =>
    have := installs.beyond
    exact ⟨h.positive, le_rfl, Nat.le_max_right _ _,
      Nat.max_le.mpr ⟨by simp [installed, ShardActor.stored]; omega, Nat.le_add_right _ _⟩⟩
  case commit index _ newer _ current =>
    have := termAt_pos (current ▸ h.positive)
    exact ⟨h.positive, h.snapshot, h.applied.trans newer.le, this.2⟩
  case apply entry committed _ =>
    have := h.snapshot
    simp only [appliedNext]
    cases entry.command <;> exact ⟨h.positive, Nat.le_succ_of_le this, committed, h.committed⟩
  case compact newer =>
    have := h.committed
    have := h.applied
    exact ⟨h.positive, le_rfl, h.applied, by simp [folded, ShardActor.stored]; omega⟩
  all_goals exact ⟨h.positive, h.snapshot, h.applied, h.committed⟩

theorem Act.fault (act : Act o a effects b) : b.storageFault = a.storageFault := by
  cases act
  case accept s _ =>
    simp only [followedUpTo, ShardActor.merged]
    split
    case isTrue => rfl
    case isFalse => split <;> rfl
  case apply entry _ _ =>
    simp only [appliedNext]
    cases entry.command <;> rfl
  all_goals rfl

theorem Step.sane (step : Step o a effects b) (h : a.Sane) : b.Sane := by
  cases step
  case act alive act =>
    have alive' : b.storageFault = none := act.fault.trans alive
    exact ⟨fun f => absurd f (by simp [alive']), fun _ => act.bounded (h.bounded alive)⟩
  case broken halted => exact halted.sane
  case halt halted => exact halted.sane

theorem Steps.sane (steps : Steps o a effects b) (h : a.Sane) : b.Sane := by
  induction steps
  case refl => exact h
  case tail step ih => exact step.sane ih

end Sane

section Seen

@[simp]
theorem seen_drainPending (error : ProposeError) : (a.drainPending error).seen = a.seen := by
  simp only [seen, drainPending, List.filter_append, List.append_right_eq_self]
  refine List.filter_eq_nil_iff.mpr fun _ h => ?_
  obtain ⟨_, _, rfl⟩ := List.mem_map.mp h
  simp [Effect.visible]

@[simp]
theorem seen_failStorage (operation error : String) : (a.failStorage operation error).seen = a.seen :=
  seen_drainPending _

theorem seen_emit_hidden {effect : Effect} (h : effect.visible = false) :
    (a.emit effect).seen = a.seen := by
  simp [seen, emit, h]

theorem seen_emit {effect : Effect} (h : effect.visible = true) :
    (a.emit effect).seen = a.seen ++ [effect] := by
  simp [seen, emit, h]

theorem failStorage_halted (operation error : String) : (a.failStorage operation error).Halted :=
  ⟨by cases h : a.storageFault <;> simp [failStorage, failPendingUnavailable, drainPending, h], rfl, rfl⟩

end Seen

section Performs

-- The actor either becomes the target, and all of the writes are seen, or some of the first ones are.
structure Performs (a : ShardActor σ) (steps : List DiskStep) (target : ShardActor σ)
    (r : ShardActor σ × Option String) : Prop where
  done : r.2 = none → r.1.bare = target.bare ∧ r.1.seen = a.seen ++ a.writes steps
  cut  : ∃ k, r.1.seen = a.seen ++ (a.writes steps).take k

theorem Performs.of_store {op : ShardStore → ShardStore.Result} {steps : List DiskStep} {n : Nat}
    (h : ∀ store, a.store = some store → ShardStore.Performs steps n (op store)) :
    Performs a steps (a.stored n) (a.onStore op) := by
  simp only [onStore]
  cases hs : a.store
  case none =>
    refine ⟨fun _ => ⟨?_, ?_⟩, 0, by simp⟩
    case refine_1 => simp [stored, bare, hs]
    case refine_2 => simp [writes, hs]
  case some store =>
    have visible (steps : List DiskStep) :
        (steps.map Effect.disk).filter (·.visible) = steps.map .disk :=
      List.filter_eq_self.mpr (by simp [Effect.visible])
    obtain ⟨done, k, cut⟩ := h store hs
    refine ⟨fun ok => ?_, k, ?_⟩
    case refine_1 =>
      obtain ⟨len, all⟩ := done ok
      refine ⟨?_, ?_⟩
      case refine_1 => simp [stored, bare, hs, ← len]
      case refine_2 => simp [seen, writes, hs, visible, all]
    case refine_2 =>
      have := visible (steps.take k)
      simp only [seen, writes, hs, cut, List.filter_append, this]
      simp

theorem performs_saveMeta (hardState : Meta) :
    Performs a [.writeMeta hardState] a (a.onStore (·.saveMeta hardState)) := by
  have : Performs a [.writeMeta hardState] (a.stored a.durableLen)
      (a.onStore (·.saveMeta hardState)) := .of_store fun store h => by
    have : a.durableLen = store.durableLen := by simp [durableLen, h]
    rw [this]
    exact store.performs_perform _
  rwa [stored_durableLen] at this

theorem performs_persistHardState : Performs a [.writeMeta a.hardState] a a.persistHardState :=
  performs_saveMeta _

theorem performs_appendTail (log : List LogEntry) :
    Performs a ((log.drop a.durableLen).map .appendLog) (a.stored (max a.durableLen log.length))
      (a.onStore (·.appendTail log)) :=
  .of_store fun store h => by
    have : a.durableLen = store.durableLen := by simp [durableLen, h]
    rw [this]
    simp only [ShardStore.appendTail]
    split
    case isTrue le => exact ⟨fun _ => ⟨(Nat.max_eq_left le).symm, by simp [le]⟩, 0, by simp⟩
    case isFalse lt =>
      rw [Nat.max_eq_right (by omega)]
      exact (store.performs_perform _).replacing

theorem performs_rewrite (log : List LogEntry) :
    Performs a [.writeLog log] (a.stored log.length) (a.onStore (·.rewrite log)) :=
  .of_store fun store _ => (store.performs_perform _).replacing

theorem performs_saveSnapshot (snapshot : PersistedSnapshot) (remaining : List LogEntry) :
    Performs a [.writeSnapshot snapshot, .writeLog remaining] (a.stored remaining.length)
      (a.onStore (·.saveSnapshot snapshot remaining)) :=
  .of_store fun store _ => (store.performs_perform _).replacing

end Performs

section Reaches

variable [StateMachine σ] [PeerPlane]

-- From one actor to the other by steps that account for all that is seen.
def Reaches (o : Occasion) (a b : ShardActor σ) : Prop :=
  ∃ effects, Steps o a.bare effects b.bare ∧ b.seen = a.seen ++ effects

theorem Steps.trans {effects' : List Effect} (h₁ : Steps o a effects b) (h₂ : Steps o b effects' c) :
    Steps o a (effects ++ effects') c := by
  induction h₂
  case refl => simpa using h₁
  case tail step ih =>
    rw [← List.append_assoc]
    exact .tail ih step

theorem Steps.single (step : Step o a effects b) : Steps o a effects b :=
  .tail .refl step

namespace Reaches

theorem quiet (h : b.bare = a.bare) (s : b.seen = a.seen) : Reaches o a b :=
  ⟨[], h ▸ .refl, by simpa using s⟩

theorem refl : Reaches o a a :=
  .quiet rfl rfl

theorem trans (h₁ : Reaches o a b) (h₂ : Reaches o b c) : Reaches o a c := by
  have ⟨effects₁, steps₁, seen₁⟩ := h₁
  have ⟨effects₂, steps₂, seen₂⟩ := h₂
  exact ⟨_, steps₁.trans steps₂, by rw [seen₂, seen₁, List.append_assoc]⟩

theorem act (alive : a.storageFault = none) (act : Act o a effects c) (h : b.bare = c.bare)
    (s : b.seen = a.seen ++ effects) : Reaches o a b :=
  ⟨_, h ▸ .single (.act (bare_alive alive) act.bare), s⟩

theorem broken {k : Nat} (alive : a.storageFault = none) (act : Act o a effects c) (halted : b.Halted)
    (s : b.seen = a.seen ++ effects.take k) : Reaches o a b :=
  ⟨_, .single (.broken (bare_alive alive) act.bare k (bare_halted.mpr halted)), s⟩

theorem halt (halted : b.Halted) (s : b.seen = a.seen) : Reaches o a b :=
  ⟨_, .single (.halt (bare_halted.mpr halted)), by simpa using s⟩

end Reaches

end Reaches

end ShardActor
