import FiduciaNode.Consensus.Cluster
import FiduciaNode.Consensus.Theorems.Callbacks

namespace Event

-- The event does not come from another member.
def isOwn : Event → Bool
  | .tick | .message (.propose ..) | .message (.query ..) | .message (.queryLocal ..) => true
  | .message (.appendReply _ _ _ none) | .message (.snapshotReply _ _ _ none) => true
  | _ => false

end Event

namespace Disk

variable {d : Disk} {effects effects' : List Effect}

theorem after_append : d.after (effects ++ effects') = (d.after effects).after effects' := by
  simp [after, steps]

theorem after_disk (steps : List DiskStep) : d.after (steps.map .disk) = d.steps steps := by
  rw [after, List.filterMap_map]
  congr 1
  exact List.filterMap_some

end Disk

namespace ShardActor

variable {σ : Type} {a b : ShardActor σ}

@[simp]
theorem bare_bare : a.bare.bare = a.bare := by
  simp only [bare, Option.map_map]
  rfl

variable [StateMachine σ] [PeerPlane] {o : Occasion} {effects : List Effect}

-- A process can stop after any number of effects.
theorem Steps.cut (steps : Steps o a effects b) (halted : ∃ c : ShardActor σ, c.Halted) (k : Nat) :
    ∃ c, c.Halted ∧ Steps o a (effects.take k) c := by
  have ⟨c, hc⟩ := halted
  induction steps generalizing k
  case refl => exact ⟨c, hc, by simpa using .single (.halt hc)⟩
  case tail b _ effects effects' steps step ih =>
    by_cases le : k ≤ effects.length
    case pos =>
      rw [List.take_append_of_le_length le]
      exact ih k
    case neg =>
      have split : (effects ++ effects').take k = effects ++ effects'.take (k - effects.length) := by
        rw [List.take_append, List.take_of_length_le (by omega)]
      rw [split]
      cases step
      case act alive act => exact ⟨c, hc, steps.tail (.broken alive act _ hc)⟩
      case broken effects' alive act k' _ =>
        rw [List.take_take]
        exact ⟨c, hc, steps.tail (.broken alive act _ hc)⟩
      case halt => exact ⟨c, hc, by simpa using steps.tail (.halt hc)⟩

theorem Moves.grows_out {e : Event} {start : ShardActor σ} (m : Moves e start a b) :
    ∃ effects, b.out = a.out ++ effects := by
  induction m
  case refl => exact ⟨[], by simp⟩
  case tail m ih =>
    have ⟨effects, eq⟩ := ih
    have ⟨effects', eq'⟩ := m.grows_out
    exact ⟨effects ++ effects', by rw [eq', eq, List.append_assoc]⟩

end ShardActor

namespace Member

variable {σ : Type} [StateMachine σ] [PeerPlane] {m : Member σ} {a : ShardActor σ} {effects : List Effect}
  {reply : Reply σ}

theorem does_boot {b : ShardActor.Boot} {outcomes : List Outcome}
    (h : m.does (.boot b outcomes) = some (a, effects, reply)) :
    m.actor = none ∧ a = ShardActor.boot b m.disk outcomes ∧ effects = a.out.filter (·.visible) := by
  simp only [does] at h
  split at h
  case isTrue => contradiction
  case isFalse down =>
    cases h
    exact ⟨by simpa using down, rfl, rfl⟩

theorem does_handle {env : Env} {e : Event} (h : m.does (.handle env e) = some (a, effects, reply)) :
    ∃ a₀, m.actor = some a₀ ∧ a = ((a₀.observe env).dispatch e).1 ∧
      effects = (a.out.drop a₀.out.length).filter (·.visible) ∧ reply = ((a₀.observe env).dispatch e).2 := by
  obtain ⟨a₀, up, eq⟩ := Option.map_eq_some_iff.mp h
  injection eq with actor eq
  injection eq with effects reply
  subst actor
  exact ⟨a₀, up, rfl, effects.symm, reply.symm⟩

end Member

namespace Cluster

variable {σ : Type} [StateMachine σ] {g : ShardGroup} {c : Cluster σ} {i j : String}
  {actor : Option (ShardActor σ)} {commands : List Command} {effects effects' : List Effect} {effect : Effect}

section Put

@[simp]
theorem put_self : (c.put i actor commands effects).members i =
    ⟨(c.members i).disk.after effects, actor, commands⟩ :=
  Function.update_self ..

theorem put_other (ne : j ≠ i) : (c.put i actor commands effects).members j = c.members j :=
  Function.update_of_ne ne ..

theorem put_put {actor' : Option (ShardActor σ)} {commands' : List Command} :
    (c.put i actor commands effects).put i actor' commands' effects' =
    c.put i actor' commands' (effects ++ effects') := by
  simp only [put, Function.update_self, Function.update_idem, Disk.after_append, List.map_append,
    List.append_assoc]

theorem mem_history_put : (j, effect) ∈ (c.put i actor commands effects).history ↔
    (j, effect) ∈ c.history ∨ j = i ∧ effect ∈ effects := by
  simp only [put, List.mem_append, List.mem_map, Prod.mk.injEq]
  constructor
  case mp =>
    rintro (h | ⟨x, mem, rfl, rfl⟩)
    case inl => exact .inl h
    case inr => exact .inr ⟨rfl, mem⟩
  case mpr =>
    rintro (h | ⟨rfl, mem⟩)
    case inl => exact .inl h
    case inr => exact .inr ⟨effect, mem, rfl, rfl⟩

theorem mem_replies_answer {request : Option (String × Effect)} {reply : Reply σ}
    {r : String × Effect × Reply σ} :
    r ∈ (c.answer request reply).replies ↔ r ∈ c.replies ∨ request = some (r.1, r.2.1) ∧ r.2.2 = reply := by
  obtain ⟨j, effect, r⟩ := r
  cases request
  case none => simp [answer]
  case some request =>
    obtain ⟨j', effect'⟩ := request
    simp only [answer, Option.toList_some, List.map_cons, List.map_nil, List.mem_append, List.mem_singleton,
      Prod.mk.injEq, Option.some.injEq]
    tauto

@[simp]
theorem answer_none {reply : Reply σ} : c.answer none reply = c := by
  simp [answer]

end Put

-- The event has come to the member: from another one, as a reply or from outside.
inductive Delivered (c : Cluster σ) (i : String) (e : Event) : Prop
  | own (own : e.isOwn)
  | request {j : String} {effect : Effect} (sent : (j, effect) ∈ c.history)
    (dest : effect.request? = some (i, e))
  | reply {effect : Effect} {reply : Reply σ} (replied : (i, effect, reply) ∈ c.replies)
    (callback : effect.callback? (some reply) = some e)

theorem Delivered.mono {c' : Cluster σ} {e : Event} (h : c.Delivered i e) (history : c.history ⊆ c'.history)
    (replies : c.replies ⊆ c'.replies) : c'.Delivered i e := by
  cases h
  case own own => exact .own own
  case request sent dest => exact .request (history sent) dest
  case reply replied callback => exact .reply (replies replied) callback

theorem Delivered.put {e : Event} (h : c.Delivered i e) : (c.put j actor commands effects).Delivered i e :=
  h.mono (List.subset_append_left ..) (List.Subset.refl _)

theorem Allows.delivered {env : Env} {e : Event} {request : Option (String × Effect)}
    (h : c.Allows g i (.handle env e) request) : c.Delivered i e := by
  cases h
  case tick | propose | query | queryLocal => exact .own rfl
  case request sent dest => exact .request sent dest
  case reply replied callback => exact .reply replied callback
  case timeout effect sent callback =>
    refine .own ?_
    cases effect <;> simp [Effect.callback?] at callback
    case appendEntries | installSnapshot => simp [← callback, Event.isOwn]

variable [PeerPlane] {permits : Cluster σ → String → Work → Prop}

-- The processes that are up have their own runs.
theorem Allows.run {env : Env} {e : Event} {request : Option (String × Effect)} {a : ShardActor σ}
    (h : c.Allows g i (.handle env e) request) (run : ShardActor.Run (c.members i).commands a) :
    ShardActor.Run ((Work.handle env e).commands (c.members i).commands) ((a.observe env).dispatch e).1 := by
  have quiet (q : ∀ command client, e ≠ .message (.propose command client)) :
      ShardActor.Run ((Work.handle env e).commands (c.members i).commands) ((a.observe env).dispatch e).1 := by
    have same : (Work.handle env e).commands (c.members i).commands = (c.members i).commands := by
      simp only [Work.commands]
    rw [same]
    exact .event run env e q
  cases h
  case propose command => exact .propose run env command
  case tick | query | queryLocal => exact quiet (by simp)
  case request effect sent dest =>
    refine quiet fun command client eq => ?_
    subst eq
    cases effect <;> simp [Effect.request?] at dest
  case reply effect reply replied callback =>
    refine quiet fun command client eq => ?_
    subst eq
    cases effect <;> cases reply <;> simp [Effect.callback?] at callback
  case timeout effect sent callback =>
    refine quiet fun command client eq => ?_
    subst eq
    cases effect <;> simp [Effect.callback?] at callback

theorem Reach.run (r : Reach g permits c) {a : ShardActor σ} (up : (c.members i).actor = some a) :
    ShardActor.Run (c.members i).commands a := by
  induction r generalizing i a
  case start => simp [initial] at up
  case step c _ _ step ih =>
    cases step
    case done j w request b effects reply _ allows permitted does =>
      by_cases same : i = j
      case neg =>
        have other : (c.put j (some b) (w.commands (c.members j).commands) effects).members i = c.members i :=
          put_other same
        simp only [answer, other] at up ⊢
        exact ih up
      case pos =>
        subst same
        simp only [answer, put_self, Option.some.injEq] at up ⊢
        subst up
        cases w
        case boot b outcomes =>
          obtain ⟨_, rfl, _⟩ := Member.does_boot does
          exact .boot b _ outcomes
        case handle env e =>
          obtain ⟨a, up, rfl, _⟩ := Member.does_handle does
          exact allows.run (ih up)
    case crash j w request b effects reply _ _ _ _ k =>
      by_cases same : i = j
      case neg =>
        have other : (c.put j none [] (effects.take k)).members i = c.members i := put_other same
        simp only [other] at up ⊢
        exact ih up
      case pos =>
        subst same
        simp at up

section Play

omit [PeerPlane] in
theorem Cue.allows {cue : Cue} {w : Work} {request : Option (String × Effect)}
    (h : cue.work c = some (i, w, request)) (knows : w.knows (g.peers i)) :
    c.Allows g i w request := by
  cases cue
  case boot b =>
    cases h
    exact .boot b [] rfl (by simpa [Work.knows] using knows)
  case tick env =>
    cases h
    exact .tick env
  case propose env command =>
    cases h
    exact .propose env command
  case query env request =>
    cases h
    exact .query env request 0
  case deliver place env =>
    obtain ⟨⟨j, effect⟩, sent, h⟩ := Option.bind_eq_some_iff.mp h
    obtain ⟨⟨i', e⟩, dest, eq⟩ := Option.map_eq_some_iff.mp h
    cases eq
    exact .request env (List.mem_of_getElem? sent) dest
  case reply place env =>
    obtain ⟨⟨i', effect, reply⟩, replied, h⟩ := Option.bind_eq_some_iff.mp h
    obtain ⟨e, callback, eq⟩ := Option.map_eq_some_iff.mp h
    cases eq
    exact .reply env (List.mem_of_getElem? replied) callback

-- A run that can be played is a run.
theorem Reach.play {check : Cluster σ → String → Work → Bool} {c' : Cluster σ} {cues : List Cue}
    (reach : Reach g permits c) (sound : ∀ c i w, check c i w → permits c i w)
    (h : c.play g check cues = some c') : Reach g permits c' := by
  induction cues generalizing c
  case nil => exact Option.some.inj h ▸ reach
  case cons cue cues ih =>
    simp only [Cluster.play] at h
    split at h
    case h_1 => contradiction
    case h_2 i w request work =>
      split at h
      case isFalse => contradiction
      case isTrue ok =>
        simp only [Bool.and_eq_true, decide_eq_true_eq] at ok
        split at h
        case h_1 => contradiction
        case h_2 a effects reply does =>
          exact ih (reach.step (.done ok.1.1 (Cue.allows work ok.1.2) (sound _ _ _ ok.2) does)) h

end Play

section Induction

open ShardActor (Act Started Steps)

-- What has come of an event at the member, before the reply is sent.
def handled (c : Cluster σ) (i : String) (a : ShardActor σ) (env : Env) (e : Event) : Cluster σ :=
  let a' := ((a.observe env).dispatch e).1
  { c.put i (some a') ((Work.handle env e).commands (c.members i).commands)
      ((a'.out.drop a.out.length).filter (·.visible)) with
    clock := env.now
  }

-- The actor of the member is in the middle of its start or of an event.
inductive Turn (permits : Cluster σ → String → Work → Prop) (c : Cluster σ) (i : String) (o : Occasion)
    (a : ShardActor σ) : Prop
  | boot (own : o.event.isOwn) (room : o.room)
  | handle {c₀ : Cluster σ} {start : ShardActor σ} {env : Env} {effects : List Effect}
    (up : (c₀.members i).actor = some start) (permitted : permits c₀ i (.handle env o.event))
    (delivered : c.Delivered i o.event) (room : start.lastLogIndex < U64.max → o.room)
    (steps : Steps o (start.observe env).bare effects a)

-- What a property has to survive to hold of every cluster that is reached.
structure Invariant (g : ShardGroup) (permits : Cluster σ → String → Work → Prop) (P : Cluster σ → Prop) :
    Prop where
  start   : P initial
  clock   : ∀ c i w, permits c i w → P c → P { c with clock := w.now }
  stop    : ∀ c i commands, P c → P (c.put i none commands [])
  halt    : ∀ c i a commands, i ∈ g.members → a.Halted → P c → P (c.put i (some a) commands [])
  bare    : ∀ c i a b commands, (c.members i).actor = some a → b.bare = a.bare → P c →
    P (c.put i (some b) commands [])
  observe : ∀ c i a env commands, (c.members i).actor = some a → c.clock = env.now → P c →
    P (c.put i (some (a.observe env)) commands [])
  opens   : ∀ c i r k, i ∈ g.members → (c.members i).actor = none →
    (c.members i).disk.recover = .ok r → P c →
    P (c.put i none [] ((((c.members i).disk.canonicalWrites r.log).take k).map .disk))
  boots   : ∀ c i b r store state, i ∈ g.members → (c.members i).actor = none →
    b.nodeId = i → b.peers = g.peers i → c.clock = b.now → Started b (c.members i).disk r store state → P c →
    P (c.put i (some (ShardActor.initial b store r state)) []
      (((c.members i).disk.canonicalWrites r.log).map .disk))
  act     : ∀ c i a o effects b commands, i ∈ g.members → (c.members i).actor = some a →
    a.storageFault = none → Turn permits c i o a → Act o a effects b → P c →
    P (c.put i (some b) commands effects)
  cut     : ∀ c i a o effects b commands k, i ∈ g.members → (c.members i).actor = some a →
    a.storageFault = none → Turn permits c i o a → Act o a effects b → P c →
    P (c.put i none commands (effects.take k))
  reply   : ∀ c i a env e j effect, i ∈ g.members → (c.members i).actor = some a →
    ShardActor.Run (c.members i).commands a → (j, effect) ∈ c.history → effect.request? = some (i, e) →
    permits c i (.handle env e) → P c → P (c.handled i a env e) →
    P ((c.handled i a env e).answer (some (j, effect)) ((a.observe env).dispatch e).2)

variable {P : Cluster σ → Prop} {o : Occasion} {a b : ShardActor σ}

theorem Turn.delivered (turn : Turn permits c i o a) : c.Delivered i o.event := by
  cases turn
  case boot own _ => exact .own own
  case handle delivered _ _ => exact delivered

theorem Turn.step (turn : Turn permits c i o a) (step : ShardActor.Step o a effects b)
    (actor : Option (ShardActor σ)) (commands : List Command) (effects' : List Effect) :
    Turn permits (c.put j actor commands effects') i o b := by
  cases turn
  case boot own room => exact .boot own room
  case handle up permitted delivered room steps =>
    exact .handle up permitted delivered.put room (steps.tail step)

theorem Invariant.step (inv : Invariant g permits P) (member : i ∈ g.members)
    (up : (c.members i).actor = some a) (turn : Turn permits c i o a) (step : ShardActor.Step o a effects b)
    (commands : List Command) (h : P c) : P (c.put i (some b) commands effects) := by
  cases step
  case act alive act => exact inv.act c i a o effects b commands member up alive turn act h
  case broken b' effects alive act k halted =>
    have h := inv.cut c i a o effects b' commands k member up alive turn act h
    have h := inv.halt _ i b commands member halted h
    rwa [put_put, List.append_nil] at h
  case halt halted => exact inv.halt c i b commands member halted h

theorem Invariant.steps (inv : Invariant g permits P) (member : i ∈ g.members)
    (up : (c.members i).actor = some a) (turn : Turn permits c i o a) (steps : Steps o a effects b)
    (commands : List Command) (h : P c) : P (c.put i (some b) commands effects) := by
  suffices Turn permits (c.put i (some b) commands effects) i o b ∧ P (c.put i (some b) commands effects)
    from this.2
  induction steps
  case refl =>
    refine ⟨?_, inv.bare c i a a commands up rfl h⟩
    cases turn
    case boot own room => exact .boot own room
    case handle up permitted delivered room steps => exact .handle up permitted delivered.put room steps
  case tail b₁ b₂ effects₁ effects₂ _ step ih =>
    have h := inv.step member (by rw [put_self]) ih.1 step commands ih.2
    have turn := ih.1.step (j := i) step (some b₂) commands effects₂
    rw [put_put] at h turn
    exact ⟨turn, h⟩

-- The effects of the steps from one actor to the other take place, or the first of them do.
theorem Invariant.reaches (inv : Invariant g permits P) (member : i ∈ g.members)
    (up : (c.members i).actor = some a) (turn : Turn permits (c.put i (some a.bare) [] []) i o a.bare)
    (steps : Steps o a.bare effects b.bare) (h : P c) :
    (∀ commands, P (c.put i (some b) commands effects)) ∧ ∀ k, P (c.put i none [] (effects.take k)) := by
  have h := inv.bare c i a a.bare [] up ShardActor.bare_bare h
  have up : ((c.put i (some a.bare) [] []).members i).actor = some a.bare := by rw [put_self]
  refine ⟨fun commands => ?_, fun k => ?_⟩
  case refine_1 =>
    have h := inv.steps member up turn steps commands h
    have h := inv.bare _ i b.bare b commands (by rw [put_self]) ShardActor.bare_bare.symm h
    rwa [put_put, put_put, List.nil_append, List.append_nil] at h
  case refine_2 =>
    have ⟨b', _, cut⟩ := steps.cut ⟨a.bare.failStorage "" "", ShardActor.failStorage_halted _ _⟩ k
    have h := inv.steps member up turn cut [] h
    have h := inv.stop _ i [] h
    rwa [put_put, put_put, List.nil_append, List.append_nil] at h

-- What is seen of an event is what its steps show.
theorem handle_steps {commands : List Command} (run : ShardActor.Run commands a) (env : Env) (e : Event) :
    Steps ⟨e, a.lastLogIndex < U64.max⟩ (a.observe env).bare
      ((((a.observe env).dispatch e).1.out.drop a.out.length).filter (·.visible))
      ((a.observe env).dispatch e).1.bare := by
  have ⟨effects, steps, seen⟩ := (run.goes env e).reaches
  have ⟨new, out⟩ := (run.moves env e).grows_out
  have out : ((a.observe env).dispatch e).1.out = a.out ++ new := out
  have same : effects = new.filter (·.visible) := by
    have seen : ((a.observe env).dispatch e).1.out.filter (·.visible) = a.out.filter (·.visible) ++ effects := seen
    rw [out, List.filter_append] at seen
    exact (List.append_cancel_left seen).symm
  rw [out, List.drop_left, ← same]
  exact steps

theorem Invariant.handle (inv : Invariant g permits P) {env : Env} {e : Event}
    {request : Option (String × Effect)} (member : i ∈ g.members) (up : (c.members i).actor = some a)
    (run : ShardActor.Run (c.members i).commands a) (allows : c.Allows g i (.handle env e) request)
    (permitted : permits c i (.handle env e)) (h : P c) :
    P (c.handled i a env e) ∧
    ∀ k, P { c.put i none [] (((((a.observe env).dispatch e).1.out.drop a.out.length).filter (·.visible)).take k)
      with clock := env.now } := by
  have h := inv.clock c i _ permitted h
  have h := inv.observe { c with clock := env.now } i a env [] up rfl h
  have turn : Turn permits (put (put { c with clock := env.now } i (some (a.observe env)) [] []) i
      (some (a.observe env).bare) [] []) i ⟨e, a.lastLogIndex < U64.max⟩ (a.observe env).bare :=
    have delivered : { c with clock := env.now }.Delivered i e :=
      allows.delivered.mono (List.Subset.refl _) (List.Subset.refl _)
    .handle up permitted delivered.put.put id .refl
  have ⟨done, crashed⟩ := inv.reaches member (by rw [put_self]) turn (handle_steps run env e) h
  refine ⟨?_, fun k => ?_⟩
  case refine_1 =>
    have h := done ((Work.handle env e).commands (c.members i).commands)
    rwa [put_put, List.nil_append] at h
  case refine_2 =>
    have h := crashed k
    rwa [put_put, List.nil_append] at h

theorem Invariant.boot (inv : Invariant g permits P) {b : ShardActor.Boot} {outcomes : List Outcome}
    (member : i ∈ g.members) (down : (c.members i).actor = none) (permitted : permits c i (.boot b outcomes))
    (name : b.nodeId = i) (peers : b.peers = g.peers i) (h : P c) :
    P { c.put i (some (ShardActor.boot b (c.members i).disk outcomes)) []
      ((ShardActor.boot b (c.members i).disk outcomes : ShardActor σ).out.filter (·.visible)) with
      clock := b.now } ∧
    ∀ k, P { c.put i none []
      (((ShardActor.boot b (c.members i).disk outcomes : ShardActor σ).out.filter (·.visible)).take k) with
      clock := b.now } := by
  have h := inv.clock c i _ permitted h
  rcases ShardActor.boot_goes (σ := σ) b (c.members i).disk outcomes ⟨.tick, True⟩ with
    ⟨halted, quiet | ⟨r, k, recovered, cut⟩⟩ | ⟨r, store, state, effects, started, steps, seen, _⟩
  case inl.inl =>
    simp only [ShardActor.seen] at quiet
    rw [quiet]
    refine ⟨inv.halt _ i _ [] member halted h, fun k => ?_⟩
    rw [List.take_nil]
    exact inv.stop _ i [] h
  case inl.inr =>
    simp only [ShardActor.seen] at cut
    rw [cut]
    refine ⟨?_, fun k' => ?_⟩
    case refine_1 =>
      have h := inv.opens { c with clock := b.now } i r k member down recovered h
      have h := inv.halt _ i _ [] member halted h
      rwa [put_put, List.append_nil] at h
    case refine_2 =>
      rw [← List.map_take, List.take_take]
      exact inv.opens { c with clock := b.now } i r (min k' k) member down recovered h
  case inr =>
    simp only [ShardActor.seen] at seen
    rw [seen]
    have h' := inv.boots { c with clock := b.now } i b r store state member down name peers rfl started h
    obtain ⟨done, crashed⟩ := inv.reaches member (by rw [put_self]) (.boot rfl trivial) steps h'
    refine ⟨?_, fun k => ?_⟩
    case refine_1 =>
      have h := done []
      rwa [put_put] at h
    case refine_2 =>
      rw [List.take_append, ← List.map_take]
      by_cases le : k ≤ ((c.members i).disk.canonicalWrites r.log).length
      case pos =>
        have none : effects.take (k - (((c.members i).disk.canonicalWrites r.log).map Effect.disk).length) = [] := by
          simp [le]
        rw [none, List.append_nil]
        exact inv.opens { c with clock := b.now } i r k member down started.recovered h
      case neg =>
        rw [List.take_of_length_le (by omega)]
        have h := crashed (k - (((c.members i).disk.canonicalWrites r.log).map Effect.disk).length)
        rwa [put_put] at h

theorem Reach.induct (r : Reach g permits c) (inv : Invariant g permits P) : P c := by
  induction r
  case start => exact inv.start
  case step c _ reach step h =>
    cases step
    case done i w request b effects reply member allows permitted does =>
      cases w
      case boot boot outcomes =>
        cases allows
        case boot name peers =>
          obtain ⟨down, rfl, rfl⟩ := Member.does_boot does
          rw [answer_none]
          exact (inv.boot member down permitted name peers h).1
      case handle env e =>
        obtain ⟨a, up, rfl, rfl, rfl⟩ := Member.does_handle does
        have h' := (inv.handle member up (reach.run up) allows permitted h).1
        cases request
        case none =>
          rw [answer_none]
          exact h'
        case some request =>
          cases allows
          case request sent dest =>
            exact inv.reply c i a env e _ _ member up (reach.run up) sent dest permitted h h'
    case crash i w request b effects reply member allows permitted does k =>
      cases w
      case boot boot outcomes =>
        cases allows
        case boot name peers =>
          obtain ⟨down, rfl, rfl⟩ := Member.does_boot does
          exact (inv.boot member down permitted name peers h).2 k
      case handle env e =>
        obtain ⟨a, up, rfl, rfl, rfl⟩ := Member.does_handle does
        exact (inv.handle member up (reach.run up) allows permitted h).2 k

end Induction

end Cluster
