import FiduciaNode.Consensus.Trace
import FiduciaNode.Consensus.Theorems.Acknowledgement

namespace ShardActor

variable {σ : Type} [StateMachine σ] [PeerPlane] {e : Event} {start a b c : ShardActor σ}
  {commands : List Command} {events : List Event}

section Induction

variable {disk : Disk → Prop} {meets : ShardActor σ → Event → Prop}
  {P : List Event → ShardActor σ → Prop}

-- A property of the events and the actor holds in every trace if it holds at the start and every move
-- preserves it. No event has caused the moves of a start.
theorem Trace.induct (trace : Trace disk meets commands events a) (idle : Event)
    (quarantine : ∀ b reason (steps : List DiskStep),
      P [] { quarantined b reason with out := steps.map .disk })
    (initial : ∀ b d r store state, disk d → Started b d r store state → P [] (initial b store r state))
    (boots : ∀ start a b, Move idle start a b → P [] a → P [] b)
    (opened : ∀ a (steps : List DiskStep), P [] a → P [] { a with out := steps.map .disk ++ a.out })
    (arrives : ∀ events a env e, meets (a.observe env) e → P events a → P (e :: events) (a.observe env))
    (move : ∀ events e start a b, meets start e → P (e :: events) start → Moves e start start a →
      Move e start a b → P (e :: events) a → P (e :: events) b) :
    P events a := by
  have run (events : List Event) (e : Event) (start : ShardActor σ) (ok : meets start e)
      (h : P (e :: events) start) (b : ShardActor σ) (m : Moves e start start b) : P (e :: events) b := by
    induction m
    case refl => exact h
    case tail m step ih => exact move events e start _ _ ok h m step ih
  induction trace
  case boot b d outcomes ok =>
    rcases boot_cases (σ := σ) b d outcomes with ⟨reason, steps, eq, _⟩ | ⟨r, store, state, started, eq⟩
    case inl =>
      rw [eq]
      exact quarantine b reason steps
    case inr =>
      rw [eq]
      refine opened _ _ ?_
      have m : Moves idle _ _ _ := started.moves
      generalize awake b store r state = a at m
      induction m
      case refl => exact initial b d r store state ok started
      case tail step ih => exact boots _ _ _ step ih
  case event trace env e _ ok ih =>
    exact run _ e _ ok (arrives _ _ env e ok ih) _ (trace.run.moves env e)
  case propose trace env command ok ih =>
    exact run _ _ _ ok (arrives _ _ env _ ok ih) _ (trace.run.moves env _)

end Induction

end ShardActor
