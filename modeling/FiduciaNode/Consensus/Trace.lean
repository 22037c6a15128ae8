import FiduciaNode.Consensus.Run

namespace ShardActor

variable {σ : Type} [StateMachine σ] [PeerPlane]

-- The runs of an actor with their events, the latest one first, in which the actor and each event it
-- finds meet a condition, and so does the disk.
inductive Trace (disk : Disk → Prop) (meets : ShardActor σ → Event → Prop) :
    List Command → List Event → ShardActor σ → Prop
  | boot (b : Boot) (d : Disk) (outcomes : List Outcome) (ok : disk d) :
    Trace disk meets [] [] (boot b d outcomes)
  | event {a : ShardActor σ} {commands : List Command} {events : List Event}
    (trace : Trace disk meets commands events a) (env : Env) (e : Event)
    (quiet : ∀ command client, e ≠ .message (.propose command client))
    (ok : meets (a.observe env) e) :
    Trace disk meets commands (e :: events) ((a.observe env).dispatch e).1
  | propose {a : ShardActor σ} {commands : List Command} {events : List Event}
    (trace : Trace disk meets commands events a) (env : Env) (command : Command)
    (ok : meets (a.observe env) (.message (.propose command commands.length))) :
    Trace disk meets (commands ++ [command]) (.message (.propose command commands.length) :: events)
      ((a.observe env).dispatch (.message (.propose command commands.length))).1

-- What an actor may become in the course of further events of any kind.
inductive Later (a : ShardActor σ) : ShardActor σ → Prop
  | refl : Later a a
  | tail {b : ShardActor σ} (later : Later a b) (env : Env) (e : Event) :
    Later a ((b.observe env).dispatch e).1

-- What a run may go on to, with the commands that are proposed by then.
inductive Onward (commands : List Command) (a : ShardActor σ) : List Command → ShardActor σ → Prop
  | refl : Onward commands a commands a
  | event {b : ShardActor σ} {commands' : List Command} (onward : Onward commands a commands' b)
    (env : Env) (e : Event) (quiet : ∀ command client, e ≠ .message (.propose command client)) :
    Onward commands a commands' ((b.observe env).dispatch e).1
  | propose {b : ShardActor σ} {commands' : List Command} (onward : Onward commands a commands' b)
    (env : Env) (command : Command) :
    Onward commands a (commands' ++ [command])
      ((b.observe env).dispatch (.message (.propose command commands'.length))).1

variable {disk : Disk → Prop} {meets : ShardActor σ → Event → Prop} {commands : List Command}
  {events : List Event} {a : ShardActor σ}

theorem Trace.run (trace : Trace disk meets commands events a) : Run commands a := by
  induction trace
  case boot b d outcomes _ => exact .boot b d outcomes
  case event env e quiet _ run => exact .event run env e quiet
  case propose env command _ run => exact .propose run env command

theorem Run.onward {b : ShardActor σ} {commands' : List Command} (run : Run commands a)
    (onward : Onward commands a commands' b) : Run commands' b := by
  induction onward
  case refl => exact run
  case event env e quiet run => exact .event run env e quiet
  case propose env command run => exact .propose run env command

end ShardActor
