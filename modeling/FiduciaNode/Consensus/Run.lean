import FiduciaNode.Consensus.Handle

-- What an actor finds when it handles an event: the clocks and the outcomes of its next operations
-- on the store.
structure Env where
  now      : Instant
  nowMs    : Nat
  outcomes : List Outcome

inductive Event
  | tick
  | message (msg : ShardMsg)

namespace ShardActor

variable {σ : Type}

def observe (a : ShardActor σ) (env : Env) : ShardActor σ :=
  { a with
    now   := env.now
    nowMs := env.nowMs
    store := a.store.map ({ · with outcomes := env.outcomes })
  }

variable [StateMachine σ] [PeerPlane]

def dispatch (a : ShardActor σ) : Event → ShardActor σ × Reply σ
  | .tick        => (a.onTick, .none)
  | .message msg => a.handle msg

-- The runs of an actor and the commands that were proposed to it. Every client proposes one command
-- and gets its answer on a channel of its own.
inductive Run : List Command → ShardActor σ → Prop
  | boot (b : Boot) (d : Disk) (outcomes : List Outcome) : Run [] (boot b d outcomes)
  | event {a : ShardActor σ} {commands : List Command} (run : Run commands a) (env : Env) (e : Event)
    (quiet : ∀ command client, e ≠ .message (.propose command client)) :
    Run commands ((a.observe env).dispatch e).1
  | propose {a : ShardActor σ} {commands : List Command} (run : Run commands a) (env : Env)
    (command : Command) :
    Run (commands ++ [command])
      ((a.observe env).dispatch (.message (.propose command commands.length))).1

end ShardActor
