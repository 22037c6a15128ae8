import FiduciaNode.Consensus.Moves

namespace ShardActor

variable {σ : Type}

-- The last request to the peer.
def outstanding (a : ShardActor σ) (peer : String) : Option Effect :=
  a.out.reverse.find? fun effect => effect.sent?.any (·.1 = peer)

variable [StateMachine σ] [PeerPlane]

-- The leader sends a request to the peer, unless one is still on its way, the peer answers it, and the
-- leader handles the answer.
def exchange (peer : String) (env : Env × Env) (actors : ShardActor σ × ShardActor σ) :
    ShardActor σ × ShardActor σ :=
  let leader := (actors.1.observe env.1).sendAppendTo peer
  let follower := actors.2.observe env.2
  match leader.outstanding peer with
  | some (.appendEntries _ request upTo req) =>
    let (follower, resp) := follower.handleAppendEntries req
    ((leader.dispatch (.message (.appendReply peer request upTo (some resp)))).1, follower)
  | some (.installSnapshot _ request upTo req) =>
    let (follower, resp) := follower.handleInstallSnapshot req
    ((leader.dispatch (.message (.snapshotReply peer request upTo (some resp)))).1, follower)
  | _ => (leader, follower)

def rounds (peer : String) (env : Nat → Env × Env) (actors : ShardActor σ × ShardActor σ) :
    Nat → ShardActor σ × ShardActor σ
  | 0     => actors
  | i + 1 => exchange peer (env i) (rounds peer env actors i)

end ShardActor
