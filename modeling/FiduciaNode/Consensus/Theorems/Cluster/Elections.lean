import FiduciaNode.Consensus.Theorems.Cluster.Basic

namespace Meta

variable {m m₁ m₂ m₃ : Meta}

-- The second hard state may come after the first one: its term is later or the vote still stands.
def Before (m₁ m₂ : Meta) : Prop :=
  m₁.currentTerm < m₂.currentTerm ∨
  m₁.currentTerm = m₂.currentTerm ∧ (m₁.votedFor = none ∨ m₁.votedFor = m₂.votedFor)

theorem Before.refl (m : Meta) : Before m m :=
  .inr ⟨rfl, .inr rfl⟩

theorem Before.of_eq (term : m₁.currentTerm = m₂.currentTerm) (vote : m₁.votedFor = m₂.votedFor) :
    Before m₁ m₂ :=
  .inr ⟨term, .inr vote⟩

theorem Before.trans (h₁ : Before m₁ m₂) (h₂ : Before m₂ m₃) : Before m₁ m₃ := by
  simp only [Before] at *
  rcases h₁ with _ | ⟨_, none | same⟩ <;> rcases h₂ with _ | ⟨_, none' | same'⟩
  case inr.inr.inr.inr => exact .inr ⟨by omega, .inr (same.trans same')⟩
  case inr.inr.inr.inl => exact .inr ⟨by omega, .inl (same.trans none')⟩
  case inr.inl.inr.inl | inr.inl.inr.inr => exact .inr ⟨by omega, .inl none⟩
  all_goals exact .inl (by omega)

def fresh : Meta where
  currentTerm := 0
  votedFor    := none
  commitIndex := 0

end Meta

namespace Disk

variable {d : Disk} {effects : List Effect} {m : Meta}

def hard (d : Disk) : Meta :=
  d.hardState.getD .fresh

-- The hard state is the last one that was written.
theorem hardState_after (d : Disk) (effects : List Effect) :
    (∀ m, .disk (.writeMeta m) ∉ effects) ∧ (d.after effects).hardState = d.hardState ∨
    ∃ m, .disk (.writeMeta m) ∈ effects ∧ (d.after effects).hardState = some m := by
  induction effects using List.reverseRecOn
  case nil => exact .inl ⟨by simp, rfl⟩
  case append_singleton effects effect ih =>
    rw [after_append]
    by_cases h : ∃ m, effect = .disk (.writeMeta m)
    case pos =>
      obtain ⟨m, rfl⟩ := h
      exact .inr ⟨m, by simp, rfl⟩
    case neg =>
      have same (d : Disk) : (d.after [effect]).hardState = d.hardState := by
        cases effect
        case disk step =>
          cases step
          case writeMeta m => exact absurd ⟨m, rfl⟩ h
          all_goals rfl
        all_goals rfl
      rw [same]
      rcases ih with ⟨none, eq⟩ | ⟨m, mem, eq⟩
      case inl =>
        refine .inl ⟨fun m mem => ?_, eq⟩
        rcases List.mem_append.mp mem with mem | mem
        case inl => exact none m mem
        case inr => exact h ⟨m, (List.mem_singleton.mp mem).symm⟩
      case inr => exact .inr ⟨m, List.mem_append_left _ mem, eq⟩

end Disk

namespace ShardActor

variable {σ : Type} {a b : ShardActor σ} {o : Occasion} {effects : List Effect} {effect : Effect} {m : Meta}

section Acts

theorem mem_writes {step : DiskStep} {steps : List DiskStep} (h : .disk step ∈ a.writes steps) :
    step ∈ steps := by
  simp only [writes] at h
  split at h
  case isTrue => simpa using h
  case isFalse => contradiction

theorem eq_disk_of_mem_writes {steps : List DiskStep} (h : effect ∈ a.writes steps) :
    ∃ step, effect = .disk step := by
  simp only [writes] at h
  split at h
  case isTrue =>
    obtain ⟨step, _, rfl⟩ := List.mem_map.mp h
    exact ⟨step, rfl⟩
  case isFalse => contradiction

theorem stored_isSome (n : Nat) : (a.stored n).store.isSome = a.store.isSome := by
  simp [stored]

-- The effect has nothing to do with an election: a hard state only repeats the term and the vote.
def Uneventful (a : ShardActor σ) : Effect → Prop
  | .disk (.writeMeta m) => m.currentTerm = a.currentTerm ∧ m.votedFor = a.votedFor
  | .requestVote .. | .becameLeader _ => False
  | _ => True

theorem uneventful_writes {steps : List DiskStep}
    (h : ∀ m, .writeMeta m ∈ steps → m.currentTerm = a.currentTerm ∧ m.votedFor = a.votedFor) :
    ∀ effect ∈ a.writes steps, a.Uneventful effect := by
  intro effect mem
  obtain ⟨step, rfl⟩ := eq_disk_of_mem_writes mem
  cases step
  case writeMeta m => exact h m (mem_writes mem)
  all_goals trivial

theorem writeMeta_notMem_appendLog {log : List LogEntry} :
    DiskStep.writeMeta m ∉ log.map DiskStep.appendLog := by
  simp

theorem merged_election (s : Appended σ) : (a.merged s).currentTerm = a.currentTerm ∧
    (a.merged s).votedFor = a.votedFor ∧ (a.merged s).votes = a.votes ∧ (a.merged s).role = a.role := by
  simp only [merged]
  split
  case isTrue => exact ⟨rfl, rfl, rfl, rfl⟩
  case isFalse => split <;> exact ⟨rfl, rfl, rfl, rfl⟩

variable [StateMachine σ] [PeerPlane]

-- What an actor knows of its place in the group.
structure Identity (a b : ShardActor σ) : Prop where
  nodeId : b.nodeId = a.nodeId
  peers  : b.peers = a.peers
  store  : b.store.isSome = a.store.isSome

theorem Act.identity (act : Act o a effects b) : Identity a b := by
  cases act
  case lead | extend | install | compact => exact ⟨rfl, rfl, stored_isSome _⟩
  case accept req _ _ s _ =>
    simp only [followedUpTo, merged]
    split
    case isTrue => exact ⟨rfl, rfl, stored_isSome _⟩
    case isFalse =>
      split
      case isTrue => exact ⟨rfl, rfl, stored_isSome _⟩
      case isFalse => exact ⟨rfl, rfl, rfl⟩
  case apply entry _ _ =>
    simp only [appliedNext]
    cases entry.command <;> exact ⟨rfl, rfl, rfl⟩
  all_goals exact ⟨rfl, rfl, rfl⟩

-- What an action is in an election.
inductive Ballot (o : Occasion) (a : ShardActor σ) : List Effect → ShardActor σ → Prop
  | quiet {effects : List Effect} {b : ShardActor σ} (uneventful : ∀ effect ∈ effects, a.Uneventful effect)
    (term : b.currentTerm = a.currentTerm) (vote : b.votedFor = a.votedFor) (votes : b.votes ⊆ a.votes)
    (role : b.role = .leader → a.role = .leader) : Ballot o a effects b
  | adopt (term : Nat) (le : a.currentTerm ≤ term) :
    Ballot o a (a.writes [.writeMeta (a.adopted term).hardState]) (a.adopted term)
  | campaign : Ballot o a (a.writes [.writeMeta a.campaigning.hardState]) a.campaigning
  | solicit (preVote : Bool) : Ballot o a (a.peers.map (.requestVote · (a.voteRequest preVote))) a
  | grant (candidate : String) (free : a.votedFor.all (· = candidate)) :
    Ballot o a (a.writes [.writeMeta { a with votedFor := some candidate }.hardState])
      { a with votedFor := some candidate }
  | count (voter : String) (resp : RequestVoteResp) (reply : o.event = .message (.voteReply voter false resp))
    (term : resp.term = a.currentTerm) (granted : resp.granted = true) :
    Ballot o a [] { a with votes := insert voter a.votes }
  | lead (elected : a.majority ≤ a.votes.card) :
    Ballot o a (.becameLeader a.currentTerm :: a.writes (a.nextWrites none)) (a.leading.extended none)

theorem Act.ballot (act : Act o a effects b) : Ballot o a effects b := by
  cases act
  case adopt term le => exact .adopt term le
  case campaign => exact .campaign
  case solicit preVote _ => exact .solicit preVote
  case grant req _ _ _ free _ => exact .grant req.candidateId free
  case count voter resp reply _ term granted => exact .count voter resp reply term granted
  case lead _ elected _ => exact .lead elected
  case abandon => exact .quiet (by simp) rfl rfl (Finset.empty_subset _) (by simp [abandoned])
  case follow => exact .quiet (by simp) rfl rfl (Finset.empty_subset _) (by simp [following])
  case extend command _ _ =>
    refine .quiet (uneventful_writes fun m mem => ?_) rfl rfl subset_rfl id
    exact absurd mem writeMeta_notMem_appendLog
  case accept req _ _ s _ =>
    have ⟨term, vote, votes, role⟩ := a.merged_election s
    refine .quiet (uneventful_writes fun m mem => ?_) term vote votes.subset (role ▸ id)
    rcases List.mem_append.mp mem with mem | mem
    case inl =>
      simp only [mergeWrites] at mem
      split at mem
      case isTrue => simp at mem
      case isFalse =>
        split at mem
        case isTrue => exact absurd mem writeMeta_notMem_appendLog
        case isFalse => contradiction
    case inr =>
      simp only [followWrites] at mem
      split at mem
      case isTrue =>
        cases List.mem_singleton.mp mem
        exact ⟨term, vote⟩
      case isFalse => contradiction
  case install => exact .quiet (uneventful_writes fun m mem => by simp at mem; exact mem ▸ ⟨rfl, rfl⟩) rfl rfl subset_rfl id
  case commit => exact .quiet (uneventful_writes fun m mem => by simp at mem; exact mem ▸ ⟨rfl, rfl⟩) rfl rfl subset_rfl id
  case compact => exact .quiet (uneventful_writes fun m mem => by simp at mem) rfl rfl subset_rfl id
  case apply entry _ _ =>
    refine .quiet (by simp [Uneventful]) ?_ ?_ ?_ ?_
    all_goals
      simp only [appliedNext]
      cases entry.command <;> simp
  case contact | advance | rewind => exact .quiet (by simp) rfl rfl subset_rfl id
  case sendAppend | sendSnapshot => exact .quiet (by simp [Uneventful]) rfl rfl subset_rfl id

end Acts

-- The vote that is answered is the one that the voter has in mind.
theorem handleRequestVote_granted [StateMachine σ] {req : RequestVoteReq} (real : req.preVote = false)
    (granted : (a.handleRequestVote req).2.granted) :
    (a.handleRequestVote req).1.storageFault = none ∧
    (a.handleRequestVote req).1.votedFor = some req.candidateId ∧
    (a.handleRequestVote req).1.currentTerm = (a.handleRequestVote req).2.term := by
  simp only [handleRequestVote] at granted ⊢
  split at granted
  case isTrue => simp [denied] at granted
  case isFalse alive =>
    rw [if_neg alive]
    rw [real] at granted ⊢
    simp only [Bool.false_eq_true, if_false] at granted ⊢
    split at granted
    case isTrue => simp [denied] at granted
    case isFalse lt =>
      rw [if_neg lt]
      generalize (if req.term > a.currentTerm then a.stepDown req.term none else a) = a at granted ⊢
      split at granted
      case isTrue => simp [denied] at granted
      case isFalse alive =>
        rw [if_neg alive]
        split at granted
        case isFalse => simp [denied] at granted
        case isTrue free =>
          rw [if_pos free]
          simp only [grantVote] at granted ⊢
          split at granted
          case h_1 => simp [denied] at granted
          case h_2 b saved =>
            obtain ⟨store, out, rfl⟩ := onStore_eq saved
            exact ⟨by simpa [resetElectionDeadline] using alive, rfl, rfl⟩

end ShardActor

namespace Cluster

variable {σ : Type} [StateMachine σ] {g : ShardGroup} {c : Cluster σ} {i j v x : String} {T : Nat}

def Voted (c : Cluster σ) (v : String) (T : Nat) (x : String) : Prop :=
  ∃ m, (v, .disk (.writeMeta m)) ∈ c.history ∧ m.currentTerm = T ∧ m.votedFor = some x

def Led (c : Cluster σ) (i : String) (T : Nat) : Prop :=
  (i, .becameLeader T) ∈ c.history

-- A majority has voted for the member.
def Elected (g : ShardGroup) (c : Cluster σ) (i : String) (T : Nat) : Prop :=
  ∃ voters ⊆ g.members.toFinset, g.members.length / 2 + 1 ≤ voters.card ∧ ∀ v ∈ voters, c.Voted v T i

-- An actor that takes part votes and leads in accordance with what is on record.
structure Polling (g : ShardGroup) (c : Cluster σ) (i : String) (a : ShardActor σ) : Prop where
  nodeId : a.nodeId = i
  peers  : a.peers = g.peers i
  stored : a.store.isSome
  after  : Meta.Before (c.members i).disk.hard a.hardState
  voted  : ∀ x, a.votedFor = some x → c.Voted i a.currentTerm x
  votes  : ∀ v ∈ a.votes, v ∈ g.members ∧ c.Voted v a.currentTerm i
  led    : a.role = .leader → c.Led i a.currentTerm

structure Elections (g : ShardGroup) (c : Cluster σ) : Prop where
  saved   : ∀ i m, (i, .disk (.writeMeta m)) ∈ c.history → Meta.Before m (c.members i).disk.hard
  chain   : ∀ i m m', (i, .disk (.writeMeta m)) ∈ c.history → (i, .disk (.writeMeta m')) ∈ c.history →
    Meta.Before m m' ∨ Meta.Before m' m
  written : ∀ i m, (c.members i).disk.hardState = some m → (i, .disk (.writeMeta m)) ∈ c.history
  polling : ∀ i a, (c.members i).actor = some a → a.storageFault = none → Polling g c i a
  asked   : ∀ i v req, (i, .requestVote v req) ∈ c.history → req.candidateId = i ∧ v ∈ g.members
  granted : ∀ i v req resp, (i, .requestVote v req, .requestVote resp) ∈ c.replies →
    req.preVote = false → resp.granted → v ∈ g.members ∧ c.Voted v resp.term i
  elected : ∀ i T, c.Led i T → Elected g c i T

section Invariant

theorem Voted.put {actor : Option (ShardActor σ)} {commands : List Command} {effects : List Effect}
    (h : c.Voted v T x) : (c.put i actor commands effects).Voted v T x :=
  have ⟨m, mem, eq⟩ := h
  ⟨m, mem_history_put.mpr (.inl mem), eq⟩

theorem Elected.put {actor : Option (ShardActor σ)} {commands : List Command} {effects : List Effect}
    (h : Elected g c i T) : Elected g (c.put j actor commands effects) i T :=
  have ⟨voters, members, majority, voted⟩ := h
  ⟨voters, members, majority, fun v mem => (voted v mem).put⟩

theorem Polling.put {a : ShardActor σ} {actor : Option (ShardActor σ)} {commands : List Command}
    {effects : List Effect} (p : Polling g c i a) (ne : i ≠ j) :
    Polling g (c.put j actor commands effects) i a where
  nodeId       := p.nodeId
  peers        := p.peers
  stored       := p.stored
  after        := by
    rw [put_other ne]
    exact p.after
  voted x h    := (p.voted x h).put
  votes v h    := ⟨(p.votes v h).1, (p.votes v h).2.put⟩
  led h        := mem_history_put.mpr (.inl (p.led h))

-- The effects of a member keep to the rules of elections.
structure Fair (g : ShardGroup) (c : Cluster σ) (i : String) (effects : List Effect) : Prop where
  saved : ∃ T vote, Meta.Before (c.members i).disk.hard ⟨T, vote, 0⟩ ∧
    ∀ m, .disk (.writeMeta m) ∈ effects → m.currentTerm = T ∧ m.votedFor = vote
  asked : ∀ v req, .requestVote v req ∈ effects → req.candidateId = i ∧ v ∈ g.members
  led   : ∀ T, .becameLeader T ∈ effects → Elected g c i T

theorem Fair.take {effects : List Effect} (f : Fair g c i effects) (k : Nat) :
    Fair g c i (effects.take k) where
  saved       :=
    have ⟨T, vote, before, saved⟩ := f.saved
    ⟨T, vote, before, fun m mem => saved m (List.mem_of_mem_take mem)⟩
  asked v req h := f.asked v req (List.mem_of_mem_take h)
  led T h     := f.led T (List.mem_of_mem_take h)

theorem Fair.nil : Fair g c i [] where
  saved       := ⟨_, _, .refl (c.members i).disk.hard, by simp⟩
  asked _ _ h := by contradiction
  led _ h     := by contradiction

theorem Elections.put {effects : List Effect} {actor : Option (ShardActor σ)} {commands : List Command}
    (e : Elections g c) (f : Fair g c i effects)
    (p : ∀ a, actor = some a → a.storageFault = none → Polling g (c.put i actor commands effects) i a) :
    Elections g (c.put i actor commands effects) where
  saved j m h   := by
    by_cases same : j = i
    case neg =>
      rw [put_other same]
      exact e.saved j m ((mem_history_put.mp h).resolve_right fun h => same h.1)
    case pos =>
      subst same
      have ⟨T, vote, before, saved⟩ := f.saved
      rw [put_self]
      have h := (mem_history_put.mp h).imp_right And.right
      rcases (c.members j).disk.hardState_after effects with ⟨none, eq⟩ | ⟨m', mem, eq⟩
      case inl =>
        rw [Disk.hard, eq]
        exact e.saved j m (h.resolve_right (none m))
      case inr =>
        have last : Meta.Before ⟨T, vote, 0⟩ m' := .of_eq (saved m' mem).1.symm (saved m' mem).2.symm
        rw [Disk.hard, eq]
        rcases h with old | new
        case inl => exact (e.saved j m old).trans (before.trans last)
        case inr => exact (Meta.Before.of_eq (saved m new).1 (saved m new).2).trans last
  chain j m m' h h' := by
    have ⟨T, vote, before, saved⟩ := f.saved
    -- What is new comes after all that is old, and the new ones are alike.
    have later (m : Meta) (old : (i, .disk (.writeMeta m)) ∈ c.history) : Meta.Before m ⟨T, vote, 0⟩ :=
      (e.saved i m old).trans before
    have new (m : Meta) (mem : .disk (.writeMeta m) ∈ effects) :
        Meta.Before ⟨T, vote, 0⟩ m ∧ Meta.Before m ⟨T, vote, 0⟩ :=
      have ⟨term, vote⟩ := saved m mem
      ⟨.of_eq term.symm vote.symm, .of_eq term vote⟩
    rcases mem_history_put.mp h with old | ⟨rfl, mem⟩ <;> rcases mem_history_put.mp h' with old' | ⟨same, mem'⟩
    case inl.inl => exact e.chain j m m' old old'
    case inl.inr => exact .inl ((later m (same ▸ old)).trans (new m' mem').1)
    case inr.inl => exact .inr ((later m' old').trans (new m mem).1)
    case inr.inr => exact .inl ((new m mem).2.trans (new m' mem').1)
  written j m h := by
    refine mem_history_put.mpr ?_
    by_cases same : j = i
    case neg =>
      rw [put_other same] at h
      exact .inl (e.written j m h)
    case pos =>
      subst same
      rw [put_self] at h
      rcases (c.members j).disk.hardState_after effects with ⟨_, eq⟩ | ⟨m', mem, eq⟩
      case inl => exact .inl (e.written j m (eq ▸ h))
      case inr =>
        cases eq.symm.trans h
        exact .inr ⟨rfl, mem⟩
  polling j a up alive := by
    by_cases same : j = i
    case neg =>
      rw [put_other same] at up
      exact (e.polling j a up alive).put same
    case pos =>
      subst same
      rw [put_self] at up
      exact p a up alive
  asked j v req h := by
    rcases mem_history_put.mp h with old | ⟨rfl, new⟩
    case inl => exact e.asked j v req old
    case inr => exact f.asked v req new
  granted j v req resp h real granted :=
    have ⟨member, voted⟩ := e.granted j v req resp h real granted
    ⟨member, voted.put⟩
  elected j T h := by
    rcases mem_history_put.mp h with old | ⟨rfl, new⟩
    case inl => exact (e.elected j T old).put
    case inr => exact (f.led T new).put

variable {o : Occasion} {a b : ShardActor σ} {effects : List Effect} {commands : List Command} {m : Meta}

theorem Polling.fair_writeMeta (p : Polling g c i a) (later : Meta.Before a.hardState m) :
    Fair g c i (a.writes [.writeMeta m]) where
  saved := by
    refine ⟨m.currentTerm, m.votedFor, p.after.trans (later.trans (.of_eq rfl rfl)), fun m' mem => ?_⟩
    cases List.mem_singleton.mp (ShardActor.mem_writes mem)
    exact ⟨rfl, rfl⟩
  asked v req mem := nomatch (ShardActor.eq_disk_of_mem_writes mem).choose_spec
  led T mem       := nomatch (ShardActor.eq_disk_of_mem_writes mem).choose_spec

omit [StateMachine σ] in
theorem before_adopted {term : Nat} (le : a.currentTerm ≤ term) :
    Meta.Before a.hardState (a.adopted term).hardState := by
  rcases Nat.lt_or_eq_of_le le with lt | rfl
  case inl => exact .inl lt
  case inr => exact .of_eq rfl (by simp [ShardActor.hardState, ShardActor.adopted])

omit [StateMachine σ] in
theorem before_granted {candidate : String} (free : a.votedFor.all (· = candidate)) :
    Meta.Before a.hardState { a with votedFor := some candidate }.hardState := by
  refine .inr ⟨rfl, ?_⟩
  cases vote : a.votedFor
  case none => exact .inl vote
  case some x =>
    have : x = candidate := by simpa [vote] using free
    exact .inr (by simp [ShardActor.hardState, vote, this])

theorem mem_of_mem_peers (member : i ∈ g.members) (h : v ∈ g.peers i) : v ∈ g.members :=
  (g.perm i member).subset (List.mem_cons_of_mem _ h)

theorem Polling.fair (p : Polling g c i a) (member : i ∈ g.members) (ballot : a.Ballot o effects b) :
    Fair g c i effects := by
  cases ballot
  case quiet uneventful _ _ _ _ =>
    exact ⟨⟨a.currentTerm, a.votedFor, p.after.trans (.of_eq rfl rfl), fun m mem => uneventful _ mem⟩,
      fun v req mem => (uneventful _ mem).elim, fun T mem => (uneventful _ mem).elim⟩
  case adopt term le => exact p.fair_writeMeta (before_adopted le)
  case campaign => exact p.fair_writeMeta (.inl (Nat.lt_succ_self _))
  case grant candidate free => exact p.fair_writeMeta (before_granted free)
  case count => exact .nil
  case solicit preVote =>
    refine ⟨⟨_, _, .refl (c.members i).disk.hard, by simp⟩, fun v req mem => ?_, by simp⟩
    obtain ⟨peer, known, eq⟩ := List.mem_map.mp mem
    cases eq
    exact ⟨p.nodeId, mem_of_mem_peers member (p.peers ▸ known)⟩
  case lead elected =>
    have majority : a.majority = g.members.length / 2 + 1 := by
      have := (g.perm i member).length_eq
      rw [ShardActor.majority, ShardActor.members, p.peers, ← this, List.length_cons]
    refine ⟨⟨_, _, .refl (c.members i).disk.hard, fun m mem => ?_⟩, fun v req mem => ?_, fun T mem => ?_⟩
    case refine_1 =>
      rcases List.mem_cons.mp mem with eq | mem
      case inl => contradiction
      case inr => exact absurd (ShardActor.mem_writes mem) ShardActor.writeMeta_notMem_appendLog
    case refine_2 =>
      rcases List.mem_cons.mp mem with eq | mem
      case inl => contradiction
      case inr => obtain ⟨_, ⟨⟩⟩ := ShardActor.eq_disk_of_mem_writes mem
    case refine_3 =>
      rcases List.mem_cons.mp mem with eq | mem
      case inl =>
        cases eq
        exact ⟨a.votes, fun v mem => List.mem_toFinset.mpr (p.votes v mem).1, majority ▸ elected,
          fun v mem => (p.votes v mem).2⟩
      case inr => obtain ⟨_, ⟨⟩⟩ := ShardActor.eq_disk_of_mem_writes mem

-- The hard state on the disk does not get ahead of the one in memory.
theorem Polling.after_put (p : Polling g c i a) (mono : Meta.Before a.hardState b.hardState)
    (saved : ∀ m, .disk (.writeMeta m) ∈ effects → m.currentTerm = b.currentTerm ∧ m.votedFor = b.votedFor) :
    Meta.Before ((c.put i (some b) commands effects).members i).disk.hard b.hardState := by
  rw [put_self]
  rcases (c.members i).disk.hardState_after effects with ⟨_, eq⟩ | ⟨m, mem, eq⟩
  case inl =>
    rw [Disk.hard, eq]
    exact p.after.trans mono
  case inr =>
    rw [Disk.hard, eq]
    exact .of_eq (saved m mem).1 (saved m mem).2

theorem Polling.mem_writes (p : Polling g c i a) (step : DiskStep) :
    (i, .disk step) ∈ (c.put i (some b) commands (a.writes [step])).history :=
  mem_history_put.mpr (.inr ⟨rfl, by simp [ShardActor.writes, p.stored]⟩)

-- The voter has voted for the member that counts the vote.
theorem Elections.counted {voter : String} {resp : RequestVoteResp} (e : Elections g c)
    (delivered : c.Delivered i (.message (.voteReply voter false resp))) (granted : resp.granted) :
    voter ∈ g.members ∧ c.Voted voter resp.term i := by
  cases delivered
  case own own => contradiction
  case request effect _ dest => cases effect <;> simp [Effect.request?] at dest
  case reply effect reply replied callback =>
    cases effect <;> cases reply <;> simp [Effect.callback?] at callback
    obtain ⟨rfl, real, rfl⟩ := callback
    exact e.granted i _ _ _ replied real granted

theorem Polling.act (p : Polling g c i a) (e : Elections g c) (member : i ∈ g.members) (ballot : a.Ballot o effects b)
    (delivered : c.Delivered i o.event) (identity : a.Identity b) :
    Polling g (c.put i (some b) commands effects) i b := by
  have nodeId := identity.nodeId.trans p.nodeId
  have peers := identity.peers.trans p.peers
  have stored : b.store.isSome := identity.store ▸ p.stored
  cases ballot
  case quiet uneventful term vote votes role =>
    refine ⟨nodeId, peers, stored, ?_, fun x h => ?_, fun v h => ?_, fun h => ?_⟩
    case refine_1 =>
      refine p.after_put (.of_eq term.symm vote.symm) fun m mem => ?_
      rw [term, vote]
      exact uneventful _ mem
    case refine_2 =>
      rw [term]
      exact (p.voted x (vote ▸ h)).put
    case refine_3 =>
      rw [term]
      exact ⟨(p.votes v (votes h)).1, (p.votes v (votes h)).2.put⟩
    case refine_4 =>
      rw [term]
      exact mem_history_put.mpr (.inl (p.led (role h)))
  case adopt term le =>
    refine ⟨nodeId, peers, stored, ?_, fun x h => ?_, by simp [ShardActor.adopted], by simp [ShardActor.adopted]⟩
    case refine_1 =>
      refine p.after_put (before_adopted le) fun m mem => ?_
      cases List.mem_singleton.mp (ShardActor.mem_writes mem)
      exact ⟨rfl, rfl⟩
    case refine_2 =>
      have same : term = a.currentTerm := by
        by_contra ne
        have lt : a.currentTerm < term := by omega
        simp [ShardActor.adopted, lt] at h
      subst same
      exact (p.voted x (by simpa [ShardActor.adopted] using h)).put
  case campaign =>
    have own : Voted (c.put i (some a.campaigning) commands (a.writes [.writeMeta a.campaigning.hardState])) i
        a.campaigning.currentTerm i :=
      ⟨_, p.mem_writes _, rfl, congrArg some p.nodeId⟩
    refine ⟨nodeId, peers, stored, ?_, fun x h => ?_, fun v h => ?_, by simp [ShardActor.campaigning]⟩
    case refine_1 =>
      refine p.after_put (.inl (Nat.lt_succ_self _)) fun m mem => ?_
      cases List.mem_singleton.mp (ShardActor.mem_writes mem)
      exact ⟨rfl, rfl⟩
    case refine_2 =>
      obtain rfl : i = x := p.nodeId.symm.trans (Option.some.inj h)
      exact own
    case refine_3 =>
      obtain rfl : v = i := (Finset.mem_singleton.mp h).trans p.nodeId
      exact ⟨member, own⟩
  case grant candidate free =>
    refine ⟨nodeId, peers, stored, ?_, fun x h => ?_, fun v h => ?_, fun h => ?_⟩
    case refine_1 =>
      refine p.after_put (before_granted free) fun m mem => ?_
      cases List.mem_singleton.mp (ShardActor.mem_writes mem)
      exact ⟨rfl, rfl⟩
    case refine_2 => exact ⟨_, p.mem_writes _, rfl, h⟩
    case refine_3 => exact ⟨(p.votes v h).1, (p.votes v h).2.put⟩
    case refine_4 => exact mem_history_put.mpr (.inl (p.led h))
  case solicit preVote =>
    refine ⟨nodeId, peers, stored, p.after_put (.refl _) (by simp), fun x h => (p.voted x h).put,
      fun v h => ⟨(p.votes v h).1, (p.votes v h).2.put⟩, fun h => mem_history_put.mpr (.inl (p.led h))⟩
  case count voter resp reply term granted =>
    have counted := e.counted (reply ▸ delivered) granted
    refine ⟨nodeId, peers, stored, p.after_put (.refl _) (by simp), fun x h => (p.voted x h).put, fun v h => ?_,
      fun h => mem_history_put.mpr (.inl (p.led h))⟩
    rcases Finset.mem_insert.mp h with rfl | h
    case inl => exact ⟨counted.1, term ▸ counted.2.put⟩
    case inr => exact ⟨(p.votes v h).1, (p.votes v h).2.put⟩
  case lead elected =>
    refine ⟨nodeId, peers, stored, ?_, fun x h => (p.voted x h).put, fun v h => ?_, fun h => ?_⟩
    case refine_1 =>
      refine p.after_put (.of_eq rfl rfl) fun m mem => ?_
      rcases List.mem_cons.mp mem with eq | mem
      case inl => contradiction
      case inr => exact absurd (ShardActor.mem_writes mem) ShardActor.writeMeta_notMem_appendLog
    case refine_2 => simp [ShardActor.extended, ShardActor.lengthened, ShardActor.stored, ShardActor.leading] at h
    case refine_3 => exact mem_history_put.mpr (.inr ⟨rfl, List.mem_cons_self⟩)

theorem Polling.congr {c' : Cluster σ} (p : Polling g c i a) (history : c.history ⊆ c'.history)
    (disk : (c'.members i).disk = (c.members i).disk) (nodeId : b.nodeId = a.nodeId) (peers : b.peers = a.peers)
    (store : b.store.isSome = a.store.isSome) (term : b.currentTerm = a.currentTerm)
    (vote : b.votedFor = a.votedFor) (votes : b.votes = a.votes) (role : b.role = a.role) :
    Polling g c' i b := by
  have voted {v : String} {T : Nat} {x : String} (h : c.Voted v T x) : c'.Voted v T x :=
    have ⟨m, mem, eq⟩ := h
    ⟨m, history mem, eq⟩
  refine ⟨nodeId.trans p.nodeId, peers.trans p.peers, store ▸ p.stored, ?_, fun x h => ?_, fun v h => ?_,
    fun h => ?_⟩
  case refine_1 =>
    rw [disk]
    exact p.after.trans (.of_eq term.symm vote.symm)
  case refine_2 => exact term ▸ voted (p.voted x (vote ▸ h))
  case refine_3 => exact term ▸ ⟨(p.votes v (votes ▸ h)).1, voted (p.votes v (votes ▸ h)).2⟩
  case refine_4 => exact term ▸ history (p.led (role ▸ h))

theorem Elections.same {c' : Cluster σ} (e : Elections g c) (members : c'.members = c.members)
    (history : c'.history = c.history) (replies : ∀ i v req resp,
      (i, .requestVote v req, .requestVote resp) ∈ c'.replies → req.preVote = false → resp.granted →
      v ∈ g.members ∧ c.Voted v resp.term i) :
    Elections g c' := by
  have voted {v : String} {T : Nat} {x : String} (h : c.Voted v T x) : c'.Voted v T x :=
    have ⟨m, mem, eq⟩ := h
    ⟨m, history ▸ mem, eq⟩
  refine ⟨fun i m h => ?_, fun i m m' h h' => ?_, fun i m h => ?_, fun i a up alive => ?_, fun i v req h => ?_,
    fun i v req resp h real granted => ?_, fun i T h => ?_⟩
  case refine_1 => exact members ▸ e.saved i m (history ▸ h)
  case refine_2 => exact e.chain i m m' (history ▸ h) (history ▸ h')
  case refine_3 => exact history ▸ e.written i m (members ▸ h)
  case refine_4 =>
    exact (e.polling i a (members ▸ up) alive).congr (history ▸ List.Subset.refl _) (by rw [members])
      rfl rfl rfl rfl rfl rfl rfl
  case refine_5 => exact e.asked i v req (history ▸ h)
  case refine_6 =>
    have ⟨member, h⟩ := replies i v req resp h real granted
    exact ⟨member, voted h⟩
  case refine_7 =>
    have h : c.Led i T := by simpa only [Led, history] using h
    have ⟨voters, members, majority, h⟩ := e.elected i T h
    exact ⟨voters, members, majority, fun v mem => voted (h v mem)⟩

-- Opening the files writes a hard state only if there is none.
theorem fair_opens {log : List LogEntry} :
    Fair g c i (((c.members i).disk.canonicalWrites log).map .disk) := by
  refine ⟨?_, by simp, by simp⟩
  cases written : (c.members i).disk.hardState
  case none =>
    refine ⟨0, none, by rw [Disk.hard, written]; exact .refl _, fun m mem => ?_⟩
    obtain ⟨step, mem, eq⟩ := List.mem_map.mp mem
    cases eq
    simp only [Disk.canonicalWrites, written, List.mem_cons, reduceCtorEq, false_or] at mem
    cases List.mem_singleton.mp mem
    exact ⟨rfl, rfl⟩
  case some m =>
    refine ⟨_, _, .refl (c.members i).disk.hard, fun m mem => ?_⟩
    obtain ⟨step, mem, eq⟩ := List.mem_map.mp mem
    cases eq
    simp [Disk.canonicalWrites, written] at mem

theorem hard_canonicalWrites {d : Disk} (log : List LogEntry) :
    (d.after ((d.canonicalWrites log).map .disk)).hard = d.hard := by
  rw [Disk.after_disk, Disk.canonicalWrites]
  cases written : d.hardState
  case none => simp [Disk.steps, Disk.step, Disk.hard, written, Meta.fresh]
  case some m => simp [Disk.steps, Disk.step, Disk.hard, written]

end Invariant

section Recovered

variable {d : Disk} {r : Recovered}

theorem recovered_hard (h : d.recover = .ok r) :
    r.currentTerm = d.hard.currentTerm ∧ r.votedFor = d.hard.votedFor ∧
    (r.currentTerm = 0 → r.votedFor = none) := by
  simp only [Disk.recover] at h
  split at h
  case isTrue => contradiction
  case isFalse zero =>
    split at h
    case isTrue => contradiction
    case isFalse =>
      split at h
      case h_1 => contradiction
      case h_2 =>
        split at h
        case isTrue => contradiction
        case isFalse =>
          split at h
          case isTrue => contradiction
          case isFalse =>
            split at h
            case isTrue => contradiction
            case isFalse =>
              rw [← Except.ok.inj h]
              simp only [Bool.and_eq_true, decide_eq_true_eq, not_and, Bool.not_eq_true,
                Option.isSome_eq_false_iff, Option.isNone_iff_eq_none] at zero
              exact ⟨rfl, rfl, zero⟩

end Recovered

section Safety

variable {permits : Cluster σ → String → Work → Prop} {a b : ShardActor σ} {commands : List Command}
  {effects : List Effect} {o : Occasion}

theorem Elections.boots {boot : ShardActor.Boot} {r : Recovered} {store : ShardStore} {state : σ}
    (e : Elections g c) (two : 2 ≤ g.members.length) (member : i ∈ g.members) (name : boot.nodeId = i)
    (peers : boot.peers = g.peers i) (started : ShardActor.Started boot (c.members i).disk r store state) :
    Elections g (c.put i (some (ShardActor.initial boot store r state)) commands
      (((c.members i).disk.canonicalWrites r.log).map .disk)) := by
  have ⟨term, vote, zero⟩ := recovered_hard started.recovered
  have others : boot.peers ≠ [] := by
    intro none
    have := (g.perm i member).length_eq
    rw [← peers, none] at this
    simp at this
    omega
  refine e.put fair_opens fun a eq alive => ?_
  cases eq
  have after : Meta.Before (c.members i).disk.hard (ShardActor.initial boot store r state).hardState := by
    simp only [Meta.Before, ShardActor.hardState, ShardActor.initial, ← term, ← vote]
    rcases Nat.eq_zero_or_pos r.currentTerm with none | pos
    case inl => exact .inl (by omega)
    case inr => exact .inr ⟨by omega, .inr trivial⟩
  refine ⟨name, peers, rfl, ?_, fun x h => ?_, by simp [ShardActor.initial], by simp [ShardActor.initial, others]⟩
  case refine_1 =>
    rw [put_self, hard_canonicalWrites]
    exact after
  case refine_2 =>
    have h : r.votedFor = some x := h
    have pos : r.currentTerm ≠ 0 := fun none => by simp [zero none] at h
    have current : (ShardActor.initial boot store r state).currentTerm = r.currentTerm := Nat.max_eq_left (by omega)
    rw [current, term]
    rw [vote] at h
    cases written : (c.members i).disk.hardState
    case none => simp [Disk.hard, written, Meta.fresh] at h
    case some m =>
      have hard : (c.members i).disk.hard = m := by rw [Disk.hard, written]; rfl
      exact Voted.put ⟨m, e.written i m written, by rw [hard], by rw [← hard, h]⟩

theorem Elections.bare (e : Elections g c) (up : (c.members i).actor = some a) (eq : b.bare = a.bare) :
    Elections g (c.put i (some b) commands []) := by
  refine e.put .nil fun b' eq' alive => ?_
  cases eq'
  have alive' : a.storageFault = none := by
    have : b.bare.storageFault = a.bare.storageFault := by rw [eq]
    simpa [ShardActor.bare, alive, eq_comm] using this
  have store : b.store.isSome = a.store.isSome := by
    have : b.bare.store.isSome = a.bare.store.isSome := by rw [eq]
    simpa [ShardActor.bare] using this
  exact (e.polling i a up alive').congr (List.subset_append_left ..) (by rw [put_self]; rfl)
    (congrArg ShardActor.nodeId eq :) (congrArg ShardActor.peers eq :) store (congrArg ShardActor.currentTerm eq :)
    (congrArg ShardActor.votedFor eq :) (congrArg ShardActor.votes eq :) (congrArg ShardActor.role eq :)

theorem Elections.observe (e : Elections g c) (up : (c.members i).actor = some a) (env : Env) :
    Elections g (c.put i (some (a.observe env)) commands []) := by
  refine e.put .nil fun b' eq' alive => ?_
  cases eq'
  exact (e.polling i a up alive).congr (List.subset_append_left ..) (by rw [put_self]; rfl) rfl rfl
    (by simp [ShardActor.observe]) rfl rfl rfl rfl

theorem Elections.reply [PeerPlane] {env : Env} {event : Event} {effect : Effect} (e : Elections g c)
    (sent : (j, effect) ∈ c.history) (dest : effect.request? = some (i, event))
    (e' : Elections g (c.handled i a env event)) :
    Elections g ((c.handled i a env event).answer (some (j, effect)) ((a.observe env).dispatch event).2) := by
  refine e'.same rfl rfl fun k v req resp h real granted => ?_
  rcases mem_replies_answer.mp h with old | ⟨origin, new⟩
  case inl => exact e'.granted k v req resp old real granted
  case inr =>
    cases origin
    simp only [Effect.request?, Option.some.injEq, Prod.mk.injEq] at dest
    obtain ⟨rfl, rfl⟩ := dest
    obtain ⟨candidate, member⟩ := e.asked _ _ _ sent
    have eq : ((a.observe env).handleRequestVote req).2 = resp := by
      simpa [ShardActor.dispatch, ShardActor.handle, eq_comm] using new
    subst eq
    obtain ⟨alive, vote, term⟩ := ShardActor.handleRequestVote_granted real granted
    have p := e'.polling v ((a.observe env).handleRequestVote req).1 (by simp [handled, ShardActor.dispatch,
      ShardActor.handle]) alive
    exact ⟨member, term ▸ p.voted _ (vote.trans (congrArg some candidate))⟩

theorem elections_invariant [PeerPlane] (two : 2 ≤ g.members.length)
    (permits : Cluster σ → String → Work → Prop) : Invariant g permits (Elections g) where
  start := ⟨by simp [initial], by simp [initial], by simp [initial, Disk.empty], by simp [initial],
    by simp [initial], by simp [initial], by simp [initial, Led]⟩
  clock c i w _ e := e.same rfl rfl e.granted
  stop c i commands e := e.put .nil (by simp)
  halt c i a commands _ halted e := by
    refine e.put .nil fun b eq alive => ?_
    cases eq
    exact absurd halted.fault (by simp [alive])
  bare c i a b commands up eq e := e.bare up eq
  observe c i a env commands up _ e := e.observe up env
  opens c i r k _ _ _ e := e.put (List.map_take ▸ fair_opens.take k) (by simp)
  boots c i b r store state member _ name peers _ started e := e.boots two member name peers started
  act c i a o effects b commands member up alive turn act e := by
    have p := e.polling i a up alive
    refine e.put (p.fair member act.ballot) fun b' eq _ => ?_
    cases eq
    exact p.act e member act.ballot turn.delivered act.identity
  cut c i a o effects b commands k member up alive turn act e :=
    e.put (((e.polling i a up alive).fair member act.ballot).take k) (by simp)
  reply c i a env event j effect _ _ _ sent dest _ e e' := e.reply sent dest e'

theorem Elections.voted_unique (e : Elections g c) {y : String} (h : c.Voted v T x) (h' : c.Voted v T y) :
    x = y := by
  have ⟨m, mem, term, vote⟩ := h
  have ⟨m', mem', term', vote'⟩ := h'
  rcases e.chain v m m' mem mem' with (lt | ⟨_, none | same⟩) | (lt | ⟨_, none | same⟩)
  case inl.inl | inr.inl => omega
  case inl.inr.inl => simp [none] at vote
  case inr.inr.inl => simp [none] at vote'
  case inl.inr.inr => exact Option.some.inj (vote.symm.trans (same.trans vote'))
  case inr.inr.inr => exact Option.some.inj (vote.symm.trans (same.symm.trans vote'))

theorem Elections.led_unique (e : Elections g c) (h : c.Led i T) (h' : c.Led j T) : i = j := by
  have ⟨voters, members, majority, voted⟩ := e.elected i T h
  have ⟨voters', members', majority', voted'⟩ := e.elected j T h'
  have card : g.members.toFinset.card < voters.card + voters'.card := by
    rw [List.toFinset_card_of_nodup g.nodup]
    omega
  have ⟨v, mem⟩ := Finset.inter_nonempty_of_card_lt_card_add_card members members' card
  have ⟨mem, mem'⟩ := Finset.mem_inter.mp mem
  exact e.voted_unique (voted v mem) (voted' v mem')

-- At most one member becomes the leader of a term. Whoever is in the role has become it.
theorem election_safety [PeerPlane] (two : 2 ≤ g.members.length) (r : Reach g permits c) :
    (∀ i j T, c.Led i T → c.Led j T → i = j) ∧
    ∀ i a, (c.members i).actor = some a → a.role = .leader → c.Led i a.currentTerm := by
  have e := r.induct (elections_invariant two permits)
  refine ⟨fun i j T => e.led_unique, fun i a up leads => ?_⟩
  have alive : a.storageFault = none := by
    by_contra fault
    have := ((r.run up).tidy.halted (Option.isSome_iff_ne_none.mpr fault)).follower
    simp [leads] at this
  exact (e.polling i a up alive).led leads

-- Two members.
def duo : ShardGroup where
  members := ["a", "b"]
  nodup   := by decide
  peers i := if i = "a" then ["b"] else ["a"]
  perm    := by decide

def startOf (g : ShardGroup) (i : String) : ShardActor.Boot where
  shardId  := 0
  nodeId   := i
  peers    := g.peers i
  dataDir  := ""
  timing   := .default
  now      := 0
  nowMs    := 0
  nowNanos := 0

-- The first of them asks the other one whether it would vote for it, and then for the vote.
def campaign : List Cue := [
  .boot (startOf duo "a"), .boot (startOf duo "b"), .tick "a" ⟨300, 0, []⟩, .deliver 4 ⟨300, 0, []⟩,
  .reply 0 ⟨300, 0, []⟩, .deliver 6 ⟨300, 0, []⟩, .reply 1 ⟨300, 0, []⟩
]

def afterCampaign : Option (Cluster Tally) :=
  letI := PeerPlane.fixed
  initial.play duo (fun _ _ _ => true) campaign

def leadersOf (c : Cluster Tally) : List (String × Nat) :=
  c.history.filterMap fun | (i, .becameLeader T) => some (i, T) | _ => none

omit [StateMachine σ] in
theorem campaign_won :
    letI := PeerPlane.fixed
    ∃ c, Reach duo (fun _ _ _ => True) c ∧ afterCampaign = some c ∧ c.Led "a" 2 ∧ ∀ j, c.Led j 2 → j = "a" := by
  let := PeerPlane.fixed
  have won : afterCampaign.map leadersOf = some [("a", 2)] := by decide +kernel
  obtain ⟨c, played, leaders⟩ := Option.map_eq_some_iff.mp won
  have r : Reach duo (fun _ _ _ => True) c := Reach.start.play (fun _ _ _ _ => trivial) played
  have led : c.Led "a" 2 := by
    have mem : ("a", 2) ∈ leadersOf c := leaders ▸ List.mem_singleton_self _
    obtain ⟨⟨i, effect⟩, mem, eq⟩ := List.mem_filterMap.mp mem
    cases effect <;> simp at eq
    obtain ⟨rfl, rfl⟩ := eq
    exact mem
  exact ⟨c, r, played, led, fun j h => (election_safety (by decide) r).1 j "a" 2 h led⟩

end Safety

end Cluster
