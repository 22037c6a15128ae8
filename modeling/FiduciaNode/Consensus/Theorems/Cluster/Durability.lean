import FiduciaNode.Consensus.Theorems.Cluster.Elections

-- What a new process takes from the files. It starts in the first term if there is none yet.
def Disk.held (d : Disk) : List LogEntry × Nat × Nat × List UInt8 × Meta :=
  let index := d.snapshot.elim 0 (·.lastIncludedIndex)
  (d.log, index, d.snapshot.elim 0 (·.lastIncludedTerm), d.snapshot.elim [] (·.state),
    ⟨max d.hard.currentTerm 1, d.hard.votedFor, max d.hard.commitIndex index⟩)

namespace ShardActor

variable {σ : Type} {a b : ShardActor σ} {d : Disk} {o : Occasion} {effects : List Effect} {s s' : Appended σ} {i : Nat}
  {log es : List LogEntry}

-- The files hold what is in memory.
structure Mirrors (d : Disk) (a : ShardActor σ) : Prop where
  store   : a.store.map (·.durableLen) = some a.log.length
  held    : d.held = (a.log, a.snapshotIndex, a.snapshotTerm, a.snapshotState, a.hardState)
  applied : a.lastApplied ≤ a.commitIndex

-- What the hard state leaves out.
def logged (a : ShardActor σ) :=
  (a.store, a.log, a.snapshotIndex, a.snapshotTerm, a.snapshotState, a.lastApplied)

-- Without a conflict the log of a follower only grows.
theorem appendLoop_grows (h : appendLoop s i es = .ok s') (kept : s'.truncated = false) :
    s.actor.log <+: s'.actor.log := by
  fun_induction appendLoop s i es
  case case1 => exact Except.ok.inj h ▸ List.prefix_rfl
  case case2 ih | case4 ih => exact ih h
  case case3 ih => exact (List.prefix_append ..).trans (ih h)
  case case5 => contradiction
  case case6 => simp [(appendLoop_flags h).1 rfl] at kept

namespace Mirrors

theorem after_writes (m : Mirrors d a) (steps : List DiskStep) : d.after (a.writes steps) = d.steps steps := by
  have ⟨_, stored, _⟩ := Option.map_eq_some_iff.mp m.store
  rw [writes, if_pos (by simp [stored]), Disk.after_disk]

theorem saved (m : Mirrors d a) (same : b.logged = a.logged) (later : a.currentTerm ≤ b.currentTerm)
    (newer : a.commitIndex ≤ b.commitIndex) : Mirrors (d.step (.writeMeta b.hardState)) b := by
  have ⟨stored, held, applied⟩ := m
  simp only [logged, Disk.held, hardState, Prod.mk.injEq, Meta.mk.injEq] at same held
  refine ⟨by simp_all, ?_, by omega⟩
  simp [Disk.held, Disk.step, Disk.hard, hardState]
  grind

theorem relogged (m : Mirrors d a) (log : List LogEntry) : Mirrors { d with log } (a.relogged log) := by
  have ⟨_, stored, _⟩ := Option.map_eq_some_iff.mp m.store
  exact ⟨by simp [ShardActor.relogged, ShardActor.stored, stored], congrArg (log, ·.2) m.held, m.applied⟩

theorem lengthened (m : Mirrors d a) (grows : a.log <+: log) :
    Mirrors (d.steps ((log.drop a.durableLen).map .appendLog)) (a.lengthened log) := by
  have appended (d : Disk) (new : List LogEntry) :
      d.steps (new.map .appendLog) = { d with log := d.log ++ new } := by
    induction new generalizing d
    case nil => simp [Disk.steps]
    case cons entry new ih => simpa [Disk.steps, Disk.step] using ih (d.step (.appendLog entry))
  obtain ⟨new, rfl⟩ := grows
  obtain ⟨_, stored, len⟩ := Option.map_eq_some_iff.mp m.store
  have len : a.durableLen = a.log.length := by simp [durableLen, stored, len]
  have log : d.log = a.log := congrArg (·.1) m.held
  rw [ShardActor.lengthened, len, Nat.max_eq_right (by simp), appended, List.drop_left, log]
  exact m.relogged _

theorem followed (m : Mirrors d a) (leaderCommit : Nat) :
    Mirrors (d.steps (a.followWrites leaderCommit)) (a.followedUpTo leaderCommit) := by
  simp only [followWrites]
  split
  case isTrue lt => exact m.saved rfl le_rfl (Nat.le_max_left ..)
  case isFalse ge => rwa [followedUpTo, Nat.max_eq_left (by omega)]

theorem merged (m : Mirrors d a) (h : appendLoop ⟨a, false, false⟩ i es = .ok s) :
    Mirrors (d.steps (a.mergeWrites s)) (a.merged s) := by
  simp only [mergeWrites, ShardActor.merged]
  split
  case isTrue => exact m.relogged _
  case isFalse kept =>
    split
    case isTrue => exact m.lengthened (appendLoop_grows h (by simpa using kept))
    case isFalse => exact m

theorem act [StateMachine σ] [PeerPlane] (m : Mirrors d a) (act : Act o a effects b) : Mirrors (d.after effects) b := by
  have ⟨_, held, applied⟩ := m
  simp only [Disk.held, hardState, Prod.mk.injEq, Meta.mk.injEq] at held
  cases act
  case adopt le => exact m.after_writes _ ▸ m.saved rfl le le_rfl
  case campaign => exact m.after_writes _ ▸ m.saved rfl (Nat.le_succ _) le_rfl
  case grant => exact m.after_writes _ ▸ m.saved rfl le_rfl le_rfl
  case commit newer _ _ => exact m.after_writes _ ▸ m.saved rfl le_rfl newer.le
  case lead => exact m.after_writes _ ▸ lengthened (a := a.leading) ⟨m.store, m.held, applied⟩ (List.prefix_append ..)
  case extend => exact m.after_writes _ ▸ m.lengthened (List.prefix_append ..)
  case accept req _ _ s h =>
    rw [m.after_writes, Disk.steps, List.foldl_append]
    exact (m.merged h).followed _
  case install =>
    refine m.after_writes _ ▸ ⟨(m.relogged _).store, ?_, Nat.le_max_right ..⟩
    simp [Disk.held, Disk.steps, Disk.step, Disk.hard, hardState, installed, ShardActor.stored]
    omega
  case compact newer =>
    refine m.after_writes _ ▸ ⟨(m.relogged _).store, ?_, applied⟩
    simp [Disk.held, Disk.steps, Disk.step, Disk.hard, hardState, folded, ShardActor.stored] at held ⊢
    exact ⟨held.2.2.2.2.1, held.2.2.2.2.2.1, by omega⟩
  case apply entry committed _ =>
    simp only [appliedNext]
    cases entry.command <;> exact ⟨m.store, m.held, committed⟩
  case solicit =>
    simpa [Disk.after, List.filterMap_map, Function.comp_def, Effect.diskStep?, Disk.steps] using m
  all_goals exact ⟨m.store, m.held, applied⟩

theorem bare (m : Mirrors d a) (eq : b.bare = a.bare) : Mirrors d b := by
  have m' : Mirrors d b.bare :=
    eq ▸ ⟨by simpa [ShardActor.bare, Function.comp_def] using m.store, m.held, m.applied⟩
  exact ⟨by simpa [ShardActor.bare, Function.comp_def] using m'.store, m'.held, m'.applied⟩

theorem boots [StateMachine σ] {boot : Boot} {r : Recovered} {store : ShardStore} {state : σ}
    (started : Started boot d r store state) :
    Mirrors (d.after ((d.canonicalWrites r.log).map .disk)) (initial boot store r state) := by
  have files : d.after ((d.canonicalWrites r.log).map .disk) = { d with log := r.log, hardState := some d.hard } := by
    rw [Disk.after_disk, Disk.canonicalWrites]
    cases h : d.hardState <;> simp [Disk.steps, Disk.step, Disk.hard, Meta.fresh, h]
  obtain ⟨recovered, stored, _, _, _⟩ := started
  rw [files]
  simp only [Disk.recover] at recovered
  repeat' split at recovered
  all_goals first | contradiction | cases recovered
  refine ⟨congrArg some stored, ?_, Nat.le_max_right ..⟩
  simp [Disk.held, Disk.hard, Meta.fresh, hardState, initial, Recovered.snapshotIndex, Recovered.snapshotTerm]

end Mirrors

end ShardActor

namespace Cluster

variable {σ : Type} [StateMachine σ] {g : ShardGroup} {permits : Cluster σ → String → Work → Prop} {c : Cluster σ}
  {i : String} {commands : List Command} {effects : List Effect}

def Mirrored (c : Cluster σ) : Prop :=
  ∀ i a, (c.members i).actor = some a → a.storageFault = none → a.Mirrors (c.members i).disk

theorem Mirrored.put {actor : Option (ShardActor σ)} (m : c.Mirrored)
    (h : ∀ a, actor = some a → a.storageFault = none → a.Mirrors ((c.members i).disk.after effects)) :
    (c.put i actor commands effects).Mirrored := by
  intro j a up alive
  rcases eq_or_ne j i with rfl | ne
  case inl =>
    rw [put_self] at up ⊢
    exact h a up alive
  case inr =>
    rw [put_other ne] at up ⊢
    exact m j a up alive

theorem Mirrored.up {b : ShardActor σ} (m : c.Mirrored)
    (h : b.storageFault = none → b.Mirrors ((c.members i).disk.after effects)) :
    (c.put i (some b) commands effects).Mirrored :=
  m.put fun _ eq => Option.some.inj eq ▸ h

variable [PeerPlane]

theorem mirrored_invariant : Invariant g permits Mirrored where
  start := by simp [Mirrored, initial]
  clock c i w _ m := m
  stop c i commands m := m.put (by simp)
  halt c i a commands _ halted m := m.up fun alive => absurd halted.fault (by simp [alive])
  bare c i a b commands up eq m := m.up fun alive => by
    have fault : b.bare.storageFault = a.bare.storageFault := by rw [eq]
    exact (m i a up (by simpa [ShardActor.bare, alive, eq_comm] using fault)).bare eq
  observe c i a env commands up _ m := m.up fun alive =>
    have m := m i a up alive
    ⟨by simpa [ShardActor.observe, Function.comp_def] using m.store, m.held, m.applied⟩
  opens c i r k _ _ _ m := m.put (by simp)
  boots c i b r store state _ _ _ _ _ started m := m.up fun _ => .boots started
  act c i a o effects b commands _ up alive _ act m := m.up fun _ => (m i a up alive).act act
  cut c i a o effects b commands k _ _ _ _ _ m := m.put (by simp)
  reply c i a env event j effect _ _ _ _ _ _ _ m := m

-- A crash between two events loses nothing that matters: the files hold it.
theorem files_mirror_memory (r : Reach g permits c) : c.Mirrored :=
  r.induct mirrored_invariant

-- A vote that was granted stands on the disk of the voter until there is a later term.
def VotesStand (c : Cluster σ) : Prop :=
  ∀ x v req resp, (x, .requestVote v req, .requestVote resp) ∈ c.replies → req.preVote = false → resp.granted →
    Meta.Before ⟨resp.term, some x, 0⟩ (c.members v).disk.hard

theorem votes_stand (two : 2 ≤ g.members.length) (r : Reach g permits c) : c.VotesStand := by
  intro x v req resp sent real granted
  have e := r.induct (elections_invariant two permits)
  have ⟨_, m, written, term, vote⟩ := e.granted x v req resp sent real granted
  exact (Meta.Before.of_eq term.symm vote.symm).trans (e.saved v m written)

end Cluster

namespace Cluster

theorem campaign_reached :
    letI := PeerPlane.fixed
    ∃ c, afterCampaign = some c ∧ Reach duo (fun _ _ _ => True) c := by
  let := PeerPlane.fixed
  have ⟨c, played⟩ := Option.isSome_iff_exists.mp (by decide +kernel : afterCampaign.isSome)
  exact ⟨c, played, Reach.start.play (fun _ _ _ _ => trivial) played⟩

theorem campaign_mirrored : ∃ c, afterCampaign = some c ∧ c.Mirrored :=
  let := PeerPlane.fixed
  have ⟨c, played, r⟩ := campaign_reached
  ⟨c, played, files_mirror_memory r⟩

theorem campaign_votes_stand : ∃ c, afterCampaign = some c ∧ c.VotesStand :=
  let := PeerPlane.fixed
  have ⟨c, played, r⟩ := campaign_reached
  ⟨c, played, votes_stand (by decide) r⟩

end Cluster
