import FiduciaNode.Consensus.Theorems.Refinement.Follower

namespace ShardActor

variable {σ : Type} [StateMachine σ] [PeerPlane] {a b c start : ShardActor σ} {o : Occasion} {e : Event}

section Resign

-- An action that writes at most one file may be repeated.
theorem goes_twice {step : DiskStep} {k k' : Nat} (alive : a.storageFault = none)
    (act : Act o a (a.writes [step]) c) (again : Act o c (c.writes [step]) b)
    (store : c.store = a.store) {d : ShardActor σ} (halted : d.Halted)
    (s : d.seen = a.seen ++ (a.writes [step]).take k ++ (a.writes [step]).take k') : Goes o a d := by
  cases k
  case zero => exact .broken alive act halted (k := k') (by simpa using s)
  case succ k =>
    have all : (a.writes [step]).take (k + 1) = a.writes [step] := by
      simp only [writes]
      split <;> simp
    have same : c.writes [step] = a.writes [step] := by rw [writes, writes, store]
    refine ⟨⟨_, .tail (.single (.act (bare_alive alive) act.bare)) (.broken
      (bare_alive (act.fault.trans alive)) again.bare k' (bare_halted.mpr halted)), ?_⟩, halted.caughtUp⟩
    rw [s, all, same, List.append_assoc]

omit [StateMachine σ] [PeerPlane] in
theorem onStore_isSome (op : ShardStore → ShardStore.Result) :
    (a.onStore op).1.store.isSome = a.store.isSome := by
  simp only [onStore]
  split
  case h_1 => rfl
  case h_2 h => simp [h]

omit [StateMachine σ] [PeerPlane] in
theorem stepDown_spec {term : Nat} (le : a.currentTerm ≤ term) (leader : Option String) :
    (∃ k, (a.stepDown term leader).seen =
      a.seen ++ (a.writes [.writeMeta (a.adopted term).hardState]).take k) ∧
    (a.stepDown term leader).hardState = (a.adopted term).hardState ∧
    (a.stepDown term leader).store.isSome = a.store.isSome ∧
    ((a.stepDown term leader).storageFault.isSome → (a.stepDown term leader).Halted) ∧
    (a.storageFault.isSome → (a.stepDown term leader).storageFault.isSome) := by
  rw [stepDown_eq le]
  have cut := (performs_persistHardState (a := { a.adopted term with leaderId := leader })).cut
  have isSome : (persistHardState { a.adopted term with leaderId := leader }).1.store.isSome =
    a.store.isSome := onStore_isSome _
  generalize hr : persistHardState { a.adopted term with leaderId := leader } = r at cut isSome ⊢
  obtain ⟨b, error⟩ := r
  obtain ⟨store, out, rfl⟩ := onStore_eq hr
  cases error
  case none =>
    refine ⟨?_, rfl, isSome, fun fault => ⟨fault, rfl, rfl⟩, id⟩
    simp only [failPending, seen_drainPending]
    exact cut
  case some error =>
    refine ⟨?_, rfl, isSome, fun _ => failStorage_halted _ _, fun _ => (failStorage_halted _ _).fault⟩
    simp only [seen_failStorage]
    exact cut

-- A request that cannot be numbered any more ends the leadership, and so does a lost lease. When the
-- first one fails to save the hard state, the second one saves the same again.
theorem goes_stepDown_twice (alive : a.storageFault = none)
    (fault : (a.stepDown a.currentTerm none).storageFault.isSome) :
    Goes o a ((a.stepDown a.currentTerm none).stepDown a.currentTerm none) := by
  have act := Act.adopt (o := o) (a := a) a.currentTerm le_rfl
  have again := Act.adopt (o := o) (a := a.adopted a.currentTerm) a.currentTerm le_rfl
  have same : ((a.adopted a.currentTerm).adopted a.currentTerm).hardState =
      (a.adopted a.currentTerm).hardState := by simp [adopted, hardState]
  rw [same] at again
  obtain ⟨⟨k, cut⟩, hard, isSome, _⟩ := stepDown_spec (a := a) le_rfl none
  have term : (a.stepDown a.currentTerm none).currentTerm = a.currentTerm := stepDown_term le_rfl
  generalize a.stepDown a.currentTerm none = b at fault cut hard isSome term ⊢
  obtain ⟨⟨k', cut'⟩, _, _, halted, faulty⟩ := stepDown_spec (a := b) term.le none
  have hard' : (b.adopted a.currentTerm).hardState = (a.adopted a.currentTerm).hardState := by
    rw [← hard]
    simp [adopted, hardState, term]
  have writes (steps : List DiskStep) : b.writes steps = a.writes steps := by
    rw [ShardActor.writes, isSome, ShardActor.writes]
  rw [hard', writes, cut] at cut'
  exact goes_twice alive act again rfl (halted (faulty fault)) cut'

end Resign

section Deeds

theorem goes_onLeader (t : a.Tidy) {f : LeaderState → LeaderState} (h : ∀ ls, (f ls).bare = ls.bare) :
    Goes o a (a.onLeader f) :=
  .quiet t (by simp [bare, onLeader, Function.comp_def, h]) rfl

theorem goes_solicitVotes (t : a.Tidy) (alive : a.storageFault = none) (preVote : Bool)
    (real : preVote = false → a.role = .candidate) :
    Goes o a (a.solicitVotes (if preVote then a.currentTerm + 1 else a.currentTerm) preVote) := by
  refine .act alive (.solicit preVote real) t.caughtUp rfl ?_
  have : (a.peers.map (Effect.requestVote · (a.voteRequest preVote))).filter (·.visible) =
      a.peers.map (.requestVote · (a.voteRequest preVote)) :=
    List.filter_eq_self.mpr (by simp [Effect.visible])
  simp only [seen, solicitVotes, List.filter_append]
  exact congrArg _ this

theorem goes_acclaimed {error : Option String} (t : a.Tidy) (alive : a.storageFault = none)
    (candidate : a.role = .candidate) (majority : a.majority ≤ a.votes.card)
    (fits : o.room → a.lastLogIndex < U64.max)
    (saved : (a.acclaimed.longer none).persistLogAppend = (b, error)) (operation : String) :
    Goes o a (b.settled operation error) := by
  have act := Act.lead (o := o) candidate majority fits
  have before : a.acclaimed.seen = a.seen ++ [.becameLeader a.currentTerm] := seen_emit rfl
  have p := performs_longer (a := a.acclaimed) none
  cases error
  case some error =>
    have ⟨k, cut⟩ := p.cut
    rw [saved] at cut
    refine .broken alive act (failStorage_halted _ _) (k := k + 1) ?_
    rw [settled, Option.elim_some, seen_failStorage, cut]
    exact (congrArg (· ++ _) before).trans (List.append_assoc _ _ _)
  case none =>
    have ⟨memory, done⟩ := p.done (congrArg Prod.snd saved)
    rw [saved] at memory done
    exact .act alive act t.caughtUp memory
      (done.trans ((congrArg (· ++ _) before).trans (List.append_assoc _ _ _)))

theorem goes_send (t : a.Tidy) (alive : a.storageFault = none) {ls : LeaderState}
    (leads : a.leader = some ls) {peer : String} (member : peer ∈ a.peers) (sequence : Nat) :
    Goes o a (emit (a.requesting ls peer sequence) (a.shipment ls peer sequence)) := by
  rw [shipment]
  split
  case isTrue gone =>
    refine .act alive (.sendSnapshot ls leads peer member gone sequence) t.caughtUp ?_ (seen_emit rfl)
    simp [bare, emit, requesting, leads, LeaderState.bare]
  case isFalse held =>
    refine .act alive (.sendAppend ls leads peer member (Nat.lt_of_not_le held) (t.caughtUp alive)
      sequence (ls.peerCommandProtocol[peer]?.getD Command.legacyCommandProtocol)) t.caughtUp ?_
      (seen_emit rfl)
    simp [bare, emit, requesting, leads, LeaderState.bare]

-- Whatever a handler does in one go is a sequence of actions.
theorem Deed.goes (d : Deed e start a b) (alive : a.storageFault = none) (t : a.Tidy) :
    Goes ⟨e, start.lastLogIndex < U64.max⟩ a b := by
  cases d
  case stepDown term leader => exact goes_stepDown t alive term leader
  case resign fault => exact goes_stepDown_twice alive fault
  case stop operation error => exact .halt (failStorage_halted _ _) (seen_failStorage _ _)
  case schedule => exact .quiet t rfl rfl
  case poll free => exact .act alive (.abandon free) t.caughtUp rfl (by simp [seen]; rfl)
  case agree voter => exact .quiet t rfl rfl
  case campaign free saved operation =>
    exact .saved saved performs_persistHardState alive (.campaign (.inl free)) t.caughtUp rfl rfl rfl _
  case solicit preVote real => exact goes_solicitVotes t alive preVote real
  case count voter resp reply candidate term granted =>
    exact .act alive (.count voter resp reply candidate term granted) t.caughtUp rfl (by simp [seen])
  case lead candidate majority _ _ unchanged saved operation =>
    exact goes_acclaimed t alive candidate majority (fun room => unchanged ▸ room) saved operation
  case grant req asked real term free ok saved operation =>
    exact .saved saved performs_persistHardState alive (.grant req asked real term free ok) t.caughtUp rfl rfl
      rfl _
  case follow leads leader =>
    exact .act alive (.follow leads) t.caughtUp rfl (by simp [becomeFollowerOf, failPending]; rfl)
  case accept req asked admits appended stored _ saved operation =>
    exact goes_accept t alive asked admits stored saved operation
  case install req asked restored installs => exact goes_install alive asked installs
  case extend leader command proposable fits saved operation =>
    exact .saved saved (performs_longer _) alive (.extend leader command proposable fits) t.caughtUp rfl
      rfl rfl _
  case wait => exact .quiet t rfl (seen_emit_hidden rfl)
  case commit leader index commits newer current operation =>
    exact goes_commit t alive leader commits newer current operation
  case send ls leads peer member => exact goes_send t alive leads member _
  case callback peer => exact goes_onLeader t fun _ => rfl
  case land peer => exact goes_onLeader t fun _ => rfl
  case advertise peer protocol _ => exact goes_onLeader t fun _ => rfl
  case contact leader peer member sentAt contacts past =>
    exact .act alive (.contact peer sentAt contacts member leader past) t.caughtUp rfl
      (by simp [seen, onLeader])
  case advance leader peer member request upTo _ acknowledged _ =>
    exact .act alive (.advance peer upTo acknowledged member leader) t.caughtUp rfl
      (by simp [seen, onLeader])
  case rewind leader peer member hint refused =>
    exact .act alive (.rewind peer hint refused member leader) t.caughtUp rfl (by simp [seen, onLeader])

theorem Stage.goes (s : Stage e start a b) (t : a.Tidy) : Goes ⟨e, start.lastLogIndex < U64.max⟩ a b := by
  cases s
  case refuse => exact .quiet t rfl (seen_emit_hidden rfl)
  case act alive deed => exact deed.goes alive t

theorem Stages.goes (s : Stages e start a b) (t : a.Tidy) :
    Goes ⟨e, start.lastLogIndex < U64.max⟩ a b := by
  induction s
  case refl => exact .refl t
  case tail stage ih => exact ih.trans (stage.goes (ih.tidy t))

theorem Stages.tidy (s : Stages e start a b) (t : a.Tidy) : b.Tidy :=
  (s.goes t).tidy t

end Deeds

end ShardActor
