import FiduciaNode.Consensus.Theorems.Clients

namespace ShardActor

variable {σ : Type} {a b c : ShardActor σ}

section Stays

-- Without a storage fault the role is kept.
def Stays (a b : ShardActor σ) : Prop :=
  b.storageFault = none → b.role = a.role

theorem stays_failStorage (operation error : String) : Stays a (b.failStorage operation error) := by
  intro h
  simp [failStorage, failPendingUnavailable, drainPending] at h

theorem Stays.trans (h₁ : Stays a b) (h₂ : Stays b c)
    (fault : c.storageFault = none → b.storageFault = none) : Stays a c :=
  fun h => (h₂ h).trans (h₁ (fault h))

end Stays

section Roles

theorem onStore_frame (op : ShardStore → ShardStore.Result) : (a.onStore op).1 =
    { a with store := (a.onStore op).1.store, out := (a.onStore op).1.out } := by
  simp only [onStore]
  split <;> rfl

theorem stepDown_follower (term : Nat) (leader : Option String) :
    a.stepDown term leader = a ∨ (a.stepDown term leader).role = .follower := by
  simp only [stepDown]
  split
  case isTrue => exact .inl rfl
  case isFalse =>
    split
    case h_1 => exact .inr rfl
    case h_2 b h =>
      have := congrArg (·.1.role) h
      simp only [persistHardState, persistHardStateAt] at this
      rw [onStore_frame] at this
      exact .inr this.symm

theorem activationLogged_iff : a.activationLogged = true ↔ ∃ entry ∈ a.log, activates entry := by
  simp only [activationLogged, List.any_eq_true]
  rfl

theorem supports_congr (peers : b.peers = a.peers)
    (leader : b.leader.map (·.peerCommandProtocol) = a.leader.map (·.peerCommandProtocol)) :
    b.allPeersSupportCurrentCommandProtocol = a.allPeersSupportCurrentCommandProtocol := by
  simp only [allPeersSupportCurrentCommandProtocol, members, peers]
  cases ha : a.leader <;> cases hb : b.leader <;> simp_all

end Roles

section Keeps

variable [StateMachine σ]

-- The record that activates the current protocol is in the log, or has been applied.
def Activated (a : ShardActor σ) : Prop :=
  Command.currentCommandProtocol ≤ a.commandProtocol ∨ ∃ entry ∈ a.log, activates entry

-- A leader whose peers all support the current protocol has seen to its activation.
def Primed (a : ShardActor σ) : Prop :=
  a.role = .leader → a.members ≠ 1 → a.allPeersSupportCurrentCommandProtocol → Activated a

-- Whatever the leader knows of the protocols of its peers is kept, and so is an activation.
def Keeps (a b : ShardActor σ) : Prop :=
  b.role = .leader →
    a.role = .leader ∧ b.peers = a.peers ∧
    b.leader.map (·.peerCommandProtocol) = a.leader.map (·.peerCommandProtocol) ∧
    (Activated a → Activated b)

theorem Primed.keeps (p : Primed a) (k : Keeps a b) : Primed b := by
  intro leader members supports
  have ⟨leader, peers, protocols, activated⟩ := k leader
  rw [supports_congr peers protocols] at supports
  exact activated (p leader (by rwa [ShardActor.members, ← peers]) supports)

theorem Keeps.refl (a : ShardActor σ) : Keeps a a :=
  fun h => ⟨h, rfl, rfl, id⟩

theorem Keeps.trans (k₁ : Keeps a b) (k₂ : Keeps b c) : Keeps a c := by
  intro h
  have ⟨h, peers₂, protocols₂, activated₂⟩ := k₂ h
  have ⟨h, peers₁, protocols₁, activated₁⟩ := k₁ h
  exact ⟨h, peers₂.trans peers₁, protocols₂.trans protocols₁, activated₂ ∘ activated₁⟩

theorem Keeps.of_not_leader (h : b.role ≠ .leader) : Keeps a b :=
  fun h' => absurd h' h

theorem Activated.congr (h : Activated a) (log : b.log = a.log) (state : b.state = a.state) :
    Activated b := by
  rwa [Activated, commandProtocol, log, state]

theorem Keeps.of_eq (role : b.role = a.role) (peers : b.peers = a.peers)
    (protocols : b.leader.map (·.peerCommandProtocol) = a.leader.map (·.peerCommandProtocol))
    (log : b.log = a.log) (state : b.state = a.state) : Keeps a b :=
  fun h => ⟨role ▸ h, peers, protocols, fun h => h.congr log state⟩

theorem keeps_failStorage (operation error : String) : Keeps a (b.failStorage operation error) :=
  .of_not_leader (by simp [failStorage, failPendingUnavailable, drainPending])

theorem keeps_stepDown (term : Nat) (leader : Option String) : Keeps a (a.stepDown term leader) := by
  cases stepDown_follower (a := a) term leader
  case inl h =>
    rw [h]
    exact .refl a
  case inr h => exact .of_not_leader (by rw [h]; decide)

end Keeps

section Commit

variable [StateMachine σ]

-- An activation that the snapshot covers has had its effect.
theorem keeps_compact (o : Ordered a.replica) (state : List UInt8) : Keeps a { a with
    log           := a.log.drop (a.lastApplied - a.snapshotIndex)
    snapshotIndex := a.lastApplied
    snapshotTerm  := a.termAt a.lastApplied
    snapshotState := state
  } := by
  refine fun h => ⟨h, rfl, rfl, fun activated => ?_⟩
  cases activated
  case inl h => exact .inl h
  case inr h =>
    have ⟨entry, mem, ha⟩ := h
    have ⟨k, lt, hk⟩ := List.getElem_of_mem mem
    by_cases covered : k < a.lastApplied - a.snapshotIndex
    case pos =>
      refine .inl (o.activated k entry (List.getElem?_eq_some_iff.mpr ⟨lt, hk⟩) ha ?_)
      have : a.snapshotIndex + k < a.lastApplied := by omega
      exact this
    case neg =>
      refine .inr ⟨entry, ?_, ha⟩
      refine List.mem_of_getElem? (i := k - (a.lastApplied - a.snapshotIndex)) ?_
      rw [List.getElem?_drop, ← hk, ← List.getElem?_eq_getElem]
      congr 1
      omega

theorem applied_protocol_mono (state : σ) (entry : LogEntry) :
    StateMachine.commandProtocol state ≤ StateMachine.commandProtocol (applied state entry) := by
  rw [applied]
  split
  case h_1 => exact le_rfl
  case h_2 => exact StateMachine.protocol_mono _ _ _

theorem applyEntry_keeps (completed : List Completed) (index : Nat) (entry : LogEntry) :
    Keeps a (a.applyEntry completed index entry).1 := by
  have ⟨pending, out, eq, _⟩ := applyEntry_eq (a := a) completed index entry
  rw [eq]
  refine fun h => ⟨h, rfl, rfl, fun activated => ?_⟩
  cases activated
  case inl h => exact .inl (h.trans (applied_protocol_mono a.state entry))
  case inr h => exact .inr h

theorem maybeCompact_fault (h : a.maybeCompact.storageFault = none) : a.storageFault = none := by
  simp only [maybeCompact] at h
  split at h
  case isTrue => exact h
  case isFalse =>
    split at h
    case h_1 => exact h
    case h_2 state _ =>
      generalize hr : a.onStore _ = r at h
      have frame : r.1 = _ := hr ▸ onStore_frame _
      obtain ⟨b, error⟩ := r
      cases error
      case some error => simp [failStorage, failPendingUnavailable, drainPending] at h
      case none =>
        simp only at frame h
        rwa [frame] at h

theorem stays_maybeCompact : Stays a a.maybeCompact := by
  simp only [maybeCompact]
  split
  case isTrue => exact fun _ => rfl
  case isFalse =>
    split
    case h_1 => exact fun _ => rfl
    case h_2 =>
      generalize hr : a.onStore _ = r
      have frame : r.1 = _ := hr ▸ onStore_frame _
      obtain ⟨b, error⟩ := r
      cases error
      case some error => exact stays_failStorage _ _
      case none =>
        simp only at frame ⊢
        rw [frame]
        exact fun _ => rfl

theorem stays_applyLoop (completed : List Completed) (fuel : Nat) :
    Stays a (a.applyLoop completed fuel).1 := by
  induction fuel generalizing a completed
  case zero => exact fun _ => rfl
  case succ fuel ih =>
    simp only [applyLoop]
    split
    case h_1 => exact stays_failStorage _ _
    case h_2 index _ =>
      split
      case h_1 => exact stays_failStorage _ _
      case h_2 entry _ =>
        obtain ⟨_, _, eq, _⟩ := applyEntry_eq (a := a) completed index entry
        exact fun h => (ih _ h).trans (by rw [eq])

theorem stays_applyCommitted : Stays a a.applyCommitted := by
  have stays := stays_applyLoop (a := a) [] (a.commitIndex - a.lastApplied)
  simp only [applyCommitted]
  generalize a.applyLoop [] _ = r at stays ⊢
  obtain ⟨b, completed, finished⟩ := r
  split
  case isTrue => exact stays
  case isFalse =>
    have stays := stays.trans stays_maybeCompact maybeCompact_fault
    split
    case isTrue | isFalse => exact stays

theorem stays_commitTo {index : Nat} (operation : String) : Stays a (a.commitTo index operation) := by
  simp only [commitTo]
  have frame : (a.persistHardStateAt index).1 = _ := onStore_frame _
  generalize a.persistHardStateAt index = r at frame ⊢
  obtain ⟨b, error⟩ := r
  cases error
  case some error => exact stays_failStorage _ _
  case none =>
    simp only at frame ⊢
    exact fun h => (stays_applyCommitted h).trans (by rw [frame])

theorem stays_maybeAdvanceCommit : Stays a a.maybeAdvanceCommit := by
  simp only [maybeAdvanceCommit]
  split
  case isTrue => exact fun _ => rfl
  case isFalse =>
    split
    case isTrue => exact stays_commitTo _
    case isFalse => exact fun _ => rfl

end Commit

section Send

variable [StateMachine σ] [PeerPlane]

theorem sendAppendTo_keeps (peer : String) : Keeps a (a.sendAppendTo peer) := by
  simp only [sendAppendTo]
  split
  case isTrue => exact .refl a
  case isFalse =>
    split
    case h_1 => exact .refl a
    case h_2 ls hl =>
      split
      case isTrue => exact .refl a
      case isFalse =>
        split
        case h_1 => exact keeps_stepDown _ _
        case h_2 =>
          split
          case isTrue | isFalse => exact .of_eq rfl rfl (by simp [emit, hl]) rfl rfl

theorem broadcastAppendEntries_keeps : Keeps a a.broadcastAppendEntries := by
  simp only [broadcastAppendEntries]
  split
  case isTrue => exact .refl a
  case isFalse h =>
    clear h
    generalize a.peers = peers
    induction peers generalizing a
    case nil => exact .refl a
    case cons peer peers ih => exact (sendAppendTo_keeps peer).trans ih

-- A leader that has seen to the activation before does not do so again for a proposal.
theorem maybeActivateCommandProtocol_stays (p : Primed a) :
    Stays a a.maybeActivateCommandProtocol := by
  simp only [maybeActivateCommandProtocol]
  split
  case isTrue => exact fun _ => rfl
  case isFalse h =>
    split
    case isTrue logged =>
      split
      case isTrue => exact stays_maybeAdvanceCommit
      case isFalse => exact fun _ => rfl
    case isFalse logged =>
      split
      case h_1 => exact stays_failStorage _ _
      case h_2 index hi =>
        by_cases single : a.members = 1
        case neg =>
          simp only [Bool.or_eq_true, decide_eq_true_eq, Bool.not_eq_true', not_or, not_not,
            Bool.not_eq_false] at h
          cases p h.1.1.2 single h.2
          case inl h' => exact absurd h' h.1.2
          case inr h' => exact absurd (activationLogged_iff.mpr h') logged
        case pos =>
          generalize hb : ({ a with log := _ } : ShardActor σ) = b
          have role : b.role = a.role := by rw [← hb]
          have frame : b.persistLogAppend.1 = _ := onStore_frame _
          generalize b.persistLogAppend = r at frame
          obtain ⟨c, error⟩ := r
          cases error
          case some => exact stays_failStorage _ _
          case none =>
            simp only at frame ⊢
            rw [if_pos (by rw [frame, ← hb]; exact single)]
            exact fun h => (stays_commitTo _ h).trans (by rw [frame, role])

end Send

end ShardActor
