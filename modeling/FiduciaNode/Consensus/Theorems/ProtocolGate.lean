import FiduciaNode.Consensus.Machine
import FiduciaNode.Consensus.Theorems.Callbacks

-- The state machine never has a protocol older than the first one.
class ProtocolFloor (σ : Type) [StateMachine σ] : Prop where
  new      : Command.legacyCommandProtocol ≤ StateMachine.commandProtocol (StateMachine.new : σ)
  restored : ∀ bytes (state : σ), StateMachine.restore bytes = .ok state →
               Command.legacyCommandProtocol ≤ StateMachine.commandProtocol state

instance [External] [StoreCodec] [StoreReads] (o : IterOrder) : @ProtocolFloor Store (Store.machine o) :=
  let := Store.machine o
  { new := le_rfl, restored := fun _ _ h => Store.decodeSnapshot_commandProtocol h }

namespace ShardActor

variable {σ : Type} [StateMachine σ] {e : Event} {start a b : ShardActor σ} {events : List Event}
  {ls : LeaderState} {peer : String}

-- The protocol is the last one that the leader knows the peer to parse, and the peer has told it to
-- the leader in this leadership.
def Advertised (events : List Event) (a : ShardActor σ) (peer : String) (protocol : Nat) : Prop :=
  (∃ ls, a.leader = some ls ∧ ls.peerCommandProtocol[peer]? = some protocol) ∧
  ∃ e ∈ events, e.advertises a.currentTerm peer protocol

-- What the gate lets a move do.
structure Gated (events : List Event) (a b : ShardActor σ) : Prop where
  proposed  : a.role = .leader → ∀ entry ∈ b.log, entry ∈ a.log ∨
    ∀ command ∈ entry.command, command.requiredProtocol ≤ a.commandProtocol ∨
      command = .activateCommandProtocol Command.currentCommandProtocol
  sent      : ∀ peer request upTo req,
    .appendEntries peer request upTo req ∈ b.out → .appendEntries peer request upTo req ∈ a.out ∨
      ∀ entry ∈ req.entries, ∀ command ∈ entry.command, command.requiredProtocol ≤ a.commandProtocol ∨
        ∃ protocol, Advertised events a peer protocol ∧ command.requiredProtocol ≤ protocol
  committed : a.role = .leader → ∀ entry ∈ a.log, a.commitIndex < entry.index →
    entry.index ≤ b.commitIndex → ∀ command ∈ entry.command,
      command.requiredProtocol ≤ a.commandProtocol ∨
      Command.currentCommandProtocol ≤ a.commandProtocol ∨
      ∀ peer ∈ a.peers, ∃ protocol, Advertised events a peer protocol ∧
        Command.currentCommandProtocol ≤ protocol
  applied   : a.commandProtocol ≤ b.commandProtocol ∨ a.commitIndex < b.snapshotIndex

-- Where the protocols come from that a leader knows its peers to parse.
structure Advertising (events : List Event) (a : ShardActor σ) : Prop where
  idle  : a.role ≠ .leader → a.leader = none
  floor : Command.legacyCommandProtocol ≤ a.commandProtocol
  heard : ∀ ls, a.leader = some ls → ∀ (peer : String) (protocol : Nat),
    ls.peerCommandProtocol[peer]? = some protocol → protocol = Command.legacyCommandProtocol ∨
      ∃ e ∈ events, e.advertises a.currentTerm peer protocol

section Advertising

theorem Advertising.onto (h : Advertising events a) (role : b.role = a.role)
    (term : b.currentTerm = a.currentTerm) (leader : b.leader = a.leader)
    (protocol : a.commandProtocol ≤ b.commandProtocol) : Advertising events b where
  idle unled := leader.trans (h.idle (role ▸ unled))
  floor      := h.floor.trans protocol
  heard      := by
    rw [leader, term]
    exact h.heard

theorem Advertising.retire (h : Advertising events a) (leader : b.leader = none)
    (protocol : a.commandProtocol ≤ b.commandProtocol) : Advertising events b where
  idle _  := leader
  floor   := h.floor.trans protocol
  heard _ := by simp [leader]

-- The leader keeps what it knows of the protocols.
theorem Advertising.note (h : Advertising events a) {f : LeaderState → LeaderState}
    (same : ∀ ls, (f ls).peerCommandProtocol = ls.peerCommandProtocol) :
    Advertising events (a.onLeader f) where
  idle unled       := by simp [onLeader, h.idle unled]
  floor            := h.floor
  heard ls' leads' := by
    obtain ⟨ls, leads, rfl⟩ := Option.map_eq_some_iff.mp leads'
    rw [same]
    exact h.heard ls leads

theorem Advertising.advertise {protocol : Nat} (h : Advertising events a) (mem : e ∈ events)
    (advertises : e.advertises a.currentTerm peer protocol) :
    Advertising events (a.onLeader fun ls => { ls with
      peerCommandProtocol := ls.peerCommandProtocol.insert peer protocol }) where
  idle unled       := by simp [onLeader, h.idle unled]
  floor            := h.floor
  heard ls' leads' := by
    obtain ⟨ls, leads, rfl⟩ := Option.map_eq_some_iff.mp leads'
    intro p q known
    simp only [HashMap.get_insert] at known
    split at known
    case isTrue same =>
      cases known
      exact .inr ⟨e, mem, same ▸ advertises⟩
    case isFalse => exact h.heard ls leads p q known

theorem Advertising.lead (h : Advertising events a) :
    Advertising events (emit { a with
      role := .leader, leaderId := some a.nodeId, votes := ∅, leader := some a.initialLeaderState
    } (.becameLeader a.currentTerm)) where
  idle unled     := absurd rfl unled
  floor          := h.floor
  heard ls leads := by
    cases leads
    intro p q known
    simp only [initialLeaderState, HashMap.get_foldl_insert] at known
    split at known
    case isTrue => exact .inl (Option.some.inj known).symm
    case isFalse => simp at known

variable [PeerPlane] [ProtocolFloor σ]

theorem Move.advertising (m : Move e start a b) (h : Advertising events a)
    (mem : ∀ term peer protocol, e.advertises term peer protocol → e ∈ events) :
    Advertising events b := by
  cases m
  case resign fault =>
    have halted : (a.stepDown a.currentTerm none).Halted := stepDown_halted le_rfl fault
    exact h.retire halted.leader (commandProtocol_congr (replica_stepDown _ _)).ge
  case poll elects role term leader =>
    have protocol := (commandProtocol_congr elects.replica).ge
    rcases role with role | ⟨unled, _⟩
    case inl => exact h.onto role term leader protocol
    case inr => exact h.retire (leader.trans (h.idle unled)) protocol
  case withdraw elects _ _ leader => exact h.retire leader (commandProtocol_congr elects.replica).ge
  case campaign free elects _ _ leader =>
    exact h.retire (leader.trans (h.idle free)) (commandProtocol_congr elects.replica).ge
  case lead => exact h.lead
  case save saved =>
    obtain ⟨_, _, rfl⟩ := onStore_eq saved
    exact h.onto rfl rfl rfl le_rfl
  case fail failed _ =>
    obtain ⟨_, _, rfl⟩ := onStore_eq failed
    exact h.retire rfl le_rfl
  case stop => exact h.retire rfl le_rfl
  case install restored installs =>
    have idle := h.idle (by simp [installs.follower])
    exact ⟨fun _ => idle, ProtocolFloor.restored _ _ installs.restored, by simp [idle]⟩
  case apply completed entry _ _ =>
    have ⟨pending, out, eq, _⟩ := applyEntry_eq (a := a) completed (a.lastApplied + 1) entry
    rw [eq]
    exact h.onto rfl rfl rfl (le_applied_commandProtocol a.state entry)
  case send ls leads peer _ =>
    have leader : a.role = .leader := by
      by_contra other
      simp [h.idle other] at leads
    refine ⟨fun unled => absurd leader unled, h.floor, fun ls' leads' => ?_⟩
    cases leads'
    exact h.heard ls leads
  case callback | land | contact => exact h.note fun _ => rfl
  case advertise peer protocol advertises => exact h.advertise (mem _ _ _ advertises) advertises
  case advance | rewind => exact h.note fun _ => rfl
  all_goals exact h.onto rfl rfl rfl le_rfl

end Advertising

section Gate

-- The first of the entries has the lowest number.
omit [StateMachine σ] in
theorem Numbered.find_le (n : a.Numbered) {p : LogEntry → Bool} {first entry : LogEntry}
    (found : a.log.find? p = some first) (mem : entry ∈ a.log) (h : p entry) :
    first.index ≤ entry.index := by
  have ⟨_, i, hi, eq, before⟩ := List.find?_eq_some_iff_getElem.mp found
  have ⟨k, hk, eq'⟩ := List.getElem_of_mem mem
  have first := n.index i first (List.getElem?_eq_some_iff.mpr ⟨hi, eq⟩)
  have entry := n.index k entry (List.getElem?_eq_some_iff.mpr ⟨hk, eq'⟩)
  have : ¬k < i := fun lt => by simpa [eq', h] using before k lt
  omega

-- What a leader knows a peer to parse, if that is new, was advertised by it.
theorem Advertising.advertised {protocol : Nat} (h : Advertising events a) (leads : a.leader = some ls)
    (known : ls.peerCommandProtocol[peer]?.getD Command.legacyCommandProtocol = protocol)
    (newer : Command.legacyCommandProtocol < protocol) : Advertised events a peer protocol := by
  cases hp : ls.peerCommandProtocol[peer]?
  case none => simp [hp, ← known] at newer
  case some q =>
    obtain rfl : q = protocol := by simpa [hp] using known
    refine ⟨⟨ls, leads, hp⟩, (h.heard ls leads peer q hp).resolve_left newer.ne'⟩

theorem Advertising.all_advertised (h : Advertising events a)
    (all : a.allPeersSupportCurrentCommandProtocol) :
    ∀ peer ∈ a.peers, ∃ protocol, Advertised events a peer protocol ∧
      Command.currentCommandProtocol ≤ protocol := by
  intro peer mem
  simp only [allPeersSupportCurrentCommandProtocol, Bool.or_eq_true, members] at all
  rcases all with lone | all
  case inl =>
    have : a.peers = [] := by simpa using lone
    simp [this] at mem
  case inr =>
    cases leads : a.leader
    case none => simp [leads] at all
    case some ls =>
      simp only [leads, Option.any_some, List.all_eq_true, decide_eq_true_eq] at all
      exact ⟨_, h.advertised leads rfl (Nat.lt_of_lt_of_le (by decide) (all peer mem)), all peer mem⟩

-- The leader does not commit past the first entry that needs more than what is active, as long as
-- some peer might not parse it.
theorem commitCandidate_gate (n : a.Numbered) {entry : LogEntry} {command : Command}
    (gate : a.commandProtocol < Command.currentCommandProtocol)
    (unsupported : a.allPeersSupportCurrentCommandProtocol = false)
    (mem : entry ∈ a.log) (newer : a.commitIndex < entry.index) (le : entry.index ≤ a.commitCandidate)
    (proposes : command ∈ entry.command) : command.requiredProtocol ≤ a.commandProtocol := by
  by_contra exceeds
  set p : LogEntry → Bool := fun entry =>
    entry.index > a.commitIndex && entry.command.any (·.requiredProtocol > a.commandProtocol) with hp
  have blocks : p entry := by
    simp only [hp, Option.mem_def.mp proposes, Option.any_some, Bool.and_eq_true, decide_eq_true_eq]
    omega
  simp only [commitCandidate, gate, unsupported, decide_true, Bool.not_false, Bool.and_self, if_true] at le
  cases found : a.log.find? p
  case none => exact (List.find?_eq_none.mp found entry mem) blocks
  case some first =>
    have first_le := n.find_le found mem blocks
    rw [found, Option.elim_some] at le
    omega

-- Neither the log nor the commit index goes on, and nothing is sent.
theorem Gated.quiet (log : ∀ entry ∈ b.log, entry ∈ a.log)
    (sends : ∀ peer request upTo req, .appendEntries peer request upTo req ∈ b.out →
      .appendEntries peer request upTo req ∈ a.out)
    (commit : b.commitIndex = a.commitIndex) (protocol : a.commandProtocol ≤ b.commandProtocol) :
    Gated events a b where
  proposed _ entry mem             := .inl (log entry mem)
  sent peer request upTo req mem   := .inl (sends peer request upTo req mem)
  committed _ entry _ newer held _ := absurd newer (by omega)
  applied                          := .inl protocol

theorem Gated.still (r : b.replica = a.replica)
    (sends : ∀ peer request upTo req, .appendEntries peer request upTo req ∈ b.out →
      .appendEntries peer request upTo req ∈ a.out) : Gated events a b :=
  .quiet (by rw [show b.log = a.log from congrArg Replica.log r]; exact fun _ => id) sends
    (congrArg Replica.commitIndex r) (commandProtocol_congr r).ge

-- A follower proposes nothing and commits what it is told to.
theorem Gated.follower (follower : a.role = .follower)
    (sends : ∀ peer request upTo req, .appendEntries peer request upTo req ∈ b.out →
      .appendEntries peer request upTo req ∈ a.out)
    (applied : a.commandProtocol ≤ b.commandProtocol ∨ a.commitIndex < b.snapshotIndex) :
    Gated events a b where
  proposed leader                := by simp [follower] at leader
  sent peer request upTo req mem := .inl (sends peer request upTo req mem)
  committed leader               := by simp [follower] at leader
  applied                        := applied

omit [StateMachine σ] in
theorem Adds.sends (adds : Adds a b) (peer : String) (request : RequestStamp) (upTo : Nat)
    (req : AppendEntriesReq) (mem : .appendEntries peer request upTo req ∈ b.out) :
    .appendEntries peer request upTo req ∈ a.out := by
  have ⟨effects, eq, aside⟩ := adds
  rw [eq] at mem
  rcases List.mem_append.mp mem with mem | mem
  case inl => exact mem
  case inr => exact nomatch (aside _ mem).1

section Send

variable [PeerPlane]

theorem appendEntriesReq_sendable {prevLogIndex peerProtocol : Nat} {entry : LogEntry} {command : Command}
    (mem : entry ∈ (a.appendEntriesReq prevLogIndex peerProtocol).entries)
    (proposes : command ∈ entry.command) :
    command.requiredProtocol ≤ peerProtocol ∨ command.requiredProtocol ≤ a.commandProtocol := by
  have ⟨n, eq⟩ := a.appendEntriesReq_entries prevLogIndex peerProtocol
  rw [eq] at mem
  have sendable := List.mem_takeWhile_imp (List.mem_of_mem_take mem)
  simpa [Option.mem_def.mp proposes] using sendable

theorem Gated.send (h : Advertising events a) (leads : a.leader = some ls) (peer : String)
    (sequence : Nat) :
    Gated events a (emit (a.requesting ls peer sequence) (a.shipment ls peer sequence)) where
  proposed _ entry mem             := .inl mem
  sent p request upTo req mem      := by
    rcases List.mem_append.mp mem with mem | mem
    case inl => exact .inl mem
    case inr =>
      refine .inr fun entry sent command proposes => ?_
      have eq := List.mem_singleton.mp mem
      simp only [shipment] at eq
      split at eq
      case isTrue => contradiction
      case isFalse =>
        cases eq
        rcases appendEntriesReq_sendable sent proposes with parses | active
        case inr => exact .inl active
        case inl =>
          by_cases old : command.requiredProtocol ≤ Command.legacyCommandProtocol
          case pos => exact .inl (old.trans h.floor)
          case neg =>
            have newer := Nat.lt_of_lt_of_le (Nat.lt_of_not_le old) parses
            exact .inr ⟨_, h.advertised leads rfl newer, parses⟩
  committed _ entry _ newer held _ := absurd newer (by simp only [emit, requesting] at held; omega)
  applied                          := .inl le_rfl

end Send

theorem Gated.commit (h : Advertising events a) (n : a.Numbered) {index : Nat}
    (commits : a.Commits index) : Gated events a { a with commitIndex := index } where
  proposed _ entry mem                         := .inl mem
  sent _ _ _ _ mem                             := .inl mem
  committed leader entry mem newer held command proposes := by
    cases commits
    case follower follower _ _ => simp [follower] at leader
    case lone lone _ =>
      have all : a.allPeersSupportCurrentCommandProtocol := by
        simp [allPeersSupportCurrentCommandProtocol, lone]
      exact .inr (.inr (h.all_advertised all))
    case majority candidate _ _ =>
      cases all : a.allPeersSupportCurrentCommandProtocol
      case true => exact .inr (.inr (h.all_advertised all))
      case false =>
        by_cases gate : a.commandProtocol < Command.currentCommandProtocol
        case neg => exact .inr (.inl (Nat.le_of_not_lt gate))
        case pos => exact .inl (commitCandidate_gate n gate all mem newer (candidate ▸ held) proposes)
  applied                                      := .inl le_rfl

theorem Gated.extend (h : Advertising events a) {command : Option Command}
    (proposable : a.Proposable command) : Gated events a { a with log := a.nextLog command } where
  proposed _ entry mem             := by
    rcases List.mem_append.mp mem with mem | mem
    case inl => exact .inl mem
    case inr =>
      obtain rfl := List.mem_singleton.mp mem
      refine .inr fun c proposes => ?_
      have active := proposable c proposes
      rwa [Nat.max_eq_right h.floor] at active
  sent _ _ _ _ mem                 := .inl mem
  committed _ entry _ newer held _ := absurd newer (by simp only at held; omega)
  applied                          := .inl le_rfl

theorem Move.gated [PeerPlane] (m : Move e start a b) (n : a.Numbered) (h : Advertising events a) :
    Gated events a b := by
  rcases m.adds with adds | ⟨_, rfl⟩ | ⟨ls, peer, leads, rfl⟩
  case inr.inl =>
    refine .still rfl fun peer request upTo req mem => ?_
    rcases List.mem_append.mp mem with mem | mem
    case inl => exact mem
    case inr => simp at mem
  case inr.inr => exact .send h leads peer _
  case inl =>
    cases m
    case resign => exact .still (replica_stepDown _ _) adds.sends
    case poll elects _ _ _ => exact .still elects.replica adds.sends
    case withdraw elects _ _ _ => exact .still elects.replica adds.sends
    case campaign elects _ _ _ => exact .still elects.replica adds.sends
    case save saved => exact .still (replica_saved saved).1 adds.sends
    case fail failed _ => exact .still (replica_saved failed).1 adds.sends
    case extend proposable _ => exact .extend h proposable
    case merge admits _ _ _ => exact .follower admits.follower adds.sends (.inl le_rfl)
    case install installs => exact .follower installs.follower adds.sends (.inr installs.beyond)
    case commit commits => exact .commit h n commits
    case apply completed entry _ _ =>
      have ⟨pending, out, eq, _⟩ := applyEntry_eq (a := a) completed (a.lastApplied + 1) entry
      rw [eq] at adds ⊢
      exact .quiet (fun _ => id) adds.sends rfl (le_applied_commandProtocol a.state entry)
    case compact newer => exact .quiet (fun _ => List.mem_of_mem_drop) adds.sends rfl le_rfl
    case send ls leads peer _ => exact .send h leads peer _
    all_goals exact .still rfl adds.sends

end Gate

section Run

variable [PeerPlane] [ProtocolFloor σ] {commands : List Command} {disk : Disk → Prop}
  {meets : ShardActor σ → Event → Prop}

omit [PeerPlane] in
theorem initial_advertising {boot : Boot} {d : Disk} {r : Recovered} {store : ShardStore} {state : σ}
    (s : Started boot d r store state) : Advertising [] (initial boot store r state) where
  idle unled     := by
    cases h : boot.peers.isEmpty
    case false => simp [initial, h]
    case true => simp [initial, h] at unled
  floor          := by
    have restored := s.restored
    simp only [ShardActor.restored] at restored
    cases hs : r.snapshot
    case none =>
      obtain rfl : StateMachine.new = state := by simpa [hs] using restored
      exact ProtocolFloor.new
    case some snapshot =>
      rw [hs, Option.elim_some] at restored
      exact ProtocolFloor.restored _ _ restored
  heard ls leads := by
    simp only [initial] at leads
    split at leads
    case isTrue =>
      cases leads
      simp [LeaderState.empty]
    case isFalse => contradiction

omit [PeerPlane] [ProtocolFloor σ] in
theorem Advertising.arrives (h : Advertising events a) (env : Env) (e : Event) :
    Advertising (e :: events) (a.observe env) where
  idle  := h.idle
  floor := h.floor
  heard := fun ls leads peer protocol known =>
    (h.heard ls leads peer protocol known).imp_right fun ⟨x, mem, advertises⟩ =>
      ⟨x, List.mem_cons_of_mem _ mem, advertises⟩

theorem Trace.advertising (trace : Trace disk meets commands events a) : Advertising events a := by
  refine trace.induct (P := Advertising) (.message (.queryLocal .serviceList 0)) ?_ ?_ ?_ ?_ ?_ ?_
  case refine_1 => exact fun b reason steps => ⟨fun _ => rfl, ProtocolFloor.new, fun _ h => nomatch h⟩
  case refine_2 => exact fun b d r store state _ started => initial_advertising started
  case refine_3 => exact fun start a b m h => m.advertising h fun _ _ _ advertises => advertises.elim
  case refine_4 => exact fun a steps h => h.onto rfl rfl rfl le_rfl
  case refine_5 => exact fun events a env e _ h => h.arrives env e
  case refine_6 => exact fun events e start a b _ _ _ m h => m.advertising h fun _ _ _ _ => List.mem_cons_self

theorem Trace.gated {env : Env} (trace : Trace Disk.Ranged Regular commands events a)
    (regular : (a.observe env).Regular e) (m : Moves e (a.observe env) (a.observe env) b) :
    Relation.ReflTransGen (fun b c => Move e (a.observe env) b c ∧ Gated (e :: events) b c)
      (a.observe env) b ∧ b.Fitting ∧ Advertising (e :: events) b := by
  induction m
  case refl =>
    have f := (trace.fitting.stays (b := a.observe env) rfl le_rfl).1
    exact ⟨.refl, f, trace.advertising.arrives env e⟩
  case tail b c _ step ih =>
    have ⟨chain, f, h⟩ := ih
    exact ⟨chain.tail ⟨step, step.gated f.toNumbered h⟩, (step.fitting regular f).1,
      step.advertising h fun _ _ _ _ => List.mem_cons_self⟩

end Run

section Store

variable [External] [StoreCodec] [StoreReads] [PeerPlane]

end Store

end ShardActor
