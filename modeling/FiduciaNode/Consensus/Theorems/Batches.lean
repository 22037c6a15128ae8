import FiduciaNode.Consensus.Replication

section Requests

variable [PeerPlane] {request : AppendEntriesReq} {maxEntries maxBytes : Nat} {batch suffix : List LogEntry}

-- A batch is some of the first entries.
theorem boundedAppendRequest_eq (request : AppendEntriesReq) (maxEntries maxBytes : Nat)
    (batch suffix : List LogEntry) :
    ∃ n, boundedAppendRequest request maxEntries maxBytes batch suffix =
      { request with entries := batch ++ suffix.take n } := by
  induction suffix generalizing batch
  case nil => exact ⟨0, by simp [boundedAppendRequest]⟩
  case cons entry suffix ih =>
    simp only [boundedAppendRequest]
    split
    case isTrue => exact ⟨0, by simp⟩
    case isFalse =>
      split
      case isTrue =>
        have ⟨n, eq⟩ := ih (batch ++ [entry])
        exact ⟨n + 1, by rw [eq]; simp⟩
      case isFalse =>
        split
        case isTrue => exact ⟨0, by simp⟩
        case isFalse => exact ⟨1, by simp⟩

-- A batch is empty only if there is nothing to send.
theorem boundedAppendRequest_first (request : AppendEntriesReq) (maxEntries maxBytes : Nat)
    (suffix : List LogEntry) :
    ∃ n, boundedAppendRequest request maxEntries maxBytes [] suffix =
      { request with entries := suffix.take n } ∧ (suffix ≠ [] → 0 < n) := by
  cases suffix
  case nil => exact ⟨0, by simp [boundedAppendRequest]⟩
  case cons entry suffix =>
    simp only [boundedAppendRequest, List.length_nil, ge_iff_le, Nat.le_zero, Nat.max_eq_zero_iff,
      one_ne_zero, and_false, if_false, List.nil_append]
    split
    case isTrue =>
      have ⟨n, eq⟩ := boundedAppendRequest_eq request maxEntries maxBytes [entry] suffix
      exact ⟨n + 1, by simp [eq]⟩
    case isFalse => exact ⟨1, by simp⟩

-- A request within the bounds, but for a single entry that is too large on its own.
structure AppendEntriesReq.Bounded (maxEntries maxBytes : Nat) (request : AppendEntriesReq) : Prop where
  length : request.entries.length ≤ max maxEntries 1
  size   : 1 < request.entries.length → request.bodyBytes ≤ max maxBytes 1

-- The loop keeps the entries that it holds within the bounds.
theorem AppendEntriesReq.Bounded.fill
    (h : Bounded maxEntries maxBytes { request with entries := batch }) :
    Bounded maxEntries maxBytes (boundedAppendRequest request maxEntries maxBytes batch suffix) := by
  induction suffix generalizing batch
  case nil => exact h
  case cons entry suffix ih =>
    simp only [boundedAppendRequest]
    split
    case isTrue => exact h
    case isFalse room =>
      have length : (batch ++ [entry]).length ≤ max maxEntries 1 := by
        simpa using Nat.lt_of_not_le room
      split
      case isTrue fits => exact ih ⟨length, fun _ => Nat.le_of_not_lt fits⟩
      case isFalse =>
        split
        case isTrue => exact h
        case isFalse single => exact ⟨length, fun many => absurd many single⟩

end Requests

-- What bounds the batches to a peer.
structure Channel where
  maxEntries     : Nat
  maxBytes       : Nat
  peerProtocol   : Nat
  activeProtocol : Nat

namespace Channel

variable {ch : Channel} {suffix : List LogEntry} {n : Nat}

def sendable (ch : Channel) (suffix : List LogEntry) : List LogEntry :=
  appendableProtocolPrefix suffix ch.peerProtocol ch.activeProtocol

theorem sendable_drop (le : n ≤ (ch.sendable suffix).length) :
    ch.sendable (suffix.drop n) = (ch.sendable suffix).drop n := by
  simp only [sendable, appendableProtocolPrefix] at le ⊢
  induction n generalizing suffix
  case zero => rfl
  case succ n ih =>
    cases suffix
    case nil => rfl
    case cons entry suffix =>
      simp only [List.takeWhile_cons] at le ⊢
      split at le
      case isTrue sendable => simpa [sendable] using ih (by simpa using le)
      case isFalse => simp at le

variable [PeerPlane]

def bounded (ch : Channel) (request : AppendEntriesReq) (suffix : List LogEntry) : AppendEntriesReq :=
  boundedAppendRequest request ch.maxEntries ch.maxBytes [] (ch.sendable suffix)

theorem bounded_entries (ch : Channel) (request : AppendEntriesReq) (suffix : List LogEntry) :
    (ch.bounded request suffix).entries <+: ch.sendable suffix ∧
    (ch.sendable suffix ≠ [] → (ch.bounded request suffix).entries ≠ []) := by
  have ⟨n, eq, positive⟩ := boundedAppendRequest_first request ch.maxEntries ch.maxBytes (ch.sendable suffix)
  rw [bounded, eq]
  refine ⟨List.take_prefix .., fun nonempty => ?_⟩
  simpa [nonempty] using (positive nonempty).ne'

theorem length_bounded_le (ch : Channel) (request : AppendEntriesReq) (suffix : List LogEntry) :
    (ch.bounded request suffix).entries.length ≤ suffix.length :=
  ((ch.bounded_entries request suffix).1.trans (List.takeWhile_prefix _)).length_le

-- Batch after batch, each right after the one before, until nothing more can be sent. The requests may differ in
-- everything but their entries.
def batches (ch : Channel) (request : Nat → AppendEntriesReq) (sent : Nat) (suffix : List LogEntry) :
    List (List LogEntry) :=
  let batch := (ch.bounded (request sent) suffix).entries
  if batch = [] then [] else batch :: ch.batches request (sent + batch.length) (suffix.drop batch.length)
termination_by suffix.length
decreasing_by
  have le := ch.length_bounded_le (request sent) suffix
  have positive := List.length_pos_of_ne_nil ‹¬ batch = []›
  simp only [List.length_drop, batch] at positive ⊢
  omega

theorem flatten_batches (ch : Channel) (request : Nat → AppendEntriesReq) (sent : Nat) (suffix : List LogEntry) :
    (ch.batches request sent suffix).flatten = ch.sendable suffix := by
  fun_induction batches
  case case1 sent suffix batch none =>
    by_contra ne
    exact (ch.bounded_entries (request sent) suffix).2 (Ne.symm ne) none
  case case2 sent suffix batch some ih =>
    have ⟨rest, split⟩ := (ch.bounded_entries (request sent) suffix).1
    rw [List.flatten_cons, ih, sendable_drop (by simp [← split, batch]), ← split, List.drop_left]

theorem batches_cover (ch : Channel) (suffix : List LogEntry) :
    (∀ request : AppendEntriesReq,
      (ch.bounded request suffix).entries <+: ch.sendable suffix ∧
      (ch.sendable suffix ≠ [] → (ch.bounded request suffix).entries ≠ []) ∧
      (ch.bounded request suffix).entries.length ≤ max ch.maxEntries 1 ∧
      (max ch.maxBytes 1 < (ch.bounded request suffix).bodyBytes →
        (ch.bounded request suffix).entries ≠ [] → (ch.bounded request suffix).entries.length = 1)) ∧
    ∀ request sent, (ch.batches request sent suffix).flatten = ch.sendable suffix := by
  refine ⟨fun request => ?_, fun request sent => ch.flatten_batches request sent suffix⟩
  have ⟨initial, nonempty⟩ := ch.bounded_entries request suffix
  have bounded : (ch.bounded request suffix).Bounded ch.maxEntries ch.maxBytes :=
    AppendEntriesReq.Bounded.fill ⟨Nat.zero_le _, nofun⟩
  refine ⟨initial, nonempty, bounded.length, fun large sends => ?_⟩
  by_contra several
  have := List.length_pos_of_ne_nil sends
  exact Nat.not_le_of_lt large (bounded.size (by omega))

end Channel

namespace ShardActor

variable {σ : Type} [StateMachine σ] [PeerPlane]

def channel (a : ShardActor σ) (peerProtocol : Nat) : Channel where
  maxEntries     := PeerPlane.appendMaxEntries
  maxBytes       := PeerPlane.appendMaxBytes
  peerProtocol   := peerProtocol
  activeProtocol := a.commandProtocol

theorem appendEntriesReq_entries (a : ShardActor σ) (prevLogIndex peerProtocol : Nat) :
    ∃ n, (a.appendEntriesReq prevLogIndex peerProtocol).entries = (appendableProtocolPrefix
      (a.log.drop (prevLogIndex - a.snapshotIndex)) peerProtocol a.commandProtocol).take n :=
  ⟨_, List.prefix_iff_eq_take.mp ((a.channel peerProtocol).bounded_entries _ _).1⟩

end ShardActor
