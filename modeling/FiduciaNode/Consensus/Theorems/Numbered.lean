import FiduciaNode.Consensus.Theorems.Moves.Run

namespace Disk

-- The index of a snapshot file has 64 bits.
def Ranged (d : Disk) : Prop :=
  ∀ snapshot, d.snapshot = some snapshot → snapshot.lastIncludedIndex ≤ U64.max

theorem recover_snapshot {d : Disk} {r : Recovered} (h : d.recover = .ok r) : r.snapshot = d.snapshot := by
  simp only [recover] at h
  split at h
  case isTrue => contradiction
  case isFalse =>
    split at h
    case isTrue => contradiction
    case isFalse =>
      split at h
      case h_1 => contradiction
      case h_2 =>
        split at h
        case isTrue => contradiction
        case isFalse =>
          split at h
          case isTrue => contradiction
          case isFalse =>
            split at h
            case isTrue => contradiction
            case isFalse => rw [← Except.ok.inj h]

theorem Ranged.snapshotIndex {d : Disk} {r : Recovered} (ranged : d.Ranged) (h : d.recover = .ok r) :
    r.snapshotIndex ≤ U64.max := by
  rw [Recovered.snapshotIndex, recover_snapshot h]
  cases hs : d.snapshot
  case none => exact Nat.zero_le _
  case some snapshot => exact ranged snapshot hs

end Disk

namespace Event

-- The index of an offered snapshot has 64 bits.
def Ranged : Event → Prop
  | .message (.installSnapshot req) => req.lastIncludedIndex ≤ U64.max
  | _ => True

-- Entries do not start past the end of the log, unless the term that they follow shows it.
def Abuts (last : Nat) : Event → Prop
  | .message (.appendEntries req) =>
    req.prevLogTerm ≠ 0 ∨ req.prevLogIndex ≤ last ∨ req.entries = []
  | _ => True

end Event

namespace ShardActor

variable {σ : Type}

-- The log is numbered from the snapshot on, and the other indices lie between its ends.
structure Numbered (a : ShardActor σ) : Prop where
  index     : ∀ k entry, a.log[k]? = some entry → entry.index = a.snapshotIndex + 1 + k
  snapshot  : a.snapshotIndex ≤ a.lastApplied
  applied   : a.lastApplied ≤ a.commitIndex
  committed : a.commitIndex ≤ a.lastLogIndex

structure Grows (a b : ShardActor σ) : Prop where
  term     : a.currentTerm ≤ b.currentTerm
  snapshot : a.snapshotIndex ≤ b.snapshotIndex
  applied  : a.lastApplied ≤ b.lastApplied
  commit   : a.commitIndex ≤ b.commitIndex

-- What an event must not do to the numbers of an actor. The source adds to the last index of a new
-- leader and to the term of a candidate without a check.
structure Regular (a : ShardActor σ) (e : Event) : Prop where
  ranged : e.Ranged
  abuts  : e.Abuts a.lastLogIndex
  room   : e.elects → a.role ≠ .leader → a.lastLogIndex < U64.max ∧ a.currentTerm < U64.max

structure Fitting (a : ShardActor σ) : Prop extends Numbered a where
  range    : a.snapshotIndex + a.log.length ≤ U64.max
  positive : 0 < a.currentTerm

variable {e : Event} {start a b c : ShardActor σ}
  {commands : List Command} {events : List Event}

section Basic

theorem Grows.refl (a : ShardActor σ) : Grows a a :=
  ⟨le_rfl, le_rfl, le_rfl, le_rfl⟩

theorem Grows.trans (g₁ : Grows a b) (g₂ : Grows b c) : Grows a c where
  term     := g₁.term.trans g₂.term
  snapshot := g₁.snapshot.trans g₂.snapshot
  applied  := g₁.applied.trans g₂.applied
  commit   := g₁.commit.trans g₂.commit

theorem Fitting.last (f : a.Fitting) : a.lastLogIndex = a.snapshotIndex + a.log.length :=
  Nat.min_eq_left f.range

theorem Fitting.ordered (f : a.Fitting) : a.commitIndex ≤ a.snapshotIndex + a.log.length :=
  f.last ▸ f.committed

theorem Fitting.mk' (index : ∀ k entry, a.log[k]? = some entry → entry.index = a.snapshotIndex + 1 + k)
    (snapshot : a.snapshotIndex ≤ a.lastApplied) (applied : a.lastApplied ≤ a.commitIndex)
    (committed : a.commitIndex ≤ a.snapshotIndex + a.log.length)
    (range : a.snapshotIndex + a.log.length ≤ U64.max) (positive : 0 < a.currentTerm) : a.Fitting where
  index     := index
  snapshot  := snapshot
  applied   := applied
  committed := by
    rw [lastLogIndex, U64.saturatingAdd]
    omega
  range     := range
  positive  := positive

-- Neither the log nor a number has changed, but the term may be newer.
theorem Fitting.stays (f : a.Fitting) (r : b.replica = a.replica) (term : a.currentTerm ≤ b.currentTerm) :
    b.Fitting ∧ Grows a b := by
  injection r with hs _ _ hl hc ha _
  refine ⟨.mk' ?_ (hs ▸ ha ▸ f.snapshot) (ha ▸ hc ▸ f.applied) (hs ▸ hl ▸ hc ▸ f.ordered)
    (hs ▸ hl ▸ f.range) (f.positive.trans_le term), term, hs.ge, ha.ge, hc.ge⟩
  rw [hs, hl]
  exact f.index

theorem Elects.replica (h : Elects a b) : b.replica = a.replica := by
  rw [h]
  rfl

theorem replica_saved {op : ShardStore → ShardStore.Result} {error : Option String}
    (h : a.onStore op = (b, error)) : b.replica = a.replica ∧ b.currentTerm = a.currentTerm := by
  obtain ⟨_, _, rfl⟩ := onStore_eq h
  exact ⟨rfl, rfl⟩

end Basic

section Moves

theorem Fitting.drop (f : a.Fitting) {n : Nat} (le : a.snapshotIndex ≤ n) (k : Nat) (entry : LogEntry)
    (h : (a.log.drop (n - a.snapshotIndex))[k]? = some entry) : entry.index = n + 1 + k := by
  rw [List.getElem?_drop] at h
  have := f.index _ _ h
  omega

-- The entries after an index are those after its place in the log.
theorem Numbered.filter_index (f : a.Numbered) {n : Nat} (le : a.snapshotIndex ≤ n) :
    a.log.filter (·.index > n) = a.log.drop (n - a.snapshotIndex) := by
  have covered : (a.log.take (n - a.snapshotIndex)).filter (·.index > n) = [] := by
    refine List.filter_eq_nil_iff.mpr fun entry h => ?_
    have ⟨k, hk, eq⟩ := List.mem_take_iff_getElem.mp h
    have := f.index k entry (List.getElem?_eq_some_iff.mpr ⟨by omega, eq⟩)
    simp only [decide_eq_true_eq]
    omega
  have after : (a.log.drop (n - a.snapshotIndex)).filter (·.index > n) =
      a.log.drop (n - a.snapshotIndex) := by
    refine List.filter_eq_self.mpr fun entry h => ?_
    have ⟨k, hk⟩ := List.mem_iff_getElem?.mp h
    rw [List.getElem?_drop] at hk
    have := f.index _ entry hk
    simp only [decide_eq_true_eq]
    omega
  calc a.log.filter (·.index > n)
    _ = (a.log.take (n - a.snapshotIndex) ++ a.log.drop (n - a.snapshotIndex)).filter (·.index > n) := by
      rw [List.take_append_drop]
    _ = a.log.drop (n - a.snapshotIndex) := by
      rw [List.filter_append, covered, after, List.nil_append]

theorem wellFormed_cons {term i : Nat} {entry : LogEntry} {es : List LogEntry}
    (wf : wellFormed term i (entry :: es)) :
    entry.index = i + 1 ∧ i + 1 ≤ U64.max ∧ wellFormed term (i + 1) es := by
  simp only [wellFormed] at wf
  split at wf
  case h_1 => contradiction
  case h_2 next h =>
    obtain ⟨rfl, le⟩ := U64.checkedAdd_eq_some_iff.mp h
    simp only [Bool.and_eq_true, decide_eq_true_eq] at wf
    exact ⟨wf.1.1.1, le, wf.2⟩

-- An entry with the number of its place replaces what comes after the first entries.
theorem Fitting.push (f : a.Fitting) {n : Nat} {entry : LogEntry} (le : n ≤ a.log.length)
    (index : entry.index = a.snapshotIndex + n + 1) (fits : a.snapshotIndex + n + 1 ≤ U64.max)
    (kept : a.commitIndex ≤ a.snapshotIndex + n + 1) :
    Fitting { a with log := a.log.take n ++ [entry] } := by
  have length : (a.log.take n ++ [entry]).length = n + 1 := by simp [le]
  refine .mk' ?_ f.snapshot f.applied (by simp only [length]; omega) (by simp only [length]; omega)
    f.positive
  intro k x hk
  simp only [List.getElem?_append, List.length_take, Nat.min_eq_left le] at hk
  split at hk
  case isTrue lt =>
    rw [List.getElem?_take_of_lt lt] at hk
    exact f.index k x hk
  case isFalse =>
    have ⟨lt, eq⟩ := List.getElem?_eq_some_iff.mp hk
    simp only [List.length_singleton] at lt
    obtain rfl : k = n := by omega
    simp only [Nat.sub_self, List.getElem_cons_zero] at eq
    rw [← eq, index]
    simp only
    omega

theorem Fitting.append (f : a.Fitting) {entry : LogEntry}
    (index : entry.index = a.snapshotIndex + a.log.length + 1)
    (fits : a.snapshotIndex + a.log.length + 1 ≤ U64.max) : Fitting { a with log := a.log ++ [entry] } := by
  have := f.push le_rfl index fits (f.ordered.trans (Nat.le_succ _))
  rwa [List.take_length] at this

-- Entries that start within the log or right after it are stored where they belong.
theorem appendLoop_fitting {s s' : Appended σ} {term i : Nat} {es : List LogEntry}
    (f : s.actor.Fitting) (wf : wellFormed term i es)
    (abuts : i ≤ s.actor.snapshotIndex + s.actor.log.length ∨ es = [])
    (h : appendLoop s i es = .ok s') : s'.actor.Fitting := by
  induction es generalizing s i
  case nil => exact Except.ok.inj h ▸ f
  case cons entry es ih =>
    have ⟨index, fits, wf⟩ := wellFormed_cons wf
    have abuts : i ≤ s.actor.snapshotIndex + s.actor.log.length := abuts.resolve_right (by simp)
    simp only [appendLoop] at h
    split at h
    case isTrue => exact ih f wf (.inl (by omega)) h
    case isFalse =>
      split at h
      case h_1 absent =>
        have := List.getElem?_eq_none_iff.mp absent
        exact ih (s := { s with actor := { s.actor with log := s.actor.log ++ [entry] }, grew := true })
          (f.append (by omega) (by omega)) wf (.inl (by simp; omega)) h
      case h_2 existing present =>
        have := (List.getElem?_eq_some_iff.mp present).1
        split at h
        case isTrue => exact ih f wf (.inl (by omega)) h
        case isFalse =>
          split at h
          case isTrue => contradiction
          case isFalse uncommitted =>
            exact ih (s := { s with
              actor := { s.actor with
                log := s.actor.log.take (i + 1 - s.actor.snapshotIndex - 1) ++ [entry] }
              truncated := true
            }) (f.push (by omega) (by omega) (by omega) (by omega)) wf (.inl (by simp; omega)) h

variable [StateMachine σ] [PeerPlane]

theorem Move.fitting (regular : start.Regular e) (m : Move e start a b) (f : a.Fitting) :
    b.Fitting ∧ Grows a b := by
  cases m
  case resign => exact f.stays (replica_stepDown _ _) (stepDown_term le_rfl).ge
  case poll elects _ term _ => exact f.stays elects.replica term.ge
  case withdraw elects _ term _ => exact f.stays elects.replica term
  case campaign elects _ term _ => exact f.stays elects.replica (by omega)
  case save saved => exact f.stays (replica_saved saved).1 (replica_saved saved).2.ge
  case fail failed _ => exact f.stays (replica_saved failed).1 (replica_saved failed).2.ge
  case extend command _ fits =>
    have fits : a.lastLogIndex < U64.max := by
      rcases fits with fits | ⟨elects, unled, same⟩
      case inl => exact fits
      case inr => exact same ▸ (regular.room elects unled).1
    have last := f.last
    exact ⟨f.append (by simp only [newEntry]; omega) (by omega), le_rfl, le_rfl, le_rfl, le_rfl⟩
  case merge req asked admits appended stored unchanged =>
    have last := f.last
    have abuts : req.prevLogIndex ≤ a.snapshotIndex + a.log.length ∨ req.entries = [] := by
      have abuts := regular.abuts
      simp only [asked, Event.Abuts] at abuts
      rcases abuts with known | within | none
      case inl =>
        rcases admits.prev with zero | agrees
        case inl => exact .inl (by omega)
        case inr => exact .inl (termAt_pos (agrees ▸ Nat.pos_of_ne_zero known)).2
      case inr.inl => exact .inl (by omega)
      case inr.inr => exact .inr none
    have f' := appendLoop_fitting f admits.wellFormed abuts stored
    rw [(appendLoop_ok stored).1] at f'
    exact ⟨f', le_rfl, le_rfl, le_rfl, le_rfl⟩
  case install req asked restored installs =>
    have last := f.last
    have := f.applied
    have := f.range
    have newer := installs.newer
    have beyond := installs.beyond
    have ranged : req.lastIncludedIndex ≤ U64.max := by
      have := regular.ranged
      simpa [asked, Event.Ranged] using this
    have suffix : a.keptSuffix req = a.log.drop (req.lastIncludedIndex - a.snapshotIndex) ∨
        a.keptSuffix req = [] := by
      simp only [keptSuffix]
      split
      case isTrue => exact .inl (f.filter_index newer.le)
      case isFalse => exact .inr rfl
    refine ⟨.mk' ?_ le_rfl (Nat.le_max_right _ _) ?_ ?_ f.positive, le_rfl, newer.le, ?_,
      Nat.le_max_left _ _⟩
    case refine_1 =>
      intro k entry h
      rcases suffix with kept | none
      case inl =>
        simp only [kept] at h
        exact f.drop newer.le k entry h
      case inr => simp [none] at h
    case refine_2 =>
      simp only
      omega
    case refine_3 =>
      rcases suffix with kept | none
      case inl =>
        simp only [kept, List.length_drop]
        omega
      case inr => simpa [none] using ranged
    case refine_4 =>
      simp only
      omega
  case commit index commits =>
    have last := f.last
    have := f.ordered
    have := f.applied
    have bound : a.commitIndex ≤ index ∧ index ≤ a.snapshotIndex + a.log.length := by
      cases commits
      case majority newer current =>
        have := termAt_pos (current ▸ f.positive)
        omega
      case lone last => omega
      case follower newer held => omega
    exact ⟨.mk' f.index f.snapshot (f.applied.trans bound.1) bound.2 f.range f.positive,
      le_rfl, le_rfl, le_rfl, bound.1⟩
  case apply completed entry committed _ =>
    obtain ⟨pending, out, eq, _⟩ := applyEntry_eq (a := a) completed (a.lastApplied + 1) entry
    rw [eq]
    exact ⟨.mk' f.index (f.snapshot.trans (Nat.le_succ _)) committed f.ordered f.range f.positive,
      le_rfl, le_rfl, Nat.le_succ _, le_rfl⟩
  case compact newer =>
    have last := f.last
    have := f.applied
    have := f.ordered
    have := f.range
    refine ⟨.mk' (f.drop newer.le) le_rfl f.applied ?_ ?_ f.positive, le_rfl, newer.le, le_rfl, le_rfl⟩
    all_goals
      simp only [List.length_drop]
      omega
  all_goals exact f.stays rfl le_rfl

theorem Moves.fitting (regular : start.Regular e) (m : Moves e start a b) (f : a.Fitting) :
    b.Fitting ∧ Grows a b := by
  induction m
  case refl => exact ⟨f, .refl a⟩
  case tail step ih =>
    have ⟨f, g⟩ := step.fitting regular ih.1
    exact ⟨f, ih.2.trans g⟩

end Moves

section Run

-- An event that asks for nothing meets every condition.
theorem regular_query (a : ShardActor σ) (request : ReadRequest) (client : Nat) :
    a.Regular (.message (.queryLocal request client)) :=
  ⟨trivial, trivial, fun h => nomatch h⟩

variable [StateMachine σ]

theorem Started.fitting {b : Boot} {d : Disk} {r : Recovered} {store : ShardStore} {state : σ}
    (s : Started b d r store state) (ranged : d.Ranged) : (initial b store r state).Fitting := by
  have := s.committed
  have snapshot := ranged.snapshotIndex s.recovered
  refine .mk' ?_ le_rfl (Nat.le_max_right _ _) ?_ ?_ (Nat.lt_of_lt_of_le Nat.one_pos (Nat.le_max_right _ _))
  case refine_1 =>
    intro k entry h
    have := (s.indexed k entry h).1
    simp only [initial]
    omega
  case refine_2 =>
    simp only [initial]
    omega
  case refine_3 =>
    simp only [initial]
    by_cases empty : r.log.length = 0
    case pos => omega
    case neg =>
      have := s.indexed (r.log.length - 1) _ (List.getElem?_eq_getElem (by omega))
      omega

theorem quarantined_fitting (b : Boot) (reason : String) (out : List Effect) :
    Fitting ({ quarantined b reason with out } : ShardActor σ) :=
  .mk' (fun _ _ h => nomatch h) le_rfl le_rfl le_rfl (Nat.zero_le _) Nat.one_pos

variable [PeerPlane]

theorem Trace.fitting (trace : Trace Disk.Ranged Regular commands events a) : a.Fitting := by
  refine trace.induct (P := fun _ a => a.Fitting) (.message (.queryLocal .serviceList 0)) ?_ ?_ ?_ ?_ ?_ ?_
  case refine_1 => exact fun b reason steps => quarantined_fitting b reason _
  case refine_2 => exact fun b d r store state ranged started => started.fitting ranged
  case refine_3 => exact fun start a b m f => (m.fitting (regular_query start _ _) f).1
  case refine_4 => exact fun a steps f => (f.stays (b := { a with out := _ ++ a.out }) rfl le_rfl).1
  case refine_5 => exact fun events a env e _ f => (f.stays (b := a.observe env) rfl le_rfl).1
  case refine_6 => exact fun events e start a b regular _ _ m f => (m.fitting regular f).1

-- The log stays numbered and no number goes back, whatever the requests and replies hold, as long as
-- no entries leave a gap to the end of the log and the numbers do not run out.
theorem Trace.log_invariant (trace : Trace Disk.Ranged Regular commands events a) :
    a.Numbered ∧
    ∀ env e, (a.observe env).Regular e → Grows a ((a.observe env).dispatch e).1 := by
  refine ⟨trace.fitting.toNumbered, fun env e regular => ?_⟩
  have f := (trace.fitting.stays (b := a.observe env) rfl le_rfl).1
  have ⟨_, g⟩ := Moves.fitting regular (trace.run.moves env e) f
  exact ⟨g.term, g.snapshot, g.applied, g.commit⟩

end Run

section Gap

-- One of two members.
def pair : Boot where
  shardId  := 0
  nodeId   := "a"
  peers    := ["b"]
  dataDir  := ""
  timing   := .default
  now      := 0
  nowMs    := 0
  nowNanos := 0

-- A request for one entry. No entry has the term zero, but neither does an index past the log.
def oneEntry (prevLogIndex : Nat) : AppendEntriesReq where
  term            := 1
  leaderId        := "b"
  prevLogIndex    := prevLogIndex
  prevLogTerm     := 0
  entries         := [{ term := 1, index := prevLogIndex + 1, proposedAtMs := 0, command := none }]
  leaderCommit    := 0
  commandProtocol := Command.currentCommandProtocol

def afterEntry (prevLogIndex : Nat) : ShardActor Tally :=
  letI := PeerPlane.fixed
  (((boot pair .empty []).observe ⟨0, 0, []⟩).dispatch (.message (.appendEntries (oneEntry prevLogIndex)))).1

theorem gap_stored :
    letI := PeerPlane.fixed
    Run [] (afterEntry 5) ∧ (afterEntry 5).snapshotIndex = 0 ∧
    (afterEntry 5).log.map (·.index) = [6] ∧ ¬(afterEntry 5).Numbered := by
  let := PeerPlane.fixed
  have run : Run [] (boot pair .empty [] : ShardActor Tally) := .boot pair .empty []
  have indices : (afterEntry 5).log.map (·.index) = [6] := by decide +kernel
  have snapshot : (afterEntry 5).snapshotIndex = 0 := by decide +kernel
  refine ⟨.event run ⟨0, 0, []⟩ _ (by simp), snapshot, indices, fun numbered => ?_⟩
  have ⟨entry, eq, index⟩ := List.map_eq_singleton_iff.mp indices
  have := numbered.index 0 entry (by rw [eq]; rfl)
  omega

theorem abutting_stored :
    (afterEntry 0).log.map (·.index) = [1] ∧ (afterEntry 0).Numbered := by
  let := PeerPlane.fixed
  have ranged : Disk.Ranged .empty := fun _ h => nomatch h
  have trace : Trace Disk.Ranged Regular [] [] (boot pair .empty [] : ShardActor Tally) :=
    .boot pair .empty [] ranged
  have trace : Trace Disk.Ranged Regular [] [.message (.appendEntries (oneEntry 0))] (afterEntry 0) :=
    .event trace ⟨0, 0, []⟩ _ (by simp) ⟨trivial, .inr (.inl (Nat.zero_le _)), fun h => nomatch h⟩
  exact ⟨by decide +kernel, trace.log_invariant.1⟩

end Gap

end ShardActor
