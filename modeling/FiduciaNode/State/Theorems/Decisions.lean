import FiduciaNode.State.Theorems.Frames

namespace DecisionVoteRecord

-- The vote counts for the option.
def isFor (v : DecisionVoteRecord) (option : String) : Bool :=
  !v.veto && decide (v.option = some option)

-- What the vote adds to the weight of the option, and to the number of votes cast.
def weightFor (v : DecisionVoteRecord) (option : String) : Nat :=
  if v.isFor option then v.weight else 0

def voices (v : DecisionVoteRecord) : Nat :=
  if !v.veto && v.option.isSome then 1 else 0

theorem voices_pos_iff {v : DecisionVoteRecord} : 0 < v.voices ↔ ∃ option, v.isFor option := by
  unfold voices isFor
  cases v.veto <;> cases v.option <;> simp

end DecisionVoteRecord

namespace DecisionRecord

variable {d : DecisionRecord} {now later requiredWeight : Nat} {w w' option : String}

-- The weight of an option without saturation, and as it is tallied.
def weightOf (d : DecisionRecord) (option : String) : Nat :=
  HashMap.total (·.weightFor option) d.votes

def tally (d : DecisionRecord) (option : String) : Nat :=
  min (d.weightOf option) U64.max

def Chosen (d : DecisionRecord) (option : String) : Prop :=
  ∃ (voter : String) (vote : DecisionVoteRecord), d.votes[voter]? = some vote ∧ vote.isFor option

def Free (d : DecisionRecord) : Prop :=
  ∀ (voter : String) (vote : DecisionVoteRecord), d.votes[voter]? = some vote → vote.veto = false

def passed (d : DecisionRecord) (now : Nat) : Bool :=
  d.deadlineMs.any (· ≤ now)

section Tallies

-- One vote is added to the sums.
def counted (sums : BTreeMap String Nat) (vote : DecisionVoteRecord) : BTreeMap String Nat :=
  match vote.veto, vote.option with
  | false, some option => sums.insert option (U64.saturatingAdd (sums.getD option 0) vote.weight)
  | _, _ => sums

def sums (d : DecisionRecord) : BTreeMap String Nat :=
  d.votes.values.foldl counted ∅

variable {sums : BTreeMap String Nat} {vote : DecisionVoteRecord} {votes : List DecisionVoteRecord}

theorem tallies_eq : d.tallies = d.sums.toList :=
  rfl

theorem getD_counted (le : sums.getD option 0 ≤ U64.max) :
    (counted sums vote).getD option 0 = U64.saturatingAdd (sums.getD option 0) (vote.weightFor option) := by
  have same : U64.saturatingAdd (sums.getD option 0) 0 = sums.getD option 0 := Nat.min_eq_left le
  obtain ⟨choice, _, weight, veto, _⟩ := vote
  simp only [counted, DecisionVoteRecord.weightFor, DecisionVoteRecord.isFor]
  cases veto
  case true => simp [same]
  case false =>
    cases choice
    case none => simp [same]
    case some x =>
      by_cases eq : x = option
      case pos => simp [eq]
      case neg => simp [eq, same, Std.ExtTreeMap.getD_insert]

theorem mem_counted : option ∈ counted sums vote ↔ vote.isFor option ∨ option ∈ sums := by
  obtain ⟨choice, _, weight, veto, _⟩ := vote
  simp only [counted, DecisionVoteRecord.isFor]
  cases veto
  case true => simp
  case false => cases choice <;> simp

theorem getD_foldl_counted (le : sums.getD option 0 ≤ U64.max) :
    (votes.foldl counted sums).getD option 0 =
      votes.foldl (fun acc vote => U64.saturatingAdd acc (vote.weightFor option)) (sums.getD option 0) := by
  induction votes generalizing sums
  case nil => rfl
  case cons vote votes ih =>
    rw [List.foldl_cons, List.foldl_cons, ih, getD_counted le]
    rw [getD_counted le]
    exact U64.saturatingAdd_le_max _ _

theorem mem_foldl_counted :
    option ∈ votes.foldl counted sums ↔ (∃ vote ∈ votes, vote.isFor option) ∨ option ∈ sums := by
  induction votes generalizing sums
  case nil => simp
  case cons vote votes ih =>
    rw [List.foldl_cons, ih, mem_counted]
    simp only [List.mem_cons, exists_eq_or_imp]
    exact or_left_comm.trans or_assoc.symm

theorem sums_getD : d.sums.getD option 0 = d.tally option := by
  have start : (∅ : BTreeMap String Nat).getD option 0 = 0 := by simp
  rw [sums, getD_foldl_counted (start ▸ Nat.zero_le _), start, U64.foldl_saturatingAdd _ _ (Nat.zero_le _),
    Nat.zero_add, HashMap.sum_sorted_values, tally, weightOf]

theorem mem_votes : vote ∈ d.votes.values ↔ ∃ voter : String, d.votes[voter]? = some vote := by
  simp [HashMap.sorted_values]

theorem mem_sums : option ∈ d.sums ↔ d.Chosen option := by
  simp only [sums, mem_foldl_counted, mem_votes, Chosen, Std.ExtTreeMap.not_mem_empty, or_false]
  grind

theorem mem_tallies {weight : Nat} : (option, weight) ∈ d.tallies ↔ d.Chosen option ∧ weight = d.tally option := by
  rw [tallies_eq, HashMap.mem_toList, ← mem_sums, ← sums_getD]
  by_cases mem : option ∈ d.sums
  case pos => rw [Std.ExtTreeMap.getElem?_eq_some_getD mem, Option.some.injEq, eq_comm, and_iff_right mem]
  case neg => simp [mem]

theorem sorted_tallies : d.tallies.Pairwise (·.1 < ·.1) := by
  have ordered := Std.ExtTreeMap.ordered_keys_toList (t := d.sums)
  exact ordered.imp compare_lt_iff_lt.mp

theorem cast_eq : d.cast = HashMap.total (·.voices) d.votes := by
  rw [cast, ← HashMap.sum_sorted_values]
  induction d.votes.values
  case nil => rfl
  case cons vote votes ih =>
    rw [List.countP_cons, ih, List.map_cons, List.sum_cons, DecisionVoteRecord.voices, Nat.add_comm]

theorem cast_pos_iff : 0 < d.cast ↔ ∃ option, d.Chosen option := by
  have voiced (vote : DecisionVoteRecord) : (!vote.veto && vote.option.isSome) ↔ ∃ option, vote.isFor option := by
    rw [← DecisionVoteRecord.voices_pos_iff, DecisionVoteRecord.voices]
    split <;> simp [*]
  simp only [cast, List.countP_pos_iff, mem_votes, voiced, Chosen]
  grind

end Tallies

section Top

-- The option weighs the most of all that were chosen. Among equals it is the least one.
def LeadsBy (weight : String → Nat) (d : DecisionRecord) (w : String) : Prop :=
  d.Chosen w ∧ ∀ option, d.Chosen option → weight option < weight w ∨ weight option = weight w ∧ w ≤ option

abbrev Leads (d : DecisionRecord) : String → Prop :=
  LeadsBy d.tally d

-- The option that wins by the actual weights.
abbrev Plurality (d : DecisionRecord) : String → Prop :=
  LeadsBy d.weightOf d

theorem LeadsBy.unique {weight : String → Nat} (h : LeadsBy weight d w) (h' : LeadsBy weight d w') : w = w' := by
  have := h.2 w' h'.1
  have := h'.2 w h.1
  grind

def Ahead (t₁ t₂ : String × Nat) : Prop :=
  t₂.2 < t₁.2 ∨ t₂.2 = t₁.2 ∧ t₁.1 ≤ t₂.1

def better (best : Option (String × Nat)) (t : String × Nat) : Option (String × Nat) :=
  match best with
  | none => some t
  | some b => if (compare b.2 t.2).then (compare t.1 b.1) |>.isLE then some t else some b

theorem top_eq : d.top = d.tallies.foldl better none :=
  rfl

theorem better_some (b t : String × Nat) :
    ∃ best, better (some b) t = some best ∧ (best = b ∨ best = t) ∧ Ahead best b ∧ Ahead best t := by
  have le : ((compare b.2 t.2).then (compare t.1 b.1)).isLE ↔ Ahead t b := by
    rw [Ordering.isLE_then_iff_or, compare_lt_iff_lt, compare_eq_iff_eq, Ordering.isLE_iff_ne_gt, ← ne_eq,
      compare_le_iff_le, Ahead]
  simp only [better]
  split
  case isTrue ahead => exact ⟨t, rfl, .inr rfl, le.mp ahead, .inr ⟨rfl, le_rfl⟩⟩
  case isFalse behind =>
    refine ⟨b, rfl, .inl rfl, .inr ⟨rfl, le_rfl⟩, ?_⟩
    rw [le] at behind
    unfold Ahead at behind ⊢
    grind

theorem foldl_better (b : String × Nat) (l : List (String × Nat)) :
    ∃ best, l.foldl better (some b) = some best ∧ best ∈ b :: l ∧ ∀ t ∈ b :: l, Ahead best t := by
  induction l generalizing b
  case nil => exact ⟨b, rfl, by simp, by simp [Ahead]⟩
  case cons t l ih =>
    have ⟨b', step, either, ahead, ahead'⟩ := better_some b t
    have ⟨best, fold, mem, all⟩ := ih b'
    have first : Ahead best b' := all b' (by simp)
    refine ⟨best, by rw [List.foldl_cons, step, fold], by grind, fun x hx => ?_⟩
    unfold Ahead at *
    grind

theorem top_eq_none_iff : d.top = none ↔ ∀ option, ¬d.Chosen option := by
  have empty : d.tallies = [] ↔ ∀ option, ¬d.Chosen option := by
    simp only [List.eq_nil_iff_forall_not_mem, Prod.forall, mem_tallies]
    grind
  rw [top_eq, ← empty]
  cases d.tallies
  case nil => simp
  case cons t l =>
    have ⟨best, fold, _⟩ := foldl_better t l
    simp [better, fold]

theorem top_eq_some_iff {weight : Nat} : d.top = some (w, weight) ↔ d.Leads w ∧ weight = d.tally w := by
  have leads {t : String × Nat} (h : d.top = some t) : d.Leads t.1 ∧ t.2 = d.tally t.1 := by
    rw [top_eq] at h
    cases eq : d.tallies
    case nil => simp [eq] at h
    case cons t' l =>
      have ⟨best, fold, mem, ahead⟩ := foldl_better t' l
      rw [eq, List.foldl_cons, show better none t' = some t' from rfl, fold, Option.some.injEq] at h
      subst h
      rw [← eq] at mem ahead
      have ⟨chosen, weight⟩ := mem_tallies.mp mem
      refine ⟨⟨chosen, fun option chosen => ?_⟩, weight⟩
      have := ahead (option, d.tally option) (mem_tallies.mpr ⟨chosen, rfl⟩)
      rwa [Ahead, weight] at this
  constructor
  case mp => exact leads
  case mpr =>
    intro ⟨wins, weight⟩
    cases eq : d.top
    case none => exact absurd wins.1 (top_eq_none_iff.mp eq w)
    case some t =>
      have ⟨wins', weight'⟩ := leads eq
      have same := wins.unique wins'
      grind

end Top

section Policies

-- The least option that reaches the weight.
def First (d : DecisionRecord) (requiredWeight : Nat) (w : String) : Prop :=
  d.Chosen w ∧ requiredWeight ≤ d.tally w ∧ ∀ option, d.Chosen option → requiredWeight ≤ d.tally option → w ≤ option

-- The only option that was chosen.
def Sole (d : DecisionRecord) (w : String) : Prop :=
  d.Chosen w ∧ ∀ option, d.Chosen option → option = w

theorem find_eq_some_iff {weight : Nat} :
    (d.tallies.find? fun (_, weight) => weight ≥ requiredWeight) = some (w, weight) ↔
      d.First requiredWeight w ∧ weight = d.tally w := by
  have first {t : String × Nat}
      (h : (d.tallies.find? fun (_, weight) => weight ≥ requiredWeight) = some t) :
      d.First requiredWeight t.1 ∧ t.2 = d.tally t.1 := by
    have ⟨reaches, before, after, split, short⟩ := List.find?_eq_some_iff_append.mp h
    have ⟨chosen, weight⟩ := mem_tallies.mp (List.mem_of_find?_eq_some h)
    refine ⟨⟨chosen, by simpa [weight] using reaches, fun option chosen' reaches' => ?_⟩, weight⟩
    have mem := mem_tallies.mpr ⟨chosen', rfl⟩
    have sorted := d.sorted_tallies
    rw [split, List.pairwise_append, List.pairwise_cons] at sorted
    rw [split, List.mem_append, List.mem_cons] at mem
    rcases mem with mem | mem | mem
    case inl => simpa [reaches'] using short _ mem
    case inr.inl => exact le_of_eq (congrArg Prod.fst mem).symm
    case inr.inr => exact (sorted.2.1.1 _ mem).le
  constructor
  case mp => exact first
  case mpr =>
    intro ⟨⟨chosen, reaches, least⟩, weight⟩
    cases eq : d.tallies.find? fun (_, weight) => weight ≥ requiredWeight
    case none =>
      have := List.find?_eq_none.mp eq _ (mem_tallies.mpr ⟨chosen, rfl⟩)
      simp [reaches] at this
    case some t =>
      have ⟨⟨chosen', reaches', least'⟩, weight'⟩ := first eq
      have := least t.1 chosen' reaches'
      have := least' w chosen reaches
      grind

theorem length_tallies_iff : d.tallies.length = 1 ↔ ∃ w, d.Sole w := by
  constructor
  case mp =>
    intro one
    have ⟨t, eq⟩ := List.length_eq_one_iff.mp one
    have mem {option : String} : d.Chosen option ↔ option = t.1 := by
      constructor
      case mp =>
        intro chosen
        have := eq ▸ mem_tallies.mpr ⟨chosen, rfl⟩
        exact congrArg Prod.fst (List.mem_singleton.mp this)
      case mpr =>
        intro same
        have : (t.1, t.2) ∈ d.tallies := by simp [eq]
        exact same ▸ (mem_tallies.mp this).1
    exact ⟨t.1, mem.mpr rfl, fun _ => mem.mp⟩
  case mpr =>
    intro ⟨w, chosen, sole⟩
    have distinct : (d.tallies.map Prod.fst).Nodup := HashMap.keys_toList_nodup d.sums
    have all : d.tallies.map Prod.fst = [w] := by
      refine (List.perm_ext_iff_of_nodup distinct (List.nodup_singleton w)).mpr (fun option => ?_) |>.eq_singleton
      simp only [List.mem_map, Prod.exists, exists_and_right, exists_eq_right, mem_tallies, List.mem_singleton]
      exact ⟨sole option, fun same => same ▸ chosen⟩
    rw [← List.length_map (f := Prod.fst), all, List.length_singleton]

theorem Sole.leads (h : d.Sole w) : d.Leads w :=
  ⟨h.1, fun option chosen => .inr ⟨by rw [h.2 option chosen], (h.2 option chosen).ge⟩⟩

-- The policy gives the decision to the option.
def Wins (d : DecisionRecord) (now : Nat) (w : String) : Prop :=
  match d.policy with
  | .plurality minVotes => (minVotes ≤ d.cast ∨ d.passed now) ∧ d.Leads w
  | .threshold requiredWeight => d.First requiredWeight w
  | .unanimous minVotes => minVotes ≤ d.cast ∧ d.Sole w

theorem free_iff : d.votes.values.any (·.veto) = false ↔ d.Free := by
  simp only [List.any_eq_false, mem_votes, Free, Bool.not_eq_true]
  grind

theorem Wins.chosen (h : d.Wins now w) : d.Chosen w := by
  unfold Wins at h
  split at h
  case h_1 => exact h.2.1
  case h_2 => exact h.1
  case h_3 => exact h.2.1

theorem Wins.unique (h : d.Wins now w) (h' : d.Wins now w') : w = w' := by
  cases policy : d.policy
  all_goals simp only [Wins, policy] at h h'
  case plurality => exact h.2.unique h'.2
  case threshold => exact le_antisymm (h.2.2 w' h'.1 h'.2.1) (h'.2.2 w h.1 h.2.1)
  case unanimous => exact h'.2.2 w h.2.1

theorem resolve_vetoed (h : ¬d.Free) : d.resolve now = (.vetoed, none) :=
  if_pos (Bool.not_eq_false _ ▸ mt free_iff.mp h)

theorem resolve_wins (free : d.Free) (h : d.Wins now w) : d.resolve now = (.resolved, some w) := by
  rw [resolve, free_iff.mpr free]
  cases policy : d.policy
  all_goals simp only [Wins, policy] at h
  case plurality minVotes =>
    have ⟨closed, leads⟩ := h
    have cast : 0 < d.cast := cast_pos_iff.mpr ⟨w, leads.1⟩
    have met : (decide (d.cast ≥ minVotes) || (d.deadlineMs.any (· ≤ now) && decide (d.cast > 0))) = true := by
      rw [Bool.or_eq_true, Bool.and_eq_true, decide_eq_true cast]
      exact closed.imp decide_eq_true (⟨·, rfl⟩)
    simp only [met, top_eq_some_iff.mpr ⟨leads, rfl⟩, if_true, Bool.false_eq_true, if_false]
  case threshold requiredWeight =>
    simp only [find_eq_some_iff.mpr ⟨h, rfl⟩, Bool.false_eq_true, if_false]
  case unanimous minVotes =>
    have ⟨enough, sole⟩ := h
    have met : (decide (d.cast ≥ minVotes) && decide (d.tallies.length = 1)) = true := by
      rw [Bool.and_eq_true]
      exact ⟨decide_eq_true enough, decide_eq_true (length_tallies_iff.mpr ⟨w, sole⟩)⟩
    simp only [met, top_eq_some_iff.mpr ⟨sole.leads, rfl⟩, if_true, Bool.false_eq_true, if_false, Option.map_some]

def asksForVotes (d : DecisionRecord) : Bool :=
  !(d.policy matches .plurality 0)

-- A decision that no option wins is open until its deadline, and for ever if it asks for no votes.
theorem resolve_open (free : d.Free) (h : ∀ w, ¬d.Wins now w) :
    d.resolve now = if d.passed now && d.asksForVotes then (.timedOut, none) else (.open, none) := by
  rw [resolve, free_iff.mpr free]
  cases policy : d.policy
  all_goals simp only [Wins, policy] at h
  case plurality minVotes =>
    cases top : d.top
    case some t =>
      have ⟨few, early⟩ := not_or.mp fun closed => h t.1 ⟨closed, (top_eq_some_iff.mp top).1⟩
      simp only [passed, Bool.not_eq_true] at early
      simp [passed, early, few]
    case none =>
      have cast : d.cast = 0 := Nat.eq_zero_of_not_pos fun cast =>
        have ⟨option, chosen⟩ := cast_pos_iff.mp cast
        top_eq_none_iff.mp top option chosen
      cases minVotes
      case zero => simp [cast, asksForVotes, policy]
      case succ => simp [cast, passed, asksForVotes, policy]
  case threshold requiredWeight =>
    have unmet : (d.tallies.find? fun (_, weight) => weight ≥ requiredWeight) = none := by
      rw [Option.eq_none_iff_forall_ne_some]
      exact fun t found => h t.1 (find_eq_some_iff.mp found).1
    simp [unmet, passed, asksForVotes, policy]
  case unanimous minVotes =>
    have unmet : (decide (d.cast ≥ minVotes) && decide (d.tallies.length = 1)) = false := by
      rw [Bool.and_eq_false_iff, decide_eq_false_iff_not, decide_eq_false_iff_not, length_tallies_iff]
      exact not_and_or.mp fun ⟨enough, w, sole⟩ => h w ⟨enough, sole⟩
    simp [unmet, passed, asksForVotes, policy]

theorem resolve_eq_resolved_iff : d.resolve now = (.resolved, some w) ↔ d.Free ∧ d.Wins now w := by
  by_cases free : d.Free
  case neg => simp [resolve_vetoed free, free]
  case pos =>
    by_cases wins : ∃ w', d.Wins now w'
    case pos =>
      have ⟨w', wins⟩ := wins
      rw [resolve_wins free wins]
      simp only [Prod.mk.injEq, true_and, Option.some.injEq, free]
      exact ⟨fun same => same ▸ wins, fun wins' => wins.unique wins'⟩
    case neg =>
      have undecided := not_exists.mp wins
      rw [resolve_open free undecided]
      refine iff_of_false (fun resolved => ?_) fun h => undecided w h.2
      have := congrArg Prod.fst resolved
      split at this <;> contradiction

end Policies

section Deadline

-- The documented outcome of a decision once its deadline has passed.
def IsForced (d : DecisionRecord) (outcome : DecisionStatus × Option String) : Prop :=
  (∃ w, d.Plurality w ∧ outcome = (.resolved, some w)) ∨ (∀ option, ¬d.Chosen option) ∧ outcome = (.timedOut, none)

-- The policy agrees with plurality on the votes, which no saturated weight hides.
def AgreesWithPlurality (d : DecisionRecord) : Prop :=
  match d.policy with
  | .plurality minVotes => ((∃ option, d.Chosen option) ∨ 0 < minVotes) ∧
    ∀ w option, d.Plurality w → d.Chosen option → U64.max ≤ d.weightOf option → w ≤ option
  | .threshold requiredWeight => ∀ w, d.Plurality w → d.First requiredWeight w
  | .unanimous minVotes => ∀ w, d.Plurality w → minVotes ≤ d.cast ∧ d.Sole w

theorem exists_plurality (h : d.Chosen option) : ∃ w, d.Plurality w := by
  let chosen := (d.tallies.map Prod.fst).toFinset
  have mem (option : String) : option ∈ chosen ↔ d.Chosen option := by simp [chosen, mem_tallies]
  let rank (option : String) : ℕ ×ₗ Stringᵒᵈ := toLex (d.weightOf option, OrderDual.toDual option)
  have ⟨w, first, max⟩ := chosen.exists_max_image rank ⟨option, (mem option).mpr h⟩
  refine ⟨w, (mem w).mp first, fun option chosen => ?_⟩
  exact Prod.Lex.le_iff.mp (max option ((mem option).mpr chosen))

theorem Plurality.leads_iff (h : d.Plurality w) :
    d.Leads w ↔ ∀ option, d.Chosen option → U64.max ≤ d.weightOf option → w ≤ option := by
  have (option : String) (chosen : d.Chosen option) :
      (d.tally option < d.tally w ∨ d.tally option = d.tally w ∧ w ≤ option) ↔
        (U64.max ≤ d.weightOf option → w ≤ option) := by
    have := h.2 option chosen
    by_cases le : w ≤ option
    case pos =>
      simp only [tally, le, and_true, implies_true, iff_true]
      omega
    case neg =>
      simp only [tally, le, and_false, or_false, imp_false] at this ⊢
      omega
  exact (and_iff_right h.1).trans (forall₂_congr this)

theorem deadline_forces_plurality_iff {deadlineMs : Nat} (free : d.Free) (deadline : d.deadlineMs = some deadlineMs)
    (le : deadlineMs ≤ now) : d.IsForced (d.resolve now) ↔ d.AgreesWithPlurality := by
  have deadline : d.passed now := by simpa [passed, deadline] using le
  by_cases chosen : ∃ option, d.Chosen option
  case pos =>
    have ⟨option, chosen'⟩ := chosen
    have ⟨w, plurality⟩ := exists_plurality chosen'
    have only (w') : d.Plurality w' ↔ w' = w := ⟨fun h => h.unique plurality, fun same => same ▸ plurality⟩
    have forced : d.IsForced (d.resolve now) ↔ d.Wins now w := by
      rw [IsForced, or_iff_left fun ⟨unchosen, _⟩ => unchosen option chosen', ← and_iff_right (b := d.Wins now w) free,
        ← resolve_eq_resolved_iff]
      simp [only]
    rw [forced]
    simp only [Wins, AgreesWithPlurality]
    split
    case h_1 =>
      rw [plurality.leads_iff, and_iff_right (.inr deadline), and_iff_right (.inl chosen)]
      exact ⟨fun h w' option leads => (only w').mp leads ▸ h option, fun h option => h w option plurality⟩
    case h_2 | h_3 => simp [only]
  case neg =>
    have unchosen := not_exists.mp chosen
    have leaderless (w) : ¬d.Plurality w := fun leads => unchosen w leads.1
    rw [resolve_open free fun w wins => unchosen w wins.chosen, deadline, IsForced,
      or_iff_right fun ⟨w, leads, _⟩ => leaderless w leads, and_iff_right unchosen]
    cases policy : d.policy
    all_goals simp only [AgreesWithPlurality, asksForVotes, policy]
    case plurality minVotes => cases minVotes <;> simp [chosen, leaderless]
    case threshold | unanimous => simp [leaderless]

-- A decision with a deadline and these votes.
def polled (policy : DecisionPolicy) (votes : List (String × String × Nat)) : DecisionRecord where
  question   := "q"
  options    := ["a", "b"]
  policy     := policy
  votes      := votes.foldl (fun votes (voter, option, weight) =>
    votes.insert voter ⟨some option, 0, weight, false, []⟩) ∅
  deadlineMs := some 5
  generation := 1

-- Votes that fall short of a threshold or are not unanimous are dropped, the least option that reaches
-- a threshold wins over a heavier one, and a decision that asks for no votes never times out.
theorem deadline_drops_votes :
    (polled (.threshold 10) [("v", "a", 1)]).resolve 5 = (.timedOut, none) ∧
    (polled (.unanimous 2) [("v", "a", 1), ("v'", "b", 2)]).resolve 5 = (.timedOut, none) ∧
    (polled (.threshold 1) [("v", "a", 1), ("v'", "b", 2)]).resolve 5 = (.resolved, some "a") ∧
    (polled (.plurality 0) []).resolve 5 = (.open, none) := by
  decide +kernel

theorem deadline_forces_heaviest :
    let d := polled (.plurality 3) [("v", "a", 1), ("v'", "b", 2)]
    d.IsForced (d.resolve 5) ∧ d.resolve 5 = (.resolved, some "b") := by
  intro d
  have tallies : d.tallies = [("a", 1), ("b", 2)] := by decide +kernel
  have free : d.Free := free_iff.mp (by decide +kernel)
  have light {option : String} (chosen : d.Chosen option) : d.weightOf option < U64.max := by
    have mem : (option, d.tally option) ∈ [("a", 1), ("b", 2)] := tallies ▸ mem_tallies.mpr ⟨chosen, rfl⟩
    have le : d.tally option ≤ 2 := by
      simp only [List.mem_cons, Prod.mk.injEq, List.not_mem_nil, or_false] at mem
      omega
    have : 2 < U64.max := by decide
    rw [tally] at le
    omega
  have chosen : d.Chosen "a" := (mem_tallies.mp (tallies ▸ List.mem_cons_self)).1
  have agrees : d.AgreesWithPlurality :=
    ⟨.inl ⟨"a", chosen⟩, fun _ option _ chosen heavy => absurd heavy (light chosen).not_ge⟩
  exact ⟨(deadline_forces_plurality_iff free rfl le_rfl).mpr agrees, by decide +kernel⟩

end Deadline

section Final

variable {voter : String} {vote : DecisionVoteRecord} {t : Nat}

def voted (d : DecisionRecord) (voter : String) (vote : DecisionVoteRecord) : DecisionRecord :=
  { d with votes := d.votes.insert voter vote, generation := d.generation + 1 }

theorem passed_later (le : now ≤ later) (h : d.passed now) : d.passed later := by
  unfold passed at h ⊢
  cases deadline : d.deadlineMs
  case none => simp [deadline] at h
  case some =>
    simp only [deadline, Option.any_some, decide_eq_true_eq] at h ⊢
    exact h.trans le

-- Time alone does not take a decision from its winner.
theorem Wins.still (h : d.Wins now w) (le : now ≤ later) : d.Wins later w := by
  cases policy : d.policy
  all_goals simp only [Wins, policy] at h ⊢
  case plurality => exact ⟨h.1.imp_right (passed_later le), h.2⟩
  case threshold | unanimous => exact h

theorem total_voted (f : DecisionVoteRecord → Nat) (new : d.votes[voter]? = none) :
    HashMap.total f (d.voted voter vote).votes = HashMap.total f d.votes + f vote := by
  have inserted := HashMap.total_insert (f := f) d.votes voter vote
  have erased := HashMap.total_erase (f := f) d.votes voter
  rw [new, Option.elim_none] at erased
  rw [voted, inserted]
  omega

theorem weightOf_voted (new : d.votes[voter]? = none) :
    (d.voted voter vote).weightOf option = d.weightOf option + vote.weightFor option :=
  total_voted _ new

theorem cast_voted (new : d.votes[voter]? = none) : (d.voted voter vote).cast = d.cast + vote.voices := by
  rw [cast_eq, cast_eq, total_voted _ new]

theorem chosen_voted (new : d.votes[voter]? = none) :
    (d.voted voter vote).Chosen option ↔ d.Chosen option ∨ vote.isFor option := by
  simp only [Chosen, voted, HashMap.get_insert]
  constructor
  case mp =>
    intro ⟨voter', vote', stored, counts⟩
    split at stored
    case isTrue => exact .inr (Option.some.inj stored ▸ counts)
    case isFalse => exact .inl ⟨voter', vote', stored, counts⟩
  case mpr =>
    rintro (⟨voter', vote', stored, counts⟩ | counts)
    case inl =>
      refine ⟨voter', vote', ?_, counts⟩
      rw [if_neg (fun same => by simp [← same, new] at stored), stored]
    case inr => exact ⟨voter, vote, if_pos rfl, counts⟩

theorem free_voted (free : d.Free) (unvetoed : vote.veto = false) : (d.voted voter vote).Free := by
  intro voter' vote' stored
  rw [voted, HashMap.get_insert] at stored
  split at stored
  case isTrue => exact Option.some.inj stored ▸ unvetoed
  case isFalse => exact free voter' vote' stored

theorem tally_voted (new : d.votes[voter]? = none) (unvetoed : vote.veto = false) :
    (d.voted voter vote).tally option =
      if vote.option = some option then min (d.weightOf option + vote.weight) U64.max else d.tally option := by
  rw [tally, weightOf_voted new, DecisionVoteRecord.weightFor, DecisionVoteRecord.isFor, unvetoed, tally]
  by_cases same : vote.option = some option <;> simp [same]

theorem isFor_iff (unvetoed : vote.veto = false) : vote.isFor option ↔ vote.option = some option := by
  simp [DecisionVoteRecord.isFor, unvetoed]

-- The vote leaves the decision with its winner: it names the winner or no option at all, or its option stays
-- behind the winner nevertheless.
def Withstands (d : DecisionRecord) (w : String) (vote : DecisionVoteRecord) : Prop :=
  ∀ option, vote.option = some option → option ≠ w →
    let tally := min (d.weightOf option + vote.weight) U64.max
    match d.policy with
    | .plurality _ => tally < d.tally w ∨ tally = d.tally w ∧ w ≤ option
    | .threshold requiredWeight => requiredWeight ≤ tally → w ≤ option
    | .unanimous _ => False

theorem leads_voted_iff (leads : d.Leads w) (new : d.votes[voter]? = none) (unvetoed : vote.veto = false) :
    (d.voted voter vote).Leads w ↔ ∀ option, vote.option = some option → option ≠ w →
      min (d.weightOf option + vote.weight) U64.max < d.tally w ∨
      min (d.weightOf option + vote.weight) U64.max = d.tally w ∧ w ≤ option := by
  simp only [LeadsBy, chosen_voted new, isFor_iff unvetoed, tally_voted new unvetoed]
  constructor
  case mp =>
    intro ⟨_, ahead⟩ option choice ne
    have := ahead option (.inr choice)
    simpa [choice, ne] using this
  case mpr =>
    intro behind
    refine ⟨.inl leads.1, fun option chosen => ?_⟩
    by_cases same : option = w
    case pos => exact .inr ⟨by rw [same], same.ge⟩
    case neg =>
      by_cases choice : vote.option = some option
      case pos => simpa [choice, same] using behind option choice same
      case neg =>
        have before := leads.2 option (chosen.resolve_right choice)
        rw [if_neg choice]
        split
        case isFalse => exact before
        case isTrue =>
          have le : d.tally w ≤ min (d.weightOf w + vote.weight) U64.max := by
            rw [tally]
            omega
          rcases before with lt | ⟨eq, least⟩
          case inl => exact .inl (lt.trans_le le)
          case inr => exact (eq ▸ le).lt_or_eq.imp_right (⟨·, least⟩)

theorem first_voted_iff (first : d.First requiredWeight w) (new : d.votes[voter]? = none)
    (unvetoed : vote.veto = false) :
    (d.voted voter vote).First requiredWeight w ↔ ∀ option, vote.option = some option → option ≠ w →
      requiredWeight ≤ min (d.weightOf option + vote.weight) U64.max → w ≤ option := by
  simp only [First, chosen_voted new, isFor_iff unvetoed, tally_voted new unvetoed]
  constructor
  case mp =>
    intro ⟨_, _, least⟩ option choice ne reaches
    exact least option (.inr choice) (by simpa [choice] using reaches)
  case mpr =>
    intro behind
    refine ⟨.inl first.1, ?_, fun option chosen reaches => ?_⟩
    · have reaches := first.2.1
      split
      case isFalse => exact reaches
      case isTrue =>
        rw [tally] at reaches
        omega
    · by_cases same : option = w
      case pos => exact same.ge
      case neg =>
        by_cases choice : vote.option = some option
        case pos => exact behind option choice same (by simpa [choice] using reaches)
        case neg => exact first.2.2 option (chosen.resolve_right choice) (by simpa [choice] using reaches)

theorem sole_voted_iff (sole : d.Sole w) (new : d.votes[voter]? = none) (unvetoed : vote.veto = false) :
    (d.voted voter vote).Sole w ↔ ∀ option, vote.option = some option → option ≠ w → False := by
  simp only [Sole, chosen_voted new, isFor_iff unvetoed]
  constructor
  case mp => exact fun ⟨_, only⟩ option choice ne => ne (only option (.inr choice))
  case mpr =>
    intro behind
    refine ⟨.inl sole.1, fun option chosen => ?_⟩
    exact chosen.elim (sole.2 option) fun choice => by_contra (behind option choice)

-- What one more vote makes of a decision that was resolved, at any later time.
theorem resolve_voted_iff (resolved : d.resolve t = (.resolved, some w)) (new : d.votes[voter]? = none)
    (unvetoed : vote.veto = false) (le : t ≤ later) :
    (d.voted voter vote).resolve later = (.resolved, some w) ↔ d.Withstands w vote := by
  have ⟨free, wins⟩ := resolve_eq_resolved_iff.mp resolved
  have wins := wins.still le
  rw [resolve_eq_resolved_iff, and_iff_right (free_voted free unvetoed)]
  have policy' : (d.voted voter vote).policy = d.policy := rfl
  have cast : d.cast ≤ (d.voted voter vote).cast := cast_voted new ▸ Nat.le_add_right _ _
  cases policy : d.policy
  all_goals simp only [Wins, Withstands, policy', policy] at wins ⊢
  case plurality =>
    have closed := wins.1.imp_left (·.trans cast)
    exact (and_iff_right closed).trans (leads_voted_iff wins.2 new unvetoed)
  case threshold => exact first_voted_iff wins new unvetoed
  case unanimous => exact (and_iff_right (wins.1.trans cast)).trans (sole_voted_iff wins.2 new unvetoed)

end Final

-- What a command can do to the decision of a name.
inductive Step (name : String) : Command → Option DecisionRecord → Option DecisionRecord → Prop
  | keep : Step name c r r
  | propose (question : String) (options : List String) (policy : DecisionPolicy) (deadlineMs : Option Nat) :
    Step name (.decisionPropose name question options policy deadlineMs) none (some record)
  | vote (declared : choice.any (!record.options.contains ·) = false) :
    Step name (.decisionVote name voter choice confidence weight veto evidence) (some record)
      (some (record.voted voter { option := choice, confidence, weight, veto, evidence }))

end DecisionRecord

namespace Decisions

variable {decisions : Decisions} {now : Nat} {name name' : String}

theorem applyDecisionPropose_step (question : String) (options : List String) (policy : DecisionPolicy)
    (deadlineMs : Option Nat) :
    DecisionRecord.Step name' (.decisionPropose name question options policy deadlineMs) decisions[name']?
      (decisions.applyDecisionPropose now name question options policy deadlineMs).1[name']? := by
  simp only [applyDecisionPropose]
  split
  case h_1 => exact .keep
  case h_2 missing =>
    rw [HashMap.get_insert]
    split
    case isFalse => exact .keep
    case isTrue same =>
      subst same
      exact missing ▸ .propose question options policy deadlineMs

theorem applyDecisionVote_step (voter : String) (option : Option String) (confidence : Float32) (weight : Nat)
    (veto : Bool) (evidence : List String) :
    DecisionRecord.Step name' (.decisionVote name voter option confidence weight veto evidence) decisions[name']?
      (decisions.applyDecisionVote now name voter option confidence weight veto evidence).1[name']? := by
  simp only [applyDecisionVote]
  split
  case h_1 => exact .keep
  case h_2 d mem =>
    split
    case isTrue => exact .keep
    case isFalse declared =>
      rw [HashMap.get_insert]
      split
      case isFalse => exact .keep
      case isTrue same =>
        subst same
        exact mem ▸ .vote (Bool.eq_false_iff.mpr declared)

end Decisions

namespace Store

variable [External] {s s' : Store} {o : IterOrder} {c : Command} {revision now t t' : Nat} {name w : String}
  {d : DecisionRecord}

theorem applyCommand_decisions :
    DecisionRecord.Step name c s.decisions[name]? (s.applyCommand o revision now c).1.decisions[name]? := by
  by_cases h : c.part = .decisions
  case neg =>
    have same : (s.applyCommand o revision now c).1.decisions = s.decisions :=
      applyCommand_touches.frame .decisions (Ne.symm h)
    exact same ▸ .keep
  case pos =>
    cases c <;> try contradiction
    case decisionPropose => exact Decisions.applyDecisionPropose_step _ _ _ _
    case decisionVote => exact Decisions.applyDecisionVote_step _ _ _ _ _ _

theorem applyAt_decisions :
    DecisionRecord.Step name c s.decisions[name]? (s.applyAt o c now).1.decisions[name]? := by
  have same : (s.prepare o c now).decisions = s.decisions := prepare_frame .decisions rfl
  exact same ▸ applyCommand_decisions

-- A vote on the decision is no veto, comes from a voter who had not voted, and leaves the decision with its winner.
def Unopposed (name w : String) (s : Store) (c : Command) (_now : Nat) : Prop :=
  ∀ voter option confidence weight veto evidence,
    c = .decisionVote name voter option confidence weight veto evidence →
  ∀ d, s.decisions[name]? = some d → option.any (!d.options.contains ·) = false →
    d.votes[voter]? = none ∧ veto = false ∧ d.Withstands w { option, confidence, weight, veto, evidence }

theorem Advances.decision_resolved (r : Advances (Unopposed name w) s t s' t')
    (mem : s.decisions[name]? = some d) (resolved : d.resolve t = (.resolved, some w)) :
    ∃ d', s'.decisions[name]? = some d' ∧ d'.resolve t' = (.resolved, some w) := by
  induction r
  case refl => exact ⟨d, mem, resolved⟩
  case wait later _ ih =>
    have ⟨d', mem', resolved'⟩ := ih
    have ⟨free, wins⟩ := DecisionRecord.resolve_eq_resolved_iff.mp resolved'
    exact ⟨d', mem', DecisionRecord.resolve_eq_resolved_iff.mpr ⟨free, wins.still later⟩⟩
  case apply s₁ t₁ o₁ c now unopposed later _ ih =>
    have ⟨d₁, mem₁, resolved₁⟩ := ih
    have step : DecisionRecord.Step name c (some d₁) (s₁.applyAt o₁ c now).1.decisions[name]? :=
      mem₁ ▸ applyAt_decisions
    generalize (s₁.applyAt o₁ c now).1.decisions[name]? = r at step
    cases step
    case keep =>
      have ⟨free, wins⟩ := DecisionRecord.resolve_eq_resolved_iff.mp resolved₁
      exact ⟨d₁, rfl, DecisionRecord.resolve_eq_resolved_iff.mpr ⟨free, wins.still later⟩⟩
    case vote declared =>
      have ⟨new, unvetoed, withstands⟩ := unopposed _ _ _ _ _ _ rfl d₁ mem₁ declared
      exact ⟨_, rfl, (DecisionRecord.resolve_voted_iff resolved₁ new unvetoed later).mpr withstands⟩

-- A resolved decision keeps its winner as long as no vote for another option overtakes it, and time alone
-- never changes it.
theorem decision_final_iff (mem : s.decisions[name]? = some d) (status : (d.view name t).status = .resolved)
    (winner : (d.view name t).winner = some w) :
    (∀ s' t', Advances (Unopposed name w) s t s' t' → ∃ d', s'.decisions[name]? = some d' ∧
      (d'.view name t').status = .resolved ∧ (d'.view name t').winner = some w) ∧
    ∀ (voter : String) (vote : DecisionVoteRecord) (later : Nat), d.votes[voter]? = none → vote.veto = false →
      t ≤ later →
      (((d.voted voter vote).view name later).status = .resolved ∧
        ((d.voted voter vote).view name later).winner = some w ↔ d.Withstands w vote) := by
  have reports (d' : DecisionRecord) (later : Nat) :
      (d'.view name later).status = .resolved ∧ (d'.view name later).winner = some w ↔
        d'.resolve later = (.resolved, some w) := by
    rw [Prod.ext_iff]
    rfl
  have resolved := (reports d t).mp ⟨status, winner⟩
  constructor
  case left =>
    intro s' t' r
    have ⟨d', mem', resolved'⟩ := r.decision_resolved mem resolved
    exact ⟨d', mem', (reports d' t').mpr resolved'⟩
  case right =>
    intro voter vote later new unvetoed le
    rw [reports]
    exact DecisionRecord.resolve_voted_iff resolved new unvetoed le

section Overtaken

deriving instance DecidableEq for DecisionPolicy

-- The decision under this policy after these votes, one each millisecond.
def decided (policy : DecisionPolicy) (votes : List (String × String × Nat)) : Store :=
  letI := External.fixed
  let proposed := (Store.empty.applyAt .sorted (.decisionPropose "d" "q" ["a", "b"] policy none) 0).1
  votes.zipIdx.foldl (fun s ((voter, option, weight), now) =>
    (s.applyAt .sorted (.decisionVote "d" voter (some option) 0 weight false []) now).1) proposed

def outcomeAt (s : Store) (now : Nat) : Option (DecisionStatus × Option String) :=
  s.decisions["d"]?.map (·.resolve now)

-- A heavier option, a lesser one that reaches the threshold as well, and one that breaks unanimity.
omit [External] in
theorem resolved_decisions_change :
    outcomeAt (decided (.plurality 1) [("v", "a", 1)]) 0 = some (.resolved, some "a") ∧
    outcomeAt (decided (.plurality 1) [("v", "a", 1), ("v'", "b", 2)]) 1 = some (.resolved, some "b") ∧
    outcomeAt (decided (.threshold 1) [("v", "b", 1)]) 0 = some (.resolved, some "b") ∧
    outcomeAt (decided (.threshold 1) [("v", "b", 1), ("v'", "a", 1)]) 1 = some (.resolved, some "a") ∧
    outcomeAt (decided (.unanimous 1) [("v", "a", 1)]) 0 = some (.resolved, some "a") ∧
    outcomeAt (decided (.unanimous 1) [("v", "a", 1), ("v'", "b", 1)]) 1 = some (.open, none) := by
  decide +kernel

omit [External] in
theorem plurality_kept :
    ∃ d, (decided (.plurality 1) [("v", "a", 3), ("v'", "b", 2)]).decisions["d"]? = some d ∧
      (d.view "d" 7).status = .resolved ∧ (d.view "d" 7).winner = some "a" := by
  let := External.fixed
  let s := decided (.plurality 1) [("v", "a", 3)]
  have resolved : outcomeAt s 0 = some (.resolved, some "a") := by decide +kernel
  have ⟨d, mem, outcome⟩ := Option.map_eq_some_iff.mp resolved
  have votes : ∀ d ∈ s.decisions["d"]?, d.votes["v'"]?.isNone ∧ d.policy = .plurality 1 ∧
      d.weightOf "b" = 0 ∧ d.weightOf "a" = 3 := by
    decide +kernel
  have ⟨new, policy, light, heavy⟩ := votes d mem
  have r : Advances (Unopposed "d" "a") s 0 _ 7 :=
    .wait (by decide) (.apply .sorted (.decisionVote "d" "v'" (some "b") 0 2 false []) 1 (fun _ _ _ _ _ _ h d' mem' _ => by
      cases h
      cases mem.symm.trans mem'
      refine ⟨Option.isNone_iff_eq_none.mp new, rfl, fun option choice _ => ?_⟩
      cases choice
      simp only [policy, light, DecisionRecord.tally, heavy]
      decide) (by decide) .refl)
  exact (decision_final_iff mem (congrArg Prod.fst outcome) (congrArg Prod.snd outcome)).1 _ 7 r

end Overtaken

end Store
