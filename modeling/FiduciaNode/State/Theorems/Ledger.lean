import FiduciaNode.State.Restore

namespace CancellationEntry

def countFor (tenant : String) (entry : CancellationEntry) : Nat :=
  if entry.tenant = tenant then 1 else 0

end CancellationEntry

namespace CancellationLedger

open CancellationEntry

variable {l l' : CancellationLedger} {identity tenant : String} {deadline now : Nat} {entry : CancellationEntry}

-- The number of entries of a tenant.
def heldBy (l : CancellationLedger) (tenant : String) : Nat :=
  HashMap.total (countFor tenant) l.entries

-- The deadline of an identity, by the index and by the entries.
def Listed (l : CancellationLedger) (deadline : Nat) (identity : String) : Prop :=
  identity ∈ l.expirations.getD deadline ∅

def Expires (l : CancellationLedger) (deadline : Nat) (identity : String) : Prop :=
  ∃ entry, l.entries[identity]? = some entry ∧ entry.expiresAtMs = deadline

def Indexed (l : CancellationLedger) : Prop :=
  ∀ deadline identity, l.Listed deadline identity ↔ l.Expires deadline identity

-- A tenant without entries has no count.
def countOf : Nat → Option Nat
  | 0 => none
  | n + 1 => some (n + 1)

def Counted (l : CancellationLedger) : Prop :=
  ∀ tenant : String, l.tenantCounts[tenant]? = countOf (l.heldBy tenant)

-- The entries, the expiry index and the counts describe the same set.
structure Consistent (l : CancellationLedger) : Prop where
  indexed : l.Indexed
  counted : l.Counted

theorem getD_countOf (n : Nat) : (countOf n).getD 0 = n := by
  cases n <;> rfl

theorem countOf_pos {n : Nat} (h : 0 < n) : countOf n = some n := by
  cases n
  case zero => contradiction
  case succ => rfl

theorem empty_consistent : Consistent .empty where
  indexed := by simp [Indexed, Listed, Expires, empty]
  counted := fun tenant => by
    have zero : empty.heldBy tenant = 0 := rfl
    rw [zero]
    simp [empty, countOf]

theorem Counted.getD (h : l.Counted) : l.tenantCounts.getD tenant 0 = l.heldBy tenant := by
  rw [Std.ExtTreeMap.getD_eq_getD_getElem?, h tenant, getD_countOf]

section Remember

variable {limits : CancellationLimits}

-- The ledger has no room for one more entry of the tenant.
def Full (l : CancellationLedger) (tenant : String) (limits : CancellationLimits) : Prop :=
  limits.total ≤ l.entries.size ∨ limits.perTenant ≤ l.heldBy tenant ∨
  limits.total - limits.globalReserve ≤ l.entries.size ∧ limits.fairSharePerTenant ≤ l.heldBy tenant

def recorded (l : CancellationLedger) (identity tenant : String) (now : Nat) : CancellationLedger :=
  let expiresAtMs := U64.saturatingAdd now cancellationTombstoneTtlMs
  {
    entries := l.entries.insert identity { expiresAtMs, tenant }
    expirations := l.expirations.insert expiresAtMs ((l.expirations.getD expiresAtMs ∅).insert identity)
    tenantCounts := l.tenantCounts.insert tenant (l.tenantCounts.getD tenant 0 + 1)
  }

theorem rememberWithLimits_of_contains (h : l.contains identity) :
    l.rememberWithLimits identity tenant now limits = (l, .remembered) :=
  if_pos h

open Classical in
theorem rememberWithLimits_of_new (counted : l.Counted) (new : l.contains identity = false) :
    l.rememberWithLimits identity tenant now limits =
      if l.Full tenant limits then (l, .capacityExceeded) else (l.recorded identity tenant now, .remembered) := by
  have new : ¬l.entries.contains identity := Bool.eq_false_iff.mp new
  rw [rememberWithLimits, if_neg new]
  simp only [counted.getD, recorded, Full, Bool.or_eq_true, Bool.and_eq_true, decide_eq_true_eq, or_assoc, ge_iff_le]

theorem heldBy_recorded (new : l.entries[identity]? = none) (tenant' : String) :
    (l.recorded identity tenant now).heldBy tenant' = l.heldBy tenant' + if tenant = tenant' then 1 else 0 := by
  have erased := HashMap.total_erase (f := countFor tenant') l.entries identity
  rw [new, Option.elim_none] at erased
  simp only [heldBy, recorded, HashMap.total_insert, countFor] at erased ⊢
  omega

theorem size_recorded (new : l.entries[identity]? = none) :
    (l.recorded identity tenant now).entries.size = l.entries.size + 1 := by
  simp only [recorded, Std.ExtTreeMap.size_insert]
  exact if_neg (Bool.eq_false_iff.mp (HashMap.contains_eq_false_iff.mpr new))

theorem Consistent.recorded (h : l.Consistent) (new : l.entries[identity]? = none) :
    (l.recorded identity tenant now).Consistent where
  indexed := by
    intro deadline i
    have before := h.indexed deadline i
    simp only [Listed, Expires, CancellationLedger.recorded, HashMap.get_insert, Std.ExtTreeMap.getD_insert,
      compare_eq_iff_eq] at before ⊢
    by_cases same : identity = i
    case pos =>
      subst same
      have unlisted : identity ∉ l.expirations.getD deadline ∅ := fun listed => by
        have ⟨_, stored, _⟩ := before.mp listed
        simp [new] at stored
      split
      case isTrue due => simp [due]
      case isFalse due => simp [due, unlisted]
    case neg =>
      rw [if_neg same]
      split
      case isTrue due =>
        rw [due, Std.ExtTreeSet.mem_insert, compare_eq_iff_eq, or_iff_right same]
        exact before
      case isFalse => exact before
  counted := by
    intro tenant'
    rw [heldBy_recorded new]
    simp only [CancellationLedger.recorded, HashMap.get_insert, h.counted.getD]
    split
    case isTrue same => rw [same, countOf]
    case isFalse => exact h.counted tenant'

end Remember

section Expire

theorem heldBy_erase (stored : l.entries[identity]? = some entry) (tenant : String) :
    l.heldBy tenant = HashMap.total (countFor tenant) (l.entries.erase identity) + entry.countFor tenant := by
  have erased := HashMap.total_erase (f := countFor tenant) l.entries identity
  rw [stored, Option.elim_some] at erased
  exact erased.symm

-- The counts after one entry of the tenant is dropped.
def dropFrom (counts : HashMap String Nat) (tenant : String) (count : Nat) : HashMap String Nat :=
  if count - 1 = 0 then counts.erase tenant else counts.insert tenant (count - 1)

theorem get_dropFrom {counts : HashMap String Nat} {tenant' : String} {count : Nat} :
    (dropFrom counts tenant count)[tenant']? =
      if tenant = tenant' then countOf (count - 1) else counts[tenant']? := by
  unfold dropFrom
  by_cases last : count - 1 = 0
  case pos => rw [if_pos last, last, HashMap.get_erase, countOf]
  case neg => rw [if_neg last, countOf_pos (Nat.pos_of_ne_zero last), HashMap.get_insert]

theorem expireIdentity_of_expires (h : l.Counted) (due : l.Expires deadline identity) :
    (l.expireIdentity deadline identity).entries = l.entries.erase identity ∧
    (l.expireIdentity deadline identity).expirations = l.expirations ∧
    (l.expireIdentity deadline identity).Counted := by
  have ⟨entry, stored, same⟩ := due
  have one : entry.countFor entry.tenant = 1 := if_pos rfl
  have held := heldBy_erase stored
  have counts : l.tenantCounts[entry.tenant]? = some (l.heldBy entry.tenant) := by
    have := held entry.tenant
    rw [h, countOf_pos (by omega)]
  have expired : l.expireIdentity deadline identity = { l with
      entries := l.entries.erase identity
      tenantCounts := dropFrom l.tenantCounts entry.tenant (l.heldBy entry.tenant)
    } := by
    simp only [expireIdentity, stored, if_neg (not_not.mpr same), counts, dropFrom]
  refine ⟨by rw [expired], by rw [expired], fun tenant => ?_⟩
  have held := held tenant
  rw [expired, get_dropFrom]
  simp only [heldBy] at held ⊢
  split
  case isTrue own =>
    subst own
    rw [held, one, Nat.add_sub_cancel]
  case isFalse other =>
    rw [show entry.countFor tenant = 0 from if_neg other, Nat.add_zero] at held
    rw [← held]
    exact h tenant

theorem expireIdentities {identities : List String} (h : l.Counted) (nodup : identities.Nodup)
    (due : ∀ identity ∈ identities, l.Expires deadline identity) :
    let l' := identities.foldl (fun l identity => l.expireIdentity deadline identity) l
    (∀ i : String, l'.entries[i]? = if i ∈ identities then none else l.entries[i]?) ∧
    l'.expirations = l.expirations ∧ l'.Counted := by
  induction identities generalizing l
  case nil => simpa using h
  case cons identity identities ih =>
    have ⟨entries, expirations, counted⟩ := expireIdentity_of_expires h (due identity List.mem_cons_self)
    have ⟨unlisted, nodup⟩ := List.nodup_cons.mp nodup
    have still : ∀ i ∈ identities, (l.expireIdentity deadline identity).Expires deadline i := by
      intro i mem
      rw [Expires, entries, HashMap.get_erase, if_neg fun same : identity = i => unlisted (same ▸ mem)]
      exact due i (List.mem_cons_of_mem _ mem)
    have ⟨entries', expirations', counted'⟩ := ih counted nodup still
    refine ⟨fun i => ?_, expirations'.trans expirations, counted'⟩
    rw [List.foldl_cons, entries', entries, HashMap.get_erase]
    grind

theorem Consistent.expireBucket {identities : BTreeSet String} (h : l.Consistent)
    (bucket : l.expirations[deadline]? = some identities) :
    (l.expireBucket deadline identities).Consistent ∧
    (l.expireBucket deadline identities).expirations = l.expirations.erase deadline ∧
    ∀ i : String, (l.expireBucket deadline identities).entries[i]? =
      l.entries[i]?.filter (fun entry => decide (entry.expiresAtMs ≠ deadline)) := by
  have listed (i : String) : i ∈ identities.toList ↔ l.Expires deadline i := by
    rw [← h.indexed, Listed, Std.ExtTreeMap.getD_eq_getD_getElem?, bucket, Option.getD_some, Std.ExtTreeSet.mem_toList]
  have nodup : identities.toList.Nodup := Std.ExtTreeSet.distinct_toList.imp (mt compare_eq_iff_eq.mpr)
  have ⟨entries, expirations, counted⟩ :=
    expireIdentities (l := { l with expirations := l.expirations.erase deadline }) h.counted nodup
      fun i mem => (listed i).mp mem
  have entries (i : String) : (l.expireBucket deadline identities).entries[i]? =
      l.entries[i]?.filter (fun entry => decide (entry.expiresAtMs ≠ deadline)) := by
    rw [CancellationLedger.expireBucket, entries]
    simp only [listed, Expires]
    cases l.entries[i]? <;> simp [Option.filter]
  refine ⟨⟨fun deadline' i => ?_, counted⟩, expirations, entries⟩
  have before := h.indexed deadline' i
  simp only [Listed, Expires, entries, Option.filter_eq_some_iff, decide_eq_true_eq] at before ⊢
  rw [CancellationLedger.expireBucket, expirations, Std.ExtTreeMap.getD_erase]
  split
  case isTrue same => simp [← compare_eq_iff_eq.mp same]
  case isFalse other =>
    have other := mt compare_eq_iff_eq.mpr other
    rw [before]
    grind

theorem Consistent.expireBuckets {buckets : List (Nat × BTreeSet String)} (h : l.Consistent)
    (nodup : (buckets.map Prod.fst).Nodup) (listed : ∀ b ∈ buckets, l.expirations[b.1]? = some b.2) :
    let l' := buckets.foldl (fun l (deadline, identities) => l.expireBucket deadline identities) l
    l'.Consistent ∧ ∀ i : String, l'.entries[i]? =
      l.entries[i]?.filter (fun entry => decide (entry.expiresAtMs ∉ buckets.map Prod.fst)) := by
  induction buckets generalizing l
  case nil =>
    refine ⟨h, fun i => ?_⟩
    rw [List.foldl_nil]
    cases l.entries[i]? <;> rfl
  case cons b buckets ih =>
    have ⟨consistent, expirations, entries⟩ := h.expireBucket (listed b List.mem_cons_self)
    have ⟨distinct, nodup⟩ := List.nodup_cons.mp nodup
    have still : ∀ b' ∈ buckets, (l.expireBucket b.1 b.2).expirations[b'.1]? = some b'.2 := by
      intro b' mem
      rw [expirations, HashMap.get_erase, if_neg fun same : b.1 = b'.1 => distinct (same ▸ List.mem_map_of_mem mem)]
      exact listed b' (List.mem_cons_of_mem _ mem)
    have ⟨consistent', entries'⟩ := ih consistent nodup still
    refine ⟨consistent', fun i => ?_⟩
    rw [List.foldl_cons, entries', entries, Option.filter_filter]
    have both (entry : CancellationEntry) :
        (decide (entry.expiresAtMs ≠ b.1) && decide (entry.expiresAtMs ∉ buckets.map Prod.fst)) =
          decide (entry.expiresAtMs ∉ (b :: buckets).map Prod.fst) := by
      rw [← Bool.decide_and, decide_eq_decide, List.map_cons, List.mem_cons, not_or]
    simp only [both]

theorem Consistent.expire (h : l.Consistent) :
    (l.expire now).Consistent ∧ ∀ i : String, (l.expire now).entries[i]? =
      l.entries[i]?.filter (fun entry => decide (now < entry.expiresAtMs)) := by
  have nodup : ((l.expirations.toList.filter (·.1 ≤ now)).map Prod.fst).Nodup :=
    (HashMap.keys_toList_nodup l.expirations).sublist (List.filter_sublist.map _)
  have ⟨consistent, entries⟩ := h.expireBuckets nodup fun b mem => HashMap.mem_toList.mp (List.mem_filter.mp mem).1
  refine ⟨consistent, fun i => ?_⟩
  rw [CancellationLedger.expire, entries]
  cases stored : l.entries[i]?
  case none => rfl
  case some entry =>
    have listed : l.Listed entry.expiresAtMs i := (h.indexed _ _).mpr ⟨entry, stored, rfl⟩
    have ⟨bucket, mem⟩ : ∃ bucket, l.expirations[entry.expiresAtMs]? = some bucket := by
      rw [Listed, Std.ExtTreeMap.getD_eq_getD_getElem?] at listed
      cases eq : l.expirations[entry.expiresAtMs]?
      case none => simp [eq] at listed
      case some bucket => exact ⟨bucket, rfl⟩
    have due : entry.expiresAtMs ∈ (l.expirations.toList.filter (·.1 ≤ now)).map Prod.fst ↔ entry.expiresAtMs ≤ now := by
      simp only [List.mem_map, List.mem_filter, decide_eq_true_eq]
      constructor
      case mp => exact fun ⟨b, ⟨_, le⟩, same⟩ => same ▸ le
      case mpr => exact fun le => ⟨(_, bucket), ⟨HashMap.mem_toList.mpr mem, le⟩, rfl⟩
    simp only [Option.filter, due, not_le]

end Expire

section Validate

variable {entries : List (String × CancellationEntry)} {counts : HashMap String Nat} {label : String} {o : IterOrder}

def tenantTally (entries : List (String × CancellationEntry)) (tenant : String) : Nat :=
  (entries.map (countFor tenant ·.2)).sum

theorem validateEntries_ok (listed : ∀ e ∈ entries, l.Listed e.2.expiresAtMs e.1) :
    ∃ counts', l.validateEntries label counts entries = .ok counts' ∧ ∀ tenant : String,
      counts'[tenant]? = if tenantTally entries tenant = 0 then counts[tenant]?
        else some (counts[tenant]?.getD 0 + tenantTally entries tenant) := by
  induction entries generalizing counts
  case nil => exact ⟨counts, rfl, fun _ => rfl⟩
  case cons e entries ih =>
    have indexed : l.expirations[e.2.expiresAtMs]?.any (·.contains e.1) := by
      have := listed e List.mem_cons_self
      rw [Listed, Std.ExtTreeMap.getD_eq_getD_getElem?] at this
      cases eq : l.expirations[e.2.expiresAtMs]?
      case none => simp [eq] at this
      case some bucket => simpa [eq] using this
    have ⟨counts', ok, get⟩ := @ih (counts.insert e.2.tenant (counts[e.2.tenant]?.getD 0 + 1))
      fun e' mem => listed e' (List.mem_cons_of_mem _ mem)
    refine ⟨counts', by rw [validateEntries, if_pos indexed, ok], fun tenant => ?_⟩
    rw [get, HashMap.get_insert]
    simp only [tenantTally, List.map_cons, List.sum_cons, countFor]
    by_cases own : e.2.tenant = tenant
    case pos =>
      subst own
      simp only [if_true]
      split
      case isTrue none => simp [none]
      case isFalse => simp [Nat.add_assoc]
    case neg => simp [own]

theorem Consistent.validate (h : l.Consistent) : l.validate o label = .ok () := by
  have listed : ∀ e ∈ l.entries.iter o, l.Listed e.2.expiresAtMs e.1 :=
    fun e mem => (h.indexed _ _).mpr ⟨e.2, HashMap.mem_iter.mp mem, rfl⟩
  have ⟨counts, (ok : l.validateEntries label ∅ _ = _), get⟩ := validateEntries_ok listed
  have tally (tenant : String) : tenantTally (l.entries.iter o) tenant = l.heldBy tenant := by
    rw [heldBy, ← HashMap.sum_values l.entries o, tenantTally, HashMap.values, List.map_map]
    rfl
  have same : counts = l.tenantCounts := by
    refine HashMap.ext_get fun tenant => ?_
    rw [get, tally, h.counted tenant]
    cases l.heldBy tenant <;> simp [countOf]
  subst same
  rw [CancellationLedger.validate, ok]
  refine Except.seq_eq_ok_iff.mpr ⟨?_, if_neg (not_not.mpr rfl)⟩
  rw [Except.forM_eq_ok_iff]
  rintro ⟨tenant, count⟩ mem
  have stored := HashMap.mem_iter.mp mem
  exact if_neg (by simp [stored])

end Validate

section Calls

variable {limits : CancellationLimits} {total perTenant : Nat}

-- The caps on the entries hold.
structure Bounded (total perTenant : Nat) (l : CancellationLedger) : Prop where
  size : l.entries.size ≤ total
  held : ∀ tenant, l.heldBy tenant ≤ perTenant

theorem refused_iff (h : l.Consistent) (new : l.contains identity = false) :
    (l.rememberWithLimits identity tenant now limits).2 = .capacityExceeded ↔ l.Full tenant limits := by
  rw [rememberWithLimits_of_new h.counted new]
  split
  case isTrue full => simpa using full
  case isFalse room => simpa using room

theorem Consistent.remember (h : l.Consistent) : (l.rememberWithLimits identity tenant now limits).1.Consistent := by
  cases new : l.contains identity
  case true => exact rememberWithLimits_of_contains new ▸ h
  case false =>
    rw [rememberWithLimits_of_new h.counted new]
    split
    case isTrue => exact h
    case isFalse => exact h.recorded (HashMap.contains_eq_false_iff.mp new)

theorem Bounded.remember (b : l.Bounded total perTenant) (h : l.Consistent) (le : limits.total ≤ total)
    (le' : limits.perTenant ≤ perTenant) :
    (l.rememberWithLimits identity tenant now limits).1.Bounded total perTenant := by
  cases new : l.contains identity
  case true => exact rememberWithLimits_of_contains new ▸ b
  case false =>
    have absent := HashMap.contains_eq_false_iff.mp new
    rw [rememberWithLimits_of_new h.counted new]
    split
    case isTrue => exact b
    case isFalse room =>
      have few : ¬limits.total ≤ l.entries.size := fun full => room (.inl full)
      have own : ¬limits.perTenant ≤ l.heldBy tenant := fun full => room (.inr (.inl full))
      refine ⟨?_, fun tenant' => ?_⟩
      · rw [size_recorded absent]
        omega
      · rw [heldBy_recorded absent]
        have := b.held tenant'
        split
        case isTrue same =>
          subst same
          omega
        case isFalse => exact this

theorem Consistent.entries_expire (h : l.Consistent) :
    (l.expire now).entries = l.entries.filter fun _ entry => decide (now < entry.expiresAtMs) := by
  refine HashMap.ext_get fun i => ?_
  rw [h.expire.2, HashMap.get_filter]

theorem Bounded.expire (b : l.Bounded total perTenant) (h : l.Consistent) :
    (l.expire now).Bounded total perTenant where
  size := by
    rw [h.entries_expire]
    exact Std.ExtTreeMap.size_filter_le_size.trans b.size
  held := by
    intro tenant
    refine le_trans ?_ (b.held tenant)
    rw [heldBy, heldBy, h.entries_expire, HashMap.total, HashMap.total, Std.ExtTreeMap.toList_filter]
    exact (List.filter_sublist.map _).sum_le_sum (fun _ _ => Nat.zero_le _)

-- A call to the ledger.
inductive Call
  | remember (identity tenant : String) (now : Nat) (limits : CancellationLimits)
  | expire (now : Nat)

namespace Call

def run (l : CancellationLedger) : Call → CancellationLedger
  | remember identity tenant now limits => (l.rememberWithLimits identity tenant now limits).1
  | expire now => l.expire now

-- The call allows for no more entries than this.
def Within (total perTenant : Nat) : Call → Prop
  | remember _ _ _ limits => limits.total ≤ total ∧ limits.perTenant ≤ perTenant
  | expire _ => True

theorem run_consistent (h : l.Consistent) (c : Call) : (run l c).Consistent := by
  cases c
  case remember => exact h.remember
  case expire => exact h.expire.1

theorem run_bounded (b : l.Bounded total perTenant) (h : l.Consistent) {c : Call} (w : c.Within total perTenant) :
    (run l c).Bounded total perTenant := by
  cases c
  case remember => exact b.remember h w.1 w.2
  case expire => exact b.expire h

end Call

-- The ledger after some calls, the latest one last.
def after (calls : List Call) : CancellationLedger :=
  calls.foldl Call.run .empty

theorem after_consistent (calls : List Call) : (after calls).Consistent := by
  induction calls using List.reverseRecOn
  case nil => exact empty_consistent
  case append_singleton calls c ih =>
    rw [after, List.foldl_append]
    exact c.run_consistent ih

theorem after_bounded {calls : List Call} (h : ∀ c ∈ calls, c.Within total perTenant) :
    (after calls).Bounded total perTenant := by
  induction calls using List.reverseRecOn
  case nil => exact ⟨Nat.zero_le _, fun _ => Nat.zero_le _⟩
  case append_singleton calls c ih =>
    rw [after, List.foldl_append]
    have earlier := ih fun c mem => h c (List.mem_append_left _ mem)
    exact Call.run_bounded earlier (after_consistent calls) (h c (by simp))

theorem ledger_sound (calls : List Call) :
    (after calls).Consistent ∧
    (∀ o label, (after calls).validate o label = .ok ()) ∧
    (∀ total perTenant, (∀ c ∈ calls, c.Within total perTenant) →
      (after calls).entries.size ≤ total ∧ ∀ tenant, (after calls).heldBy tenant ≤ perTenant) ∧
    (∀ identity tenant now limits, (after calls).contains identity = false →
      (((after calls).rememberWithLimits identity tenant now limits).2 = .capacityExceeded ↔
        (after calls).Full tenant limits)) ∧
    ∀ (now : Nat) (i : String), ((after calls).expire now).entries[i]? =
      (after calls).entries[i]?.filter fun entry => decide (now < entry.expiresAtMs) := by
  have h := after_consistent calls
  refine ⟨h, fun _ _ => h.validate, fun total perTenant within => ?_, fun _ _ _ _ => refused_iff h,
    fun _ => h.expire.2⟩
  have b := after_bounded within
  exact ⟨b.size, b.held⟩

end Calls

end CancellationLedger
