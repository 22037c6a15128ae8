import FiduciaNode.State.Theorems.ScheduleRuns

namespace Applied

def Records (e : Applied) (name fireId : String) : Prop :=
  (∃ firedAtMs, e.command = .scheduleRecordRun name fireId firedAtMs) ∧ e.output.flag "recorded" = some true

-- The run that the command added to the history of a schedule.
def added (name : String) (e : Applied) : Option String :=
  match e.command with
  | .scheduleClaimFire name' fire =>
    if name' = name ∧ e.output.flag "claimed" = some true then some fire.repr else none
  | .scheduleTrigger name' fire _ =>
    if name' = name ∧ e.output.flag "triggered" = some true then some fire.repr else none
  | .scheduleRecordRun name' fireId _ =>
    if name' = name ∧ e.output.flag "recorded" = some true then some fireId else none
  | _ => none

theorem Triggers.added {e : Applied} {name : String} {fire : Nat} (h : e.Triggers name fire) :
    e.added name = some fire.repr := by
  have ⟨⟨_, command⟩, triggered⟩ := h
  simp [Applied.added, command, triggered]

theorem Records.added {e : Applied} {name fireId : String} (h : e.Records name fireId) :
    e.added name = some fireId := by
  have ⟨⟨_, command⟩, recorded⟩ := h
  simp [Applied.added, command, recorded]

section Added

variable {name name' fireId : String} {fire t now : Nat} {v : Value}

theorem added_claim (h : v.flag "claimed" = some b) :
    added name ⟨.scheduleClaimFire name' fire, now, v⟩ = if name' = name ∧ b then some fire.repr else none := by
  simp [added, h]

theorem added_trigger (h : v.flag "triggered" = some b) :
    added name ⟨.scheduleTrigger name' fire t, now, v⟩ = if name' = name ∧ b then some fire.repr else none := by
  simp [added, h]

theorem added_recordRun (h : v.flag "recorded" = some b) :
    added name ⟨.scheduleRecordRun name' fireId t, now, v⟩ = if name' = name ∧ b then some fireId else none := by
  simp [added, h]

end Added

end Applied

namespace Schedules

variable {schedules : Schedules} {name name' : String} {now fireIdMs : Nat} {c : Command}

-- The fires in the history of a schedule, the latest at the end.
def fireIds (schedules : Schedules) (name : String) : List String :=
  (schedules[name]?.map fun record => record.history.map ScheduleRun.fireId).getD []

def trim (fireIds : List String) : List String :=
  fireIds.drop (fireIds.length - ScheduleRecord.maxScheduleHistory)

-- The fires after a command that may have added a run.
def extend (fireIds : List String) : Option String → List String
  | none => fireIds
  | some fireId => trim (fireIds ++ [fireId])

theorem fireIds_insert {record : ScheduleRecord} :
    fireIds (schedules.insert name' record) name =
      if name' = name then record.history.map ScheduleRun.fireId else schedules.fireIds name := by
  simp only [fireIds, HashMap.get_insert]
  split <;> rfl

theorem fireIds_push {record : ScheduleRecord} {run : ScheduleRun} :
    (record.push run).history.map ScheduleRun.fireId =
      trim (record.history.map ScheduleRun.fireId ++ [run.fireId]) := by
  simp [ScheduleRecord.push, ScheduleRecord.trimHistory, trim, List.map_drop]

theorem applyScheduleUpsert_fireIds (cron : Option String) (oneShotAtMs : Option Nat) (target : ScheduleTarget)
    (delivery : DeliverySemantics) (maxRetries nowMs : Nat) :
    (schedules.applyScheduleUpsert name' cron oneShotAtMs target delivery maxRetries nowMs).1.fireIds name =
      schedules.fireIds name := by
  simp only [applyScheduleUpsert, fireIds_insert]
  split
  case isFalse => rfl
  case isTrue same =>
    subst same
    cases h : schedules[name']? <;> simp [fireIds, h]

theorem applyScheduleSetEnabled_fireIds (enabled : Bool) (nowMs : Nat) (catchUp : Bool) :
    (schedules.applyScheduleSetEnabled name' enabled nowMs catchUp).1.fireIds name = schedules.fireIds name := by
  simp only [applyScheduleSetEnabled]
  split
  case h_1 => rfl
  case h_2 record stored =>
    rw [fireIds_insert]
    split
    case isFalse => rfl
    case isTrue same => simp [fireIds, ← same, stored]

theorem applyScheduleDelete_fireIds (other : name' ≠ name) :
    (schedules.applyScheduleDelete name').1.fireIds name = schedules.fireIds name := by
  simp [applyScheduleDelete, fireIds, HashMap.get_erase, other]

theorem applyScheduleRecordResult_fireIds (result : RunResult) :
    (schedules.applyScheduleRecordResult name' fireIdMs result).1.fireIds name = schedules.fireIds name := by
  simp only [applyScheduleRecordResult]
  split
  case h_1 => rfl
  case h_2 record stored =>
    split
    case h_1 => rfl
    case h_2 newer run older span =>
      split
      case isTrue => rfl
      case isFalse =>
        obtain ⟨history, _⟩ := span_latest span
        rw [fireIds_insert]
        split
        case isFalse => rfl
        case isTrue same => simp [fireIds, ← same, stored, history, RunResult.record]

theorem fireIds_stored {record : ScheduleRecord} (stored : schedules[name]? = some record) :
    schedules.fireIds name = record.history.map ScheduleRun.fireId := by
  simp [fireIds, stored]

-- A command that adds a run to its schedule, and says so.
theorem extend_push {record record' : ScheduleRecord} {run : ScheduleRun} {e : Applied}
    (stored : schedules[name']? = some record) (history : record'.history = (record.push run).history)
    (added : e.added name = if name' = name then some run.fireId else none) :
    fireIds (schedules.insert name' record') name = extend (schedules.fireIds name) (e.added name) := by
  rw [fireIds_insert, added]
  split
  case isFalse => rfl
  case isTrue same =>
    rw [history, fireIds_push, ← same, fireIds_stored stored]
    rfl

theorem extend_none {e : Applied} {b : Bool} {p : Prop} [Decidable p] {fireId : String}
    (added : e.added name = if p ∧ b then some fireId else none) (refused : b = false) :
    schedules.fireIds name = extend (schedules.fireIds name) (e.added name) := by
  rw [added, if_neg (by simp [refused])]
  rfl

theorem applyScheduleRecordRun_fireIds (fireId : String) (firedAtMs : Nat) :
    (schedules.applyScheduleRecordRun name' fireId firedAtMs).1.fireIds name =
      extend (schedules.fireIds name) (Applied.added name ⟨.scheduleRecordRun name' fireId firedAtMs, now,
        (schedules.applyScheduleRecordRun name' fireId firedAtMs).2⟩) := by
  simp only [applyScheduleRecordRun]
  split
  case h_1 => exact extend_none (Applied.added_recordRun rfl) rfl
  case h_2 record stored =>
    split
    case isTrue duplicate => exact extend_none (Applied.added_recordRun rfl) (by simp [duplicate])
    case isFalse new => exact extend_push stored rfl (by rw [Applied.added_recordRun rfl]; simp [new]; rfl)

theorem applyScheduleClaimFire_fireIds :
    (schedules.applyScheduleClaimFire name' fireIdMs).1.fireIds name =
      extend (schedules.fireIds name) (Applied.added name ⟨.scheduleClaimFire name' fireIdMs, now,
        (schedules.applyScheduleClaimFire name' fireIdMs).2⟩) := by
  simp only [applyScheduleClaimFire]
  split
  case h_1 => exact extend_none (Applied.added_claim rfl) rfl
  case h_2 record stored =>
    split
    case isTrue => exact extend_none (Applied.added_claim rfl) rfl
    case isFalse =>
      split
      case isTrue => exact extend_none (Applied.added_claim rfl) rfl
      case isFalse => exact extend_push stored rfl (by rw [Applied.added_claim rfl]; simp; rfl)

theorem applyScheduleTrigger_fireIds (requestedAtMs : Nat) :
    (schedules.applyScheduleTrigger name' fireIdMs requestedAtMs).1.fireIds name =
      extend (schedules.fireIds name) (Applied.added name ⟨.scheduleTrigger name' fireIdMs requestedAtMs, now,
        (schedules.applyScheduleTrigger name' fireIdMs requestedAtMs).2⟩) := by
  simp only [applyScheduleTrigger]
  split
  case h_1 => exact extend_none (Applied.added_trigger rfl) rfl
  case h_2 record stored =>
    split
    case isTrue => exact extend_none (Applied.added_trigger rfl) rfl
    case isFalse => exact extend_push stored rfl (by rw [Applied.added_trigger rfl]; simp; rfl)

-- A fire that is triggered is not in the history yet, and neither is a run that is recorded exactly once.
theorem notMem_of_triggered {requestedAtMs : Nat}
    (h : (schedules.applyScheduleTrigger name fireIdMs requestedAtMs).2.flag "triggered" = some true) :
    fireIdMs.repr ∉ schedules.fireIds name := by
  simp only [applyScheduleTrigger] at h
  split at h
  case h_1 => cases h
  case h_2 record stored =>
    split at h
    case isTrue => cases h
    case isFalse new =>
      rw [fireIds_stored stored]
      simpa using new

theorem notMem_of_recorded {fireId : String} {firedAtMs : Nat}
    (once : ∀ record ∈ schedules[name]?, record.definition.delivery = .exactlyOnce)
    (h : (schedules.applyScheduleRecordRun name fireId firedAtMs).2.flag "recorded" = some true) :
    fireId ∉ schedules.fireIds name := by
  simp only [applyScheduleRecordRun] at h
  split at h
  case h_1 => cases h
  case h_2 record stored =>
    split at h
    case isTrue duplicate =>
      have recorded : some (!(_ && _)) = some true := h
      simp [duplicate] at recorded
    case isFalse new =>
      rw [fireIds_stored stored]
      simpa [once record stored] using new

end Schedules

namespace Store

open Schedules

variable [External] {s start : Store} {o : IterOrder} {c : Command} {revision now : Nat} {name : String}

theorem applyCommand_fireIds (kept : c ≠ .scheduleDelete name) :
    (s.applyCommand o revision now c).1.schedules.fireIds name =
      extend (s.schedules.fireIds name) (Applied.added name ⟨c, now, (s.applyCommand o revision now c).2⟩) := by
  by_cases h : c.part = .schedules
  case neg =>
    have same : (s.applyCommand o revision now c).1.schedules = s.schedules :=
      applyCommand_touches.frame .schedules (Ne.symm h)
    have added (v : Value) : Applied.added name ⟨c, now, v⟩ = none := by
      cases c <;> first | rfl | contradiction
    rw [added, same]
    rfl
  case pos =>
    cases c <;> try contradiction
    case scheduleUpsert => exact applyScheduleUpsert_fireIds _ _ _ _ _ _
    case scheduleRecordRun => exact applyScheduleRecordRun_fireIds _ _
    case scheduleClaimFire => exact applyScheduleClaimFire_fireIds
    case scheduleRecordResult => exact applyScheduleRecordResult_fireIds _
    case scheduleSetEnabled => exact applyScheduleSetEnabled_fireIds _ _ _
    case scheduleDelete => exact applyScheduleDelete_fireIds fun same => kept (same ▸ rfl)
    case scheduleTrigger => exact applyScheduleTrigger_fireIds _
    case scheduleRecordResultV2 => exact applyScheduleRecordResult_fireIds _

theorem applyAt_fireIds (kept : c ≠ .scheduleDelete name) :
    (s.applyAt o c now).1.schedules.fireIds name =
      extend (s.schedules.fireIds name) (Applied.added name ⟨c, now, (s.applyAt o c now).2.output⟩) := by
  have same : (s.prepare o c now).schedules = s.schedules := prepare_frame .schedules rfl
  exact same ▸ applyCommand_fireIds kept

section Runs

-- How many runs the commands have added to the history of the schedule.
def addedRuns (name : String) (events : List Applied) : Nat :=
  events.countP fun e => (e.added name).isSome

-- The fire is in the history, and at most `n` runs came after it.
def Retained (fireIds : List String) (fireId : String) (n : Nat) : Prop :=
  ∃ older newer, fireIds = older ++ fireId :: newer ∧ newer.length ≤ n

variable {fireIds : List String} {fireId fireId' : String} {n : Nat}

omit [External] in
theorem trim_append (older newer : List String) (le : newer.length ≤ ScheduleRecord.maxScheduleHistory) :
    ∃ older', trim (older ++ newer) = older' ++ newer := by
  refine ⟨older.drop ((older ++ newer).length - ScheduleRecord.maxScheduleHistory), ?_⟩
  rw [trim, List.drop_append_of_le_length]
  simp only [List.length_append]
  omega

omit [External] in
theorem retained_new : Retained (extend fireIds (some fireId)) fireId 0 := by
  have ⟨older, eq⟩ := trim_append fireIds [fireId] (by simp [ScheduleRecord.maxScheduleHistory])
  exact ⟨older, [], eq, le_refl _⟩

omit [External] in
theorem Retained.extend {added : Option String} (h : Retained fireIds fireId n)
    (fits : n + added.toList.length < ScheduleRecord.maxScheduleHistory) :
    Retained (extend fireIds added) fireId (n + added.toList.length) := by
  obtain ⟨older, newer, rfl, le⟩ := h
  cases added
  case none => exact ⟨older, newer, rfl, le⟩
  case some fireId' =>
    simp only [Option.toList_some, List.length_singleton] at fits ⊢
    have ⟨older', eq⟩ := trim_append older (fireId :: newer ++ [fireId']) (by simp; omega)
    refine ⟨older', newer ++ [fireId'], ?_, by simp; omega⟩
    simpa [Schedules.extend] using eq

variable {events : List Applied} {p : List Applied → Store → Command → Nat → Prop} {uses : Applied → Prop}

theorem Abides.retained {later earlier : List Applied} {e : Applied} (run : Abides p start events s)
    (kept : ∀ {events s c now}, p events s c now → c ≠ .scheduleDelete name) (split : events = later ++ e :: earlier)
    (added : e.added name = some fireId) (few : addedRuns name later < ScheduleRecord.maxScheduleHistory) :
    Retained (s.schedules.fireIds name) fireId (addedRuns name later) := by
  induction run generalizing later
  case start => simp at split
  case apply s o c now h run ih =>
    rw [applyAt_fireIds (kept h)]
    cases later
    case nil =>
      cases split
      rw [added]
      exact retained_new
    case cons e' later =>
      cases split
      have count : addedRuns name (⟨c, now, (s.applyAt o c now).2.output⟩ :: later) = addedRuns name later +
          (Applied.added name ⟨c, now, (s.applyAt o c now).2.output⟩).toList.length := by
        rw [addedRuns, List.countP_cons]
        cases Applied.added name ⟨c, now, (s.applyAt o c now).2.output⟩ <;> rfl
      rw [count] at few ⊢
      exact (ih rfl (by omega)).extend few

-- Fewer runs than the history holds were added since such a command.
def Spaced (name : String) (uses : Applied → Prop) (events : List Applied) : Prop :=
  ∀ later e earlier, events = later ++ e :: earlier → uses e → addedRuns name later < ScheduleRecord.maxScheduleHistory

omit [External] in
theorem spaced_of_short (short : events.length ≤ ScheduleRecord.maxScheduleHistory) : Spaced name uses events := by
  intro later e earlier split _
  have le : addedRuns name later ≤ later.length := List.countP_le_length
  simp only [split, List.length_append, List.length_cons] at short
  omega

theorem Abides.once (run : Abides p start events s)
    (kept : ∀ {events s c now}, p events s c now → c ≠ .scheduleDelete name)
    (adds : ∀ {e}, uses e → e.added name = some fireId)
    (spaced : ∀ {events s o c now}, p events s c now → uses ⟨c, now, (s.applyAt o c now).2.output⟩ →
      fireId ∉ s.schedules.fireIds name ∧ Spaced name uses events) :
    events.Pairwise fun e' e => ¬ (uses e' ∧ uses e) := by
  induction run
  case start => exact .nil
  case apply s o c now h run ih =>
    refine List.pairwise_cons.mpr ⟨fun e mem ⟨again, used⟩ => ?_, ih⟩
    have ⟨later, earlier, split⟩ := List.append_of_mem mem
    have ⟨fresh, spaced⟩ := spaced h again
    have ⟨older, newer, eq, _⟩ := run.retained kept split (adds used) (spaced later e earlier split used)
    exact fresh (by simp [eq])

-- No command deletes the schedule, and a fire is triggered again only while its run is among the latest ones.
def SpacedTriggers (name : String) (events : List Applied) (_ : Store) (c : Command) (_ : Nat) : Prop :=
  c ≠ .scheduleDelete name ∧
  ∀ fire requestedAtMs, c = .scheduleTrigger name fire requestedAtMs → Spaced name (·.Triggers name fire) events

-- The same for runs that are recorded, of a schedule that records them exactly once.
def SpacedRecords (name : String) (events : List Applied) (s : Store) (c : Command) (_ : Nat) : Prop :=
  c ≠ .scheduleDelete name ∧
  ∀ fireId firedAtMs, c = .scheduleRecordRun name fireId firedAtMs →
    (∀ record ∈ s.schedules[name]?, record.definition.delivery = .exactlyOnce) ∧
    Spaced name (·.Records name fireId) events

-- The history of a schedule holds a limited number of runs, and a fire is told to be a duplicate while it is in there.
theorem manual_runs_once (name : String) :
    (∀ start events s, Abides (SpacedTriggers name) start events s →
      ∀ fire, events.Pairwise fun e' e => ¬ (e'.Triggers name fire ∧ e.Triggers name fire)) ∧
    (∀ start events s, Abides (SpacedRecords name) start events s →
      ∀ fireId, events.Pairwise fun e' e => ¬ (e'.Records name fireId ∧ e.Records name fireId)) := by
  constructor
  case left =>
    intro start events s run fire
    refine run.once And.left Applied.Triggers.added fun {events s o c now} h triggers => ?_
    obtain ⟨⟨requestedAtMs, rfl⟩, triggered⟩ := triggers
    have same : (s.prepare o (.scheduleTrigger name fire requestedAtMs) now).schedules = s.schedules :=
      prepare_frame .schedules rfl
    exact ⟨same ▸ notMem_of_triggered triggered, h.2 _ _ rfl⟩
  case right =>
    intro start events s run fireId
    refine run.once And.left Applied.Records.added fun {events s o c now} h records => ?_
    obtain ⟨⟨firedAtMs, rfl⟩, recorded⟩ := records
    have same : (s.prepare o (.scheduleRecordRun name fireId firedAtMs) now).schedules = s.schedules :=
      prepare_frame .schedules rfl
    have ⟨once, spaced⟩ := h.2 _ _ rfl
    exact ⟨same ▸ notMem_of_recorded (same ▸ once) recorded, spaced⟩

-- The store after some commands at time zero.
def applyAll (s : Store) (commands : List Command) : Store :=
  commands.foldl (fun s c => (s.applyAt .sorted c 0).1) s

theorem Abides.applyAll (run : Abides p start events s) (commands : List Command)
    (h : ∀ c ∈ commands, ∀ events s, p events s c 0) :
    ∃ later, Abides p start (later ++ events) (s.applyAll commands) := by
  induction commands generalizing s events
  case nil => exact ⟨[], run⟩
  case cons c commands ih =>
    simp only [List.mem_cons, forall_eq_or_imp] at h
    have ⟨later, run⟩ := ih (.apply .sorted c 0 (h.1 events s) run) h.2
    rw [List.append_cons] at run
    exact ⟨later ++ [_], run⟩

end Runs

def exactlyOnce : Command :=
  .scheduleUpsert "s" none (some 100) (.queue "q") .exactlyOnce 0 0

-- As many other runs as the history holds.
def otherRuns (run : Nat → Command) : List Command :=
  (List.range ScheduleRecord.maxScheduleHistory).map fun n => run (n + 2)

def trigger (fire : Nat) : Command :=
  .scheduleTrigger "s" fire 0

def recordRun (fire : Nat) : Command :=
  .scheduleRecordRun "s" fire.repr 0

-- The schedule is only created and run.
def OnlyRun (run : Nat → Command) (_ : List Applied) (_ : Store) (c : Command) (_ : Nat) : Prop :=
  c = exactlyOnce ∨ ∃ fire, c = run fire

-- With a hundred other runs in between, the same fire is triggered twice and the same run is recorded twice.
omit [External] in
theorem manual_run_repeated :
    letI := External.fixed
    (∃ s e' later e earlier, Abides (OnlyRun trigger) .empty (e' :: (later ++ e :: earlier)) s ∧
      e'.Triggers "s" 1 ∧ e.Triggers "s" 1) ∧
    (∃ s e' later e earlier, Abides (OnlyRun recordRun) .empty (e' :: (later ++ e :: earlier)) s ∧
      e'.Records "s" "1" ∧ e.Records "s" "1") := by
  let := External.fixed
  constructor
  case left =>
    have first : Abides (OnlyRun trigger) .empty _ _ :=
      .apply .sorted (trigger 1) 0 (.inr ⟨1, rfl⟩) (.apply .sorted exactlyOnce 0 (.inl rfl) .start)
    have ⟨later, run⟩ := first.applyAll (otherRuns trigger) (by simp [otherRuns, OnlyRun])
    refine ⟨_, _, later, _, _, run.apply .sorted (trigger 1) 0 (.inr ⟨1, rfl⟩), ⟨⟨0, rfl⟩, ?_⟩, ⟨0, rfl⟩, ?_⟩
    case refine_1 | refine_2 => decide +kernel
  case right =>
    have first : Abides (OnlyRun recordRun) .empty _ _ :=
      .apply .sorted (recordRun 1) 0 (.inr ⟨1, rfl⟩) (.apply .sorted exactlyOnce 0 (.inl rfl) .start)
    have ⟨later, run⟩ := first.applyAll (otherRuns recordRun) (by simp [otherRuns, OnlyRun])
    refine ⟨_, _, later, _, _, run.apply .sorted (recordRun 1) 0 (.inr ⟨1, rfl⟩), ⟨⟨0, rfl⟩, ?_⟩, ⟨0, rfl⟩, ?_⟩
    case refine_1 | refine_2 => decide +kernel

-- A fire that is triggered twice, and a run that is recorded twice, right after one another.
omit [External] in
theorem manual_runs_once_again :
    letI := External.fixed
    (∃ s events, Abides (SpacedTriggers "s") .empty events s ∧
      events.map (·.output.flag "triggered") = [some false, some true, none] ∧
      events.Pairwise fun e' e => ¬ (e'.Triggers "s" 1 ∧ e.Triggers "s" 1)) ∧
    (∃ s events, Abides (SpacedRecords "s") .empty events s ∧
      events.map (·.output.flag "recorded") = [some false, some true, none] ∧
      events.Pairwise fun e' e => ¬ (e'.Records "s" "1" ∧ e.Records "s" "1")) := by
  let := External.fixed
  constructor
  case left =>
    have run : Abides (SpacedTriggers "s") .empty _ _ :=
      .apply .sorted (trigger 1) 0 ⟨nofun, fun _ _ _ => spaced_of_short (by decide +kernel)⟩ (
      .apply .sorted (trigger 1) 0 ⟨nofun, fun _ _ _ => spaced_of_short (by decide +kernel)⟩ (
      .apply .sorted exactlyOnce 0 ⟨nofun, nofun⟩ .start))
    exact ⟨_, _, run, by decide +kernel, (manual_runs_once "s").1 _ _ _ run 1⟩
  case right =>
    have run : Abides (SpacedRecords "s") .empty _ _ :=
      .apply .sorted (recordRun 1) 0 ⟨nofun, fun _ _ _ => ⟨by decide +kernel, spaced_of_short (by decide +kernel)⟩⟩ (
      .apply .sorted (recordRun 1) 0 ⟨nofun, fun _ _ _ => ⟨by decide +kernel, spaced_of_short (by decide +kernel)⟩⟩ (
      .apply .sorted exactlyOnce 0 ⟨nofun, nofun⟩ .start))
    exact ⟨_, _, run, by decide +kernel, (manual_runs_once "s").2 _ _ _ run "1"⟩

end Store
