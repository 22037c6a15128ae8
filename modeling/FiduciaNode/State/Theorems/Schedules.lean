import FiduciaNode.Cron.Theorems.Horizon
import FiduciaNode.State.Theorems.Frames

namespace CronSchedule

variable {c : CronSchedule} {minute fuel after next : Nat}

theorem search_ge (h : c.search minute fuel = some next) (fits : (minute + fuel) * 60000 ≤ 2 ^ 64) :
    minute * 60000 ≤ next := by
  induction fuel generalizing minute
  case zero => simp [search] at h
  case succ fuel ih =>
    simp only [search] at h
    split at h
    case isTrue =>
      cases h
      rw [Nat.mod_eq_of_lt (by linarith)]
    case isFalse =>
      have := ih h (by linarith)
      linarith

-- How far the search looks ahead, in milliseconds.
def horizonMs : Nat := (maxSearchMinutes + 1) * 60000

theorem lt_nextAfter (h : c.nextAfter after = some next) (fits : after + horizonMs < 2 ^ 64) :
    after < next := by
  have bound (n : Nat) : (after / 60000 + 1 + n) * 60000 ≤ after + (n + 1) * 60000 := by omega
  have ge := search_ge h ((bound maxSearchMinutes).trans fits.le)
  calc
    after < (after / 60000 + 1) * 60000 := by omega
    _ ≤ next := ge

end CronSchedule

namespace Schedule

-- The fire under the cursor after a fire was claimed.
def advance (definition : Schedule) (fireIdMs : Nat) : Option Nat :=
  if definition.oneShotAtMs.isSome then none else Schedules.nextFireFor definition.cron none fireIdMs

-- The fire under the cursor after the schedule was enabled or disabled.
def resume (definition : Schedule) (enabled : Bool) (nowMs : Nat) (catchUp : Bool) : Option Nat :=
  if enabled && !catchUp then
    match definition.oneShotAtMs with
    | some oneShot => if oneShot > nowMs then some oneShot else none
    | none => Schedules.nextFireFor definition.cron none nowMs
  else definition.nextFireMs

variable {definition : Schedule} {after next : Nat} {catchUp : Bool}

theorem lt_nextFireFor {cron : Option String} (h : Schedules.nextFireFor cron none after = some next)
    (fits : after + CronSchedule.horizonMs < 2 ^ 64) : after < next := by
  simp only [Schedules.nextFireFor, Option.bind_eq_bind, Option.bind_eq_some_iff] at h
  have ⟨_, _, _, _, h⟩ := h
  exact CronSchedule.lt_nextAfter h fits

theorem lt_advance (h : definition.advance after = some next)
    (fits : definition.oneShotAtMs = none → after + CronSchedule.horizonMs < 2 ^ 64) : after < next := by
  simp only [advance] at h
  split at h
  case isTrue => contradiction
  case isFalse cron => exact lt_nextFireFor h (fits (by simpa using cron))

theorem lt_resume (h : definition.resume true after false = some next)
    (fits : definition.oneShotAtMs = none → after + CronSchedule.horizonMs < 2 ^ 64) : after < next := by
  simp only [resume, Bool.not_false, Bool.and_self, if_true] at h
  split at h
  case h_1 => grind
  case h_2 cron => exact lt_nextFireFor h (fits cron)

end Schedule

namespace Command

-- The schedule that the command is about.
def schedule : Command → Option String
  | .scheduleUpsert name .. | .scheduleRecordRun name .. | .scheduleClaimFire name ..
  | .scheduleRecordResult name .. | .scheduleSetEnabled name .. | .scheduleDelete name
  | .scheduleTrigger name .. | .scheduleRecordResultV2 name .. => some name
  | _ => none

-- The fire whose delivery the command reports, with its schedule.
def reportedFire : Command → Option (String × Nat)
  | .scheduleRecordResult name fireIdMs .. | .scheduleRecordResultV2 name fireIdMs .. => some (name, fireIdMs)
  | _ => none

-- The schedule whose history the command may extend.
def extendedSchedule : Command → Option String
  | .scheduleClaimFire name _ | .scheduleTrigger name _ _ | .scheduleRecordRun name _ _ => some name
  | _ => none

theorem schedule_of_reportedFire {c : Command} {name : String} {fireIdMs : Nat}
    (h : c.reportedFire = some (name, fireIdMs)) : c.schedule = some name := by
  cases c <;> simp_all [reportedFire, schedule]

theorem schedule_of_part {c : Command} (h : c.part ≠ .schedules) : c.schedule = none := by
  cases c <;> first | rfl | contradiction

end Command

namespace Applied

def ClaimsFire (e : Applied) (name : String) (fireIdMs : Nat) : Prop :=
  e.command = .scheduleClaimFire name fireIdMs ∧ e.output.flag "claimed" = some true

def Triggers (e : Applied) (name : String) (fireIdMs : Nat) : Prop :=
  (∃ requestedAtMs, e.command = .scheduleTrigger name fireIdMs requestedAtMs) ∧
  e.output.flag "triggered" = some true

def Starts (e : Applied) (name : String) (fireIdMs : Nat) : Prop :=
  e.ClaimsFire name fireIdMs ∨ e.Triggers name fireIdMs

-- The result of the fire is on record, now or since an earlier command.
def Settles (e : Applied) (name : String) (fireIdMs : Nat) : Prop :=
  e.command.reportedFire = some (name, fireIdMs) ∧ e.output.flag "recorded" = some true

theorem not_settles {e : Applied} {c : Command} {name : String} {fireIdMs : Nat} (command : e.command = c)
    (h : c.reportedFire ≠ some (name, fireIdMs)) : ¬e.Settles name fireIdMs := by
  rintro ⟨reported, _⟩
  exact h (command ▸ reported)

end Applied

namespace ScheduleRecord

-- What a command can do to a schedule.
inductive Step (name : String) (e : Applied) : Option ScheduleRecord → Option ScheduleRecord → Prop
  | keep (claims : ∀ fire, ¬e.ClaimsFire name fire) (triggers : ∀ fire, ¬e.Triggers name fire)
    (settles : ∀ fire, ¬e.Settles name fire) : Step name e r r
  | upsert (command : e.command = .scheduleUpsert name cron oneShotAtMs target delivery maxRetries nowMs)
    (history : record.history = (r.map ScheduleRecord.history).getD []) : Step name e r (some record)
  | recordRun (command : e.command = .scheduleRecordRun name fireId firedAtMs)
    (status : run.status = .delivered) : Step name e (some record) (some (record.push run))
  | claim (command : e.command = .scheduleClaimFire name fire) (enabled : record.definition.enabled)
    (due : record.definition.nextFireMs = some fire) (id : run.fireId = fire.repr) (status : run.status = .pending) :
    Step name e (some record) (some { record.push run with
      definition := { record.definition with nextFireMs := record.definition.advance fire }
    })
  | setEnabled (command : e.command = .scheduleSetEnabled name enabled nowMs catchUp) :
    Step name e (some record) (some { record with
      definition := { record.definition with
        enabled := enabled, nextFireMs := record.definition.resume enabled nowMs catchUp
      }
    })
  | delete (command : e.command = .scheduleDelete name) : Step name e r none
  | trigger (command : e.command = .scheduleTrigger name fire requestedAtMs)
    (new : ∀ run ∈ record.history, run.fireId ≠ fire.repr) (id : run.fireId = fire.repr)
    (status : run.status = .pending) : Step name e (some record) (some (record.push run))
  | settle (command : e.command.reportedFire = some (name, fire))
    (history : record.history = older ++ run :: newer) (id : run.fireId = fire.repr)
    (latest : ∀ run ∈ newer, run.fireId ≠ fire.repr) (pending : run.status = .pending)
    (id' : run'.fireId = fire.repr) (settled : run'.status ≠ .pending) :
    Step name e (some record) (some { record with history := older ++ run' :: newer })
  | duplicate (command : e.command.reportedFire = some (name, fire))
    (history : record.history = older ++ run :: newer) (id : run.fireId = fire.repr)
    (latest : ∀ run ∈ newer, run.fireId ≠ fire.repr) (settled : run.status ≠ .pending) :
    Step name e (some record) (some record)

variable {name name' : String} {e : Applied} {r : Option ScheduleRecord} {schedules : Schedules}
  {record : ScheduleRecord}

theorem Step.of_other (h : e.command.schedule ≠ some name) : Step name e r r := by
  refine .keep ?_ ?_ ?_
  case refine_1 =>
    rintro _ ⟨command, _⟩
    simp [command, Command.schedule] at h
  case refine_2 =>
    rintro _ ⟨⟨_, command⟩, _⟩
    simp [command, Command.schedule] at h
  case refine_3 =>
    rintro _ ⟨command, _⟩
    exact h (Command.schedule_of_reportedFire command)

theorem Step.insert (command : e.command.schedule = some name')
    (h : Step name' e schedules[name']? (some record)) :
    Step name e schedules[name]? (schedules.insert name' record)[name]? := by
  rw [HashMap.get_insert]
  split
  case isTrue same => exact same ▸ h
  case isFalse ne => exact .of_other (by simpa [command] using ne)

-- An answer that neither claims nor triggers nor settles anything.
theorem Step.refused {c : Command} {now : Nat} {v : Value} (claimed : v.flag "claimed" ≠ some true)
    (triggered : v.flag "triggered" ≠ some true) (recorded : v.flag "recorded" ≠ some true) :
    Step name ⟨c, now, v⟩ r r :=
  .keep (fun _ h => claimed h.2) (fun _ h => triggered h.2) (fun _ h => recorded h.2)

end ScheduleRecord

namespace Schedules

open ScheduleRecord (Step)

variable {schedules : Schedules} {name name' : String} {now fireIdMs : Nat} {c : Command}

theorem applyScheduleUpsert_step (cron : Option String) (oneShotAtMs : Option Nat) (target : ScheduleTarget)
    (delivery : DeliverySemantics) (maxRetries nowMs : Nat) :
    Step name ⟨.scheduleUpsert name' cron oneShotAtMs target delivery maxRetries nowMs, now,
        (schedules.applyScheduleUpsert name' cron oneShotAtMs target delivery maxRetries nowMs).2⟩
      schedules[name]?
      (schedules.applyScheduleUpsert name' cron oneShotAtMs target delivery maxRetries nowMs).1[name]? :=
  .insert rfl (.upsert rfl rfl)

theorem applyScheduleRecordRun_step (fireId : String) (firedAtMs : Nat) :
    Step name ⟨.scheduleRecordRun name' fireId firedAtMs, now,
        (schedules.applyScheduleRecordRun name' fireId firedAtMs).2⟩
      schedules[name]? (schedules.applyScheduleRecordRun name' fireId firedAtMs).1[name]? := by
  simp only [applyScheduleRecordRun]
  split
  case h_1 => exact .refused (by rintro ⟨⟩) (by rintro ⟨⟩) (by rintro ⟨⟩)
  case h_2 record stored =>
    split
    case isTrue =>
      refine .keep ?_ ?_ ?_
      case refine_1 => simp [Applied.ClaimsFire]
      case refine_2 => simp [Applied.Triggers]
      case refine_3 => simp [Applied.Settles, Command.reportedFire]
    case isFalse => exact .insert rfl (stored ▸ .recordRun rfl rfl)

theorem applyScheduleClaimFire_step :
    Step name ⟨.scheduleClaimFire name' fireIdMs, now, (schedules.applyScheduleClaimFire name' fireIdMs).2⟩
      schedules[name]? (schedules.applyScheduleClaimFire name' fireIdMs).1[name]? := by
  simp only [applyScheduleClaimFire]
  split
  case h_1 => exact .refused (by rintro ⟨⟩) (by rintro ⟨⟩) (by rintro ⟨⟩)
  case h_2 record stored =>
    split
    case isTrue => exact .refused (by rintro ⟨⟩) (by rintro ⟨⟩) (by rintro ⟨⟩)
    case isFalse enabled =>
      split
      case isTrue => exact .refused (by rintro ⟨⟩) (by rintro ⟨⟩) (by rintro ⟨⟩)
      case isFalse due =>
        exact .insert rfl (stored ▸ .claim rfl (by simpa using enabled) (not_not.mp due) rfl rfl)

theorem applyScheduleSetEnabled_step (enabled : Bool) (nowMs : Nat) (catchUp : Bool) :
    Step name ⟨.scheduleSetEnabled name' enabled nowMs catchUp, now,
        (schedules.applyScheduleSetEnabled name' enabled nowMs catchUp).2⟩
      schedules[name]? (schedules.applyScheduleSetEnabled name' enabled nowMs catchUp).1[name]? := by
  simp only [applyScheduleSetEnabled]
  split
  case h_1 => exact .refused (by rintro ⟨⟩) (by rintro ⟨⟩) (by rintro ⟨⟩)
  case h_2 record stored => exact .insert rfl (stored ▸ .setEnabled rfl)

theorem applyScheduleDelete_step :
    Step name ⟨.scheduleDelete name', now, (schedules.applyScheduleDelete name').2⟩
      schedules[name]? (schedules.applyScheduleDelete name').1[name]? := by
  simp only [applyScheduleDelete, HashMap.get_erase]
  split
  case isTrue same => exact .delete (same ▸ rfl)
  case isFalse ne => exact .of_other (by simpa [Command.schedule] using ne)

theorem applyScheduleTrigger_step (requestedAtMs : Nat) :
    Step name ⟨.scheduleTrigger name' fireIdMs requestedAtMs, now,
        (schedules.applyScheduleTrigger name' fireIdMs requestedAtMs).2⟩
      schedules[name]? (schedules.applyScheduleTrigger name' fireIdMs requestedAtMs).1[name]? := by
  simp only [applyScheduleTrigger]
  split
  case h_1 => exact .refused (by rintro ⟨⟩) (by rintro ⟨⟩) (by rintro ⟨⟩)
  case h_2 record stored =>
    split
    case isTrue => exact .refused (by rintro ⟨⟩) (by rintro ⟨⟩) (by rintro ⟨⟩)
    case isFalse new =>
      refine .insert rfl (stored ▸ .trigger rfl ?_ rfl rfl)
      simpa using new

-- The latest run of a fire, if there is one.
theorem span_latest {p : ScheduleRun → Bool} {history newer older : List ScheduleRun} {run : ScheduleRun}
    (h : history.reverse.span p = (newer, run :: older)) :
    history = older.reverse ++ run :: newer.reverse ∧ ¬p run ∧ ∀ run ∈ newer, p run := by
  rw [List.span_eq_takeWhile_dropWhile, Prod.mk.injEq] at h
  have whole : history.reverse = newer ++ run :: older := by
    rw [← h.1, ← h.2, List.takeWhile_append_dropWhile]
  refine ⟨?_, ?_, ?_⟩
  case refine_1 => simp [List.reverse_eq_iff.mp whole]
  case refine_2 =>
    have := List.head_dropWhile_not (p := p) (l := history.reverse) (by simp [h.2])
    simpa [h.2] using this
  case refine_3 =>
    intro run mem
    exact List.mem_takeWhile_imp (h.1 ▸ mem)

theorem applyScheduleRecordResult_step (result : RunResult) (command : c.reportedFire = some (name', fireIdMs)) :
    Step name ⟨c, now, (schedules.applyScheduleRecordResult name' fireIdMs result).2⟩
      schedules[name]? (schedules.applyScheduleRecordResult name' fireIdMs result).1[name]? := by
  simp only [applyScheduleRecordResult]
  split
  case h_1 => exact .refused (by rintro ⟨⟩) (by rintro ⟨⟩) (by rintro ⟨⟩)
  case h_2 record stored =>
    split
    case h_1 => exact .refused (by rintro ⟨⟩) (by rintro ⟨⟩) (by rintro ⟨⟩)
    case h_2 newer run older span =>
      have ⟨history, id, latest⟩ := span_latest span
      simp only [decide_eq_true_eq, not_not] at id latest
      split
      case isTrue settled =>
        by_cases same : name' = name
        case neg => exact .of_other (by simpa [Command.schedule_of_reportedFire command] using same)
        case pos =>
          subst same
          rw [stored]
          exact .duplicate command history id (by simpa using latest) settled
      case isFalse pending =>
        refine .insert (Command.schedule_of_reportedFire command) (stored ▸ ?_)
        simp only [List.reverse_append, List.reverse_cons, List.append_assoc, List.singleton_append]
        refine .settle command history id (by simpa using latest) (not_not.mp pending) id ?_
        simp only [RunResult.record]
        split <;> simp

theorem claimed_cursor {record : ScheduleRecord} {expr : String} {cron : CronSchedule}
    (found : schedules[name]? = some record) (enabled : record.definition.enabled)
    (due : record.definition.nextFireMs = some fireIdMs) (recurring : record.definition.oneShotAtMs = none)
    (expression : record.definition.cron = some expr) (parsed : CronSchedule.parse expr = .ok cron) :
    (schedules.applyScheduleClaimFire name fireIdMs).1[name]?.map (·.definition.nextFireMs) =
      some (cron.nextAfter fireIdMs) := by
  simp [applyScheduleClaimFire, found, enabled, due, recurring, nextFireFor, expression, parsed, Except.toOption]

-- The cursor after a claim is lost on a schedule that fires again only if it fires on leap days alone and the next
-- one is beyond the horizon of the search, across the end of a century.
theorem live_cursor_iff {record : ScheduleRecord} {expr : String} {cron : CronSchedule}
    (found : schedules[name]? = some record) (enabled : record.definition.enabled)
    (due : record.definition.nextFireMs = some fireIdMs) (recurring : record.definition.oneShotAtMs = none)
    (expression : record.definition.cron = some expr) (parsed : CronSchedule.parse expr = .ok cron)
    (live : ∃ t, fireIdMs < t ∧ cron.Fires t) :
    (∃ record' next, (schedules.applyScheduleClaimFire name fireIdMs).1[name]? = some record' ∧
      record'.definition.nextFireMs = some next) ↔
    ¬ (cron.LeapDayOnly ∧ cron.InGap fireIdMs) := by
  have later : ∃ m, fireIdMs / 60000 < m ∧ cron.FiresIn m := by
    have ⟨t, lt, fires⟩ := live
    have ⟨m, le, fires, _⟩ := (CronSchedule.fires_iff_of_lt lt).mp fires
    exact ⟨m, le, fires⟩
  have cursor := claimed_cursor found enabled due recurring expression parsed
  have wf := CronSchedule.parse_wellFormed parsed
  rw [← CronSchedule.isSome_nextAfter_iff_not_inGap wf later, Option.isSome_iff_exists]
  constructor
  case mp =>
    intro ⟨record', next, stored, eq⟩
    rw [stored, Option.map_some, eq] at cursor
    exact ⟨next, (Option.some.inj cursor).symm⟩
  case mpr =>
    intro ⟨next, eq⟩
    rw [eq, Option.map_eq_some_iff] at cursor
    have ⟨record', stored, eq⟩ := cursor
    exact ⟨record', next, stored, eq⟩

-- A schedule for midnight of every leap day, with the cursor on one of them.
def leapDayRecord (fireIdMs : Nat) : ScheduleRecord where
  definition := {
    name := "leap", cron := some "0 0 29 2 *", oneShotAtMs := none, target := .queue "q", delivery := .exactlyOnce
    maxRetries := 0, enabled := true, nextFireMs := some fireIdMs
  }
  history := []

def leapDays (fireIdMs : Nat) : Schedules :=
  (∅ : Schedules).insert "leap" (leapDayRecord fireIdMs)

theorem leapDays_found : (leapDays fireIdMs)["leap"]? = some (leapDayRecord fireIdMs) := by
  simp [leapDays]

abbrev leapDayCron : CronSchedule :=
  ⟨[0], [0], [29], [2], [0, 1, 2, 3, 4, 5, 6, 0], true, false⟩

theorem leapDayCron_leapDayOnly : leapDayCron.LeapDayOnly where
  dom   := rfl
  dow   := by decide
  dates := by simp

theorem leapDayCron_fires (year : Nat) (leap : Date.isLeap year) (le : 1970 ≤ year) :
    leapDayCron.FiresIn (CronSchedule.leapDay year * 1440) := by
  have date := CronSchedule.leapDay_spec leap le
  generalize CronSchedule.leapDay year = n at date
  rw [CronSchedule.firesIn_iff, show n * 1440 % 60 = 0 by omega, show n * 1440 / 60 % 24 = 0 by omega,
    show n * 1440 / 1440 = n by omega, leapDayCron_leapDayOnly.firesOn_iff, date]
  simp

theorem leapDay_2096 : CronSchedule.leapDay 2096 = 46080 := by
  decide +kernel

theorem leapDay_2104 : CronSchedule.leapDay 2104 = 49001 := by
  decide +kernel

theorem leapDayCron_fires_2104 : leapDayCron.Fires 4233686400000 := by
  have fires := leapDayCron_fires 2104 (by decide) (by decide)
  have minute : 4233686400000 / 60000 = CronSchedule.leapDay 2104 * 1440 := by norm_num [leapDay_2104]
  exact ⟨by norm_num, minute ▸ fires⟩

-- The fire of 2096 is claimed, and the one of 2104 is beyond the horizon.
theorem leap_day_cursor_lost :
    CronSchedule.parse "0 0 29 2 *" = .ok leapDayCron ∧
    (∃ t, 3981312000000 < t ∧ leapDayCron.Fires t) ∧
    ((leapDays 3981312000000).applyScheduleClaimFire "leap" 3981312000000).1["leap"]?.map
      (·.definition.nextFireMs) = some none := by
  have parsed : CronSchedule.parse "0 0 29 2 *" = .ok leapDayCron := rfl
  have gap : leapDayCron.InGap 3981312000000 := by
    refine ⟨2100, by decide, by decide, by decide, ?_⟩
    simp [leapDay_2096, leapDay_2104, CronSchedule.lastMinute, CronSchedule.maxSearchMinutes]
  have lost : leapDayCron.nextAfter 3981312000000 = none := by
    rw [← Option.not_isSome_iff_eq_none, CronSchedule.isSome_nextAfter_iff]
    exact CronSchedule.not_in_window leapDayCron_leapDayOnly gap
  refine ⟨parsed, ⟨4233686400000, by norm_num, leapDayCron_fires_2104⟩, ?_⟩
  rw [claimed_cursor leapDays_found rfl rfl rfl rfl parsed, lost]

theorem live_cursor_1972 :
    ∃ record' next,
      ((leapDays 68169600000).applyScheduleClaimFire "leap" 68169600000).1["leap"]? = some record' ∧
      record'.definition.nextFireMs = some next := by
  have no : ¬ (leapDayCron.LeapDayOnly ∧ leapDayCron.InGap 68169600000) := by
    rintro ⟨_, century, late, hundred, fourth, gap⟩
    have before := (gap 0 (by simp) 0 (by simp)).1
    have mono := CronSchedule.leapDay_mono (show 2096 ≤ century - 4 by omega)
    rw [leapDay_2096] at mono
    omega
  have parsed : CronSchedule.parse "0 0 29 2 *" = .ok leapDayCron := rfl
  have live : ∃ t, 68169600000 < t ∧ leapDayCron.Fires t := ⟨_, by norm_num, leapDayCron_fires_2104⟩
  exact (live_cursor_iff leapDays_found rfl rfl rfl rfl parsed live).mpr no

end Schedules

namespace Store

open ScheduleRecord (Step)

variable [External] {s : Store} {o : IterOrder} {c : Command} {revision now : Nat} {name : String}

theorem applyCommand_scheduleStep :
    Step name ⟨c, now, (s.applyCommand o revision now c).2⟩ s.schedules[name]?
      (s.applyCommand o revision now c).1.schedules[name]? := by
  by_cases h : c.part = .schedules
  case neg =>
    have same : (s.applyCommand o revision now c).1.schedules = s.schedules :=
      applyCommand_touches.frame .schedules (Ne.symm h)
    rw [same]
    exact .of_other (by simp [Command.schedule_of_part h])
  case pos =>
    cases c <;> try contradiction
    case scheduleUpsert => exact Schedules.applyScheduleUpsert_step _ _ _ _ _ _
    case scheduleRecordRun => exact Schedules.applyScheduleRecordRun_step _ _
    case scheduleClaimFire => exact Schedules.applyScheduleClaimFire_step
    case scheduleRecordResult => exact Schedules.applyScheduleRecordResult_step _ rfl
    case scheduleSetEnabled => exact Schedules.applyScheduleSetEnabled_step _ _ _
    case scheduleDelete => exact Schedules.applyScheduleDelete_step
    case scheduleTrigger => exact Schedules.applyScheduleTrigger_step _
    case scheduleRecordResultV2 => exact Schedules.applyScheduleRecordResult_step _ rfl

theorem applyAt_scheduleStep :
    Step name ⟨c, now, (s.applyAt o c now).2.output⟩ s.schedules[name]?
      (s.applyAt o c now).1.schedules[name]? := by
  have same : (s.prepare o c now).schedules = s.schedules := prepare_frame .schedules rfl
  exact same ▸ applyCommand_scheduleStep

end Store
