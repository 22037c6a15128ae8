import FiduciaNode.State.Theorems.Schedules

namespace ScheduleRecord

variable {name : String} {e : Applied} {events : List Applied} {r r' : Option ScheduleRecord}
  {record : ScheduleRecord} {run run' : ScheduleRun} {fire : Nat}

section Push

-- The runs that a new one takes the place of.
def dropped (record : ScheduleRecord) : List ScheduleRun :=
  record.history.take (record.history.length + 1 - maxScheduleHistory)

@[simp]
theorem push_definition : (record.push run).definition = record.definition := by
  simp only [push, trimHistory]

theorem push_history :
    (record.push run).history =
      (record.history ++ [run]).drop (record.history.length + 1 - maxScheduleHistory) := by
  simp [push, trimHistory]

theorem push_history_sublist : (record.push run).history.Sublist (record.history ++ [run]) := by
  rw [push_history]
  exact List.drop_sublist _ _

theorem mem_push_self : run ∈ (record.push run).history := by
  rw [push_history, List.drop_append_of_le_length (by simp [maxScheduleHistory])]
  simp

theorem mem_push (mem : run ∈ record.history) (kept : run ∉ record.dropped) :
    run ∈ (record.push run').history := by
  rw [push_history, List.drop_append_of_le_length (by simp [maxScheduleHistory])]
  refine List.mem_append_left _ ?_
  rw [← List.take_append_drop (record.history.length + 1 - maxScheduleHistory) record.history] at mem
  exact (List.mem_append.mp mem).resolve_left kept

-- A fire that is claimed or triggered has a pending run.
theorem Step.starts (t : Step name e r r') (h : e.Starts name fire) :
    ∃ record ∈ r', ∃ run ∈ record.history, run.fireId = fire.repr ∧ run.status = .pending := by
  cases t
  case keep claims triggers _ => exact (h.elim (claims fire) (triggers fire)).elim
  case claim command _ _ id status =>
    refine ⟨_, rfl, _, mem_push_self, ?_, status⟩
    simp_all [Applied.Starts, Applied.ClaimsFire, Applied.Triggers]
  case trigger command _ id status =>
    refine ⟨_, rfl, _, mem_push_self, ?_, status⟩
    simp_all [Applied.Starts, Applied.ClaimsFire, Applied.Triggers]
  case settle command _ _ _ _ _ _ | duplicate command _ _ _ _ =>
    rcases h with ⟨other, _⟩ | ⟨⟨_, other⟩, _⟩ <;> simp [other, Command.reportedFire] at command
  all_goals simp_all [Applied.Starts, Applied.ClaimsFire, Applied.Triggers]

end Push

section Cursor

-- The fires that were claimed lie before the cursor, each of them after those claimed before it.
structure Ordered (name : String) (events : List Applied) (r : Option ScheduleRecord) : Prop where
  increasing : events.Pairwise fun e e' =>
    ∀ fire fire', e.ClaimsFire name fire → e'.ClaimsFire name fire' → fire' < fire
  ahead      : ∀ record ∈ r, ∀ cursor ∈ record.definition.nextFireMs,
    ∀ e ∈ events, ∀ fire, e.ClaimsFire name fire → fire < cursor

namespace Ordered

theorem unclaimed (i : Ordered name events r) (claims : ∀ fire, ¬e.ClaimsFire name fire)
    (ahead : ∀ record ∈ r', ∀ cursor ∈ record.definition.nextFireMs,
      ∀ e ∈ events, ∀ fire, e.ClaimsFire name fire → fire < cursor) :
    Ordered name (e :: events) r' where
  increasing := .cons (fun _ _ fire _ h => absurd h (claims fire)) i.increasing
  ahead      := fun record mem cursor due =>
    List.forall_mem_cons.mpr ⟨fun fire h => absurd h (claims fire), ahead record mem cursor due⟩

theorem claimed {record' : ScheduleRecord} (i : Ordered name events (some record))
    (command : e.command = .scheduleClaimFire name fire) (due : record.definition.nextFireMs = some fire)
    (later : ∀ cursor ∈ record'.definition.nextFireMs, fire < cursor) :
    Ordered name (e :: events) (some record') := by
  have sole {fire'} (h : e.ClaimsFire name fire') : fire' = fire := by
    have := h.1
    simp_all
  have before := i.ahead record rfl fire due
  refine ⟨.cons (fun e' mem fire₁ fire' h h' => ?increasing) i.increasing, ?ahead⟩
  case increasing =>
    rw [sole h]
    exact before e' mem fire' h'
  case ahead =>
    rintro _ ⟨⟩ cursor due'
    have later := later cursor due'
    refine List.forall_mem_cons.mpr ⟨fun fire' h => sole h ▸ later, fun e' mem fire' h' => ?_⟩
    exact (before e' mem fire' h').trans later

end Ordered

end Cursor

end ScheduleRecord

namespace Store

open ScheduleRecord

variable [External] {s s' : Store} {o : IterOrder} {c : Command} {now : Nat} {name : String} {fire : Nat}
  {e : Applied} {events : List Applied} {r' : Option ScheduleRecord}

section Claims

-- The schedule is neither replaced nor deleted, and the clock that resumes it is not behind the fires that
-- were claimed. The times after which cron looks for the next fire leave room for it.
structure InStep (name : String) (events : List Applied) (s : Store) (c : Command) (_now : Nat) : Prop where
  upsert : ∀ cron oneShotAtMs target delivery maxRetries nowMs,
    c ≠ .scheduleUpsert name cron oneShotAtMs target delivery maxRetries nowMs
  delete : c ≠ .scheduleDelete name
  resume : ∀ nowMs, c = .scheduleSetEnabled name true nowMs false →
    ∀ e ∈ events, ∀ fire, e.ClaimsFire name fire → fire ≤ nowMs
  fits   : ∀ after, c = .scheduleSetEnabled name true after false ∨ c = .scheduleClaimFire name after →
    ∀ record ∈ s.schedules[name]?, record.definition.oneShotAtMs = none →
      after + CronSchedule.horizonMs < 2 ^ 64

omit [External] in
theorem Ordered.step (i : Ordered name events s.schedules[name]?)
    (t : Step name e s.schedules[name]? r') (h : InStep name events s e.command e.now) :
    Ordered name (e :: events) r' := by
  have fits := h.fits
  generalize s.schedules[name]? = r at i t fits
  cases t
  case keep claims _ _ => exact i.unclaimed claims i.ahead
  case upsert command _ => exact absurd command (h.upsert _ _ _ _ _ _)
  case delete command => exact absurd command h.delete
  case recordRun command _ => exact i.unclaimed (by simp [Applied.ClaimsFire, command]) (by simpa using i.ahead _ rfl)
  case trigger command _ _ _ =>
    exact i.unclaimed (by simp [Applied.ClaimsFire, command]) (by simpa using i.ahead _ rfl)
  case settle command _ _ _ _ _ _ =>
    refine i.unclaimed ?_ (by simpa using i.ahead _ rfl)
    rintro _ ⟨claim, _⟩
    simp [claim, Command.reportedFire] at command
  case duplicate command _ _ _ _ =>
    refine i.unclaimed ?_ i.ahead
    rintro _ ⟨claim, _⟩
    simp [claim, Command.reportedFire] at command
  case claim fire record run command enabled due id status =>
    exact i.claimed command due fun cursor next => Schedule.lt_advance next (fits fire (.inr command) record rfl)
  case setEnabled enabled nowMs catchUp record command =>
    refine i.unclaimed (by simp [Applied.ClaimsFire, command]) ?_
    rintro _ ⟨⟩ cursor next e' mem fire claims
    by_cases resumed : enabled = true ∧ catchUp = false
    case pos =>
      obtain ⟨rfl, rfl⟩ := resumed
      calc
        fire ≤ nowMs := h.resume nowMs command e' mem fire claims
        _ < cursor := Schedule.lt_resume next (fits nowMs (.inl command) record rfl)
    case neg =>
      refine i.ahead record rfl cursor ?_ e' mem fire claims
      simpa [Schedule.resume, resumed] using next

theorem fires_claimed_once (h : Abides (InStep name) s events s') :
    events.Pairwise fun e e' => ∀ fire fire', e.ClaimsFire name fire → e'.ClaimsFire name fire' → fire' < fire := by
  suffices i : Ordered name events s'.schedules[name]? from i.increasing
  induction h
  case start => exact ⟨.nil, by simp⟩
  case apply inStep _ ih => exact Ordered.step ih applyAt_scheduleStep inStep

-- A schedule for the time `at_`, and a schedule that fires every minute.
def once (at_ : Nat) : Command :=
  .scheduleUpsert "s" none (some at_) (.queue "q") .atLeastOnce 0 0

def everyMinute : Command :=
  .scheduleUpsert "s" (some "* * * * *") none (.queue "q") .atLeastOnce 0 0

def reclaim (fire nowMs : Nat) : List Command :=
  [.scheduleClaimFire "s" fire, .scheduleSetEnabled "s" true nowMs false, .scheduleClaimFire "s" fire]

-- The fire is claimed, the schedule is resumed and the fire is claimed again.
def ClaimedTwice (start : Command) (fire nowMs : Nat) : Prop :=
  ∃ e e' resume s,
    Abides (fun _ _ _ _ => True) (Store.empty.applyAt .sorted start 0).1 [e, resume, e'] s ∧
    [e', resume, e].map (·.command) = reclaim fire nowMs ∧ e'.ClaimsFire "s" fire ∧ e.ClaimsFire "s" fire

omit [External] in
theorem fires_claimed_twice :
    letI := External.fixed
    ClaimedTwice (once 100) 100 99 ∧ ClaimedTwice everyMinute 60000 59999 := by
  let := External.fixed
  have twice : ∀ start ∈ [(once 100, 100, 99), (everyMinute, 60000, 59999)],
      ClaimedTwice start.1 start.2.1 start.2.2 := by
    intro start mem
    refine ⟨_, _, _, _,
      .apply .sorted (.scheduleClaimFire "s" start.2.1) 0 trivial (
      .apply .sorted (.scheduleSetEnabled "s" true start.2.2 false) 0 trivial (
      .apply .sorted (.scheduleClaimFire "s" start.2.1) 0 trivial .start)), rfl, ⟨rfl, ?_⟩, ⟨rfl, ?_⟩⟩
    case refine_1 | refine_2 =>
      revert start
      decide +kernel
  exact ⟨twice _ (.head _), twice _ (.tail _ (.head _))⟩

omit [External] in
theorem every_minute_claimed_once :
    letI := External.fixed
    ∃ e e' resume s,
      Abides (InStep "s") (Store.empty.applyAt .sorted everyMinute 0).1 [e, resume, e'] s ∧
      [e', resume, e].map (·.command) = reclaim 60000 60000 ∧
      e'.ClaimsFire "s" 60000 ∧ ¬e.ClaimsFire "s" 60000 := by
  let := External.fixed
  have claim (events s) : InStep "s" events s (.scheduleClaimFire "s" 60000) 0 := by
    refine ⟨nofun, nofun, nofun, ?_⟩
    rintro _ (⟨⟨⟩⟩ | ⟨⟨⟩⟩) _ _ _
    decide
  have h : Abides (InStep "s") (Store.empty.applyAt .sorted everyMinute 0).1 _ _ :=
    .apply .sorted (.scheduleClaimFire "s" 60000) 0 (claim _ _) (
    .apply .sorted (.scheduleSetEnabled "s" true 60000 false) 0 ⟨nofun, nofun, ?resume, ?fits⟩ (
    .apply .sorted (.scheduleClaimFire "s" 60000) 0 (claim _ _) .start))
  case resume =>
    rintro _ ⟨⟩ e mem fire ⟨command, _⟩
    cases List.mem_singleton.mp mem
    cases command
    exact le_rfl
  case fits =>
    rintro _ (⟨⟨⟩⟩ | ⟨⟨⟩⟩) _ _ _
    decide
  have ⟨increasing, _⟩ := List.pairwise_cons.mp (fires_claimed_once h)
  refine ⟨_, _, _, _, h, rfl, ?claims, fun again =>
    lt_irrefl _ (increasing _ (.tail _ (.head _)) _ _ again ?claims)⟩
  case claims => exact ⟨rfl, by decide +kernel⟩

end Claims

section Pending

-- The schedule is not deleted and the result of the fire is not reported. No pending run of the fire has to
-- make room for another run.
structure Retains (name : String) (fire : Nat) (s : Store) (_o : IterOrder) (c : Command) (_now : Nat) :
    Prop where
  delete : c ≠ .scheduleDelete name
  report : c.reportedFire ≠ some (name, fire)
  room   : c.extendedSchedule = some name → ∀ record ∈ s.schedules[name]?,
    ∀ run ∈ record.dropped, run.fireId = fire.repr → run.status ≠ .pending

variable {record : ScheduleRecord} {run : ScheduleRun}

-- The pending run of a fire stays.
omit [External] in
theorem Retains.step (t : Step name e (some record) r') (stored : s.schedules[name]? = some record)
    (h : Retains name fire s o e.command now) (mem : run ∈ record.history) (id : run.fireId = fire.repr)
    (pending : run.status = .pending) : ∃ record' ∈ r', run ∈ record'.history := by
  have room (extended : e.command.extendedSchedule = some name) : run ∉ record.dropped :=
    fun dropped => h.room extended record stored run dropped id pending
  cases t
  case keep => exact ⟨record, rfl, mem⟩
  case upsert record' _ history => exact ⟨record', rfl, by simpa [history] using mem⟩
  case recordRun command _ => exact ⟨_, rfl, mem_push mem (room (by rw [command]; rfl))⟩
  case claim command _ _ _ _ => exact ⟨_, rfl, mem_push mem (room (by rw [command]; rfl))⟩
  case setEnabled => exact ⟨_, rfl, mem⟩
  case delete command => exact absurd command h.delete
  case trigger command _ _ _ => exact ⟨_, rfl, mem_push mem (room (by rw [command]; rfl))⟩
  case settle fire' older run₁ newer run₁' command id₁ _ _ _ _ history =>
    refine ⟨_, rfl, ?_⟩
    have ne : run ≠ run₁ := by
      rintro rfl
      have same : fire' = fire := Nat.repr_inj.mp (id₁.symm.trans id)
      exact h.report (same ▸ command)
    simp only [history, List.mem_append, List.mem_cons] at mem ⊢
    tauto
  case duplicate => exact ⟨record, rfl, mem⟩

theorem Runs.retains (r : Runs (Retains name fire) s s') (stored : s.schedules[name]? = some record)
    (mem : run ∈ record.history) (id : run.fireId = fire.repr) (pending : run.status = .pending) :
    ∃ record' ∈ s'.schedules[name]?, run ∈ record'.history := by
  induction r
  case refl => exact ⟨record, stored, mem⟩
  case apply s₁ o c now h _ ih =>
    have ⟨record₁, stored₁, mem₁⟩ := ih
    exact h.step (stored₁ ▸ applyAt_scheduleStep) stored₁ mem₁ id pending

theorem pending_run_durable
    (h : Applied.Starts ⟨c, now, (s.applyAt o c now).2.output⟩ name fire) :
    ∃ run : ScheduleRun, run.fireId = fire.repr ∧ run.status = .pending ∧
      ∀ s', Runs (Retains name fire) (s.applyAt o c now).1 s' →
        ∃ record ∈ s'.schedules[name]?, run ∈ record.history := by
  have ⟨record, stored, run, mem, id, pending⟩ := applyAt_scheduleStep.starts h
  exact ⟨run, id, pending, fun s' r => r.retains stored mem id pending⟩

-- The schedule after its fires up to `n` were triggered by hand.
def triggered (n : Nat) : Store :=
  letI := External.fixed
  (once 0 :: (List.range n).map (.scheduleTrigger "s" · 0)).foldl (fun s c => (s.applyAt .sorted c 0).1) .empty

def statuses (s : Store) (fire : Nat) : Option (List RunStatus) :=
  s.schedules["s"]?.map fun record => (record.history.filter (·.fireId = fire.repr)).map (·.status)

omit [External] in
theorem pending_run_dropped :
    statuses (triggered 1) 0 = some [.pending] ∧ statuses (triggered 100) 0 = some [.pending] ∧
    statuses (triggered 101) 0 = some [] := by
  decide +kernel

omit [External] in
theorem triggered_run_durable :
    letI := External.fixed
    Applied.Starts ⟨.scheduleTrigger "s" 0 0, 0,
      ((triggered 0).applyAt .sorted (.scheduleTrigger "s" 0 0) 0).2.output⟩ "s" 0 ∧
    Runs (Retains "s" 0) (triggered 1) (triggered 2) ∧
    ∃ record ∈ (triggered 2).schedules["s"]?, ∃ run ∈ record.history, run.fireId = "0" ∧ run.status = .pending := by
  let := External.fixed
  have starts : Applied.Starts ⟨.scheduleTrigger "s" 0 0, 0,
      ((triggered 0).applyAt .sorted (.scheduleTrigger "s" 0 0) 0).2.output⟩ "s" 0 :=
    .inr ⟨⟨0, rfl⟩, by decide +kernel⟩
  have r : Runs (Retains "s" 0) (triggered 1) (triggered 2) := by
    refine .apply (o := .sorted) (c := .scheduleTrigger "s" 1 0) ⟨nofun, nofun, fun _ => ?_⟩ .refl
    decide +kernel
  have ⟨run, id, pending, durable⟩ := pending_run_durable starts
  have ⟨record, stored, mem⟩ := durable (triggered 2) r
  exact ⟨starts, r, record, stored, run, mem, id, pending⟩

end Pending

section Settled

-- The result of the fire was recorded, and the schedule was not deleted since.
def Settled (name : String) (fire : Nat) : List Applied → Prop
  | [] => False
  | e :: events => e.Settles name fire ∨ e.command ≠ .scheduleDelete name ∧ Settled name fire events

-- The fire is claimed only if it has no run on record, and neither claimed nor triggered once it is settled.
structure Single (name : String) (fire : Nat) (events : List Applied) (s : Store) (c : Command) (_now : Nat) :
    Prop where
  recordRun : ∀ fireId firedAtMs, c ≠ .scheduleRecordRun name fireId firedAtMs
  claim     : c = .scheduleClaimFire name fire → ∀ record ∈ s.schedules[name]?, record.definition.enabled →
    record.definition.nextFireMs = some fire →
    (∀ run ∈ record.history, run.fireId ≠ fire.repr) ∧ ¬Settled name fire events
  trigger   : ∀ requestedAtMs, c = .scheduleTrigger name fire requestedAtMs →
    ∀ record ∈ s.schedules[name]?, (∀ run ∈ record.history, run.fireId ≠ fire.repr) → ¬Settled name fire events

variable {r : Option ScheduleRecord} {record : ScheduleRecord} {run : ScheduleRun}

-- The fire has at most one run on record, which is not pending once it is settled.
structure Accounted (name : String) (fire : Nat) (events : List Applied) (r : Option ScheduleRecord) :
    Prop where
  sole    : ∀ record ∈ r, record.history.Pairwise fun run run' =>
    run.fireId = fire.repr → run'.fireId ≠ fire.repr
  settled : Settled name fire events →
    ∀ record ∈ r, ∀ run ∈ record.history, run.fireId = fire.repr → run.status ≠ .pending

omit [External] in
theorem Settled.of_cons (h : Settled name fire (e :: events)) (unreported : ¬e.Settles name fire) :
    Settled name fire events :=
  h.resolve_left unreported |>.right

omit [External] in
theorem Accounted.history {r r' : Option ScheduleRecord} (i : Accounted name fire events r)
    (unreported : ¬e.Settles name fire)
    (same : ∀ record' ∈ r', record'.history = [] ∨ ∃ record ∈ r, record'.history = record.history) :
    Accounted name fire (e :: events) r' where
  sole    := by
    intro record' mem
    rcases same record' mem with empty | ⟨record, mem, same⟩
    case inl => simp [empty]
    case inr => exact same ▸ i.sole record mem
  settled := by
    intro settled record' mem
    rcases same record' mem with empty | ⟨record, mem, same⟩
    case inl => simp [empty]
    case inr => exact same ▸ i.settled (settled.of_cons unreported) record mem

omit [External] in
theorem Accounted.push {record' : ScheduleRecord} (i : Accounted name fire events (some record))
    (unreported : ¬e.Settles name fire) (pushed : record'.history = (record.push run).history)
    (new : run.fireId = fire.repr →
      (∀ run ∈ record.history, run.fireId ≠ fire.repr) ∧ ¬Settled name fire events) :
    Accounted name fire (e :: events) (some record') where
  sole    := by
    rintro _ ⟨⟩
    rw [pushed]
    refine .sublist push_history_sublist (List.pairwise_append.mpr ⟨i.sole record rfl, by simp, ?_⟩)
    intro run₁ mem₁ _ mem' id₁ id'
    cases List.mem_singleton.mp mem'
    exact (new id').1 run₁ mem₁ id₁
  settled := by
    rintro settled _ ⟨⟩ run₁ mem₁ id₁
    have settled := settled.of_cons unreported
    rw [pushed] at mem₁
    rcases List.mem_append.mp (push_history_sublist.subset mem₁) with old | last
    case inl => exact i.settled settled record rfl run₁ old id₁
    case inr =>
      cases List.mem_singleton.mp last
      exact absurd settled (new id₁).2

-- The run that a report settles is the only one of its fire.
omit [External] in
theorem Accounted.report {record' : ScheduleRecord} {run' : ScheduleRun} {older newer : List ScheduleRun}
    {fire' : Nat} (i : Accounted name fire events (some record))
    (command : e.command.reportedFire = some (name, fire'))
    (history : record.history = older ++ run :: newer) (id : run.fireId = fire'.repr)
    (history' : record'.history = older ++ run' :: newer) (id' : run'.fireId = fire'.repr)
    (done : run'.status ≠ .pending) :
    Accounted name fire (e :: events) (some record') := by
  have sole := i.sole record rfl
  simp only [history, List.pairwise_append, List.pairwise_cons, List.mem_cons, forall_eq_or_imp, id] at sole
  refine ⟨?sole, ?settled⟩
  case sole =>
    rintro _ ⟨⟩
    simpa only [history', List.pairwise_append, List.pairwise_cons, List.mem_cons, forall_eq_or_imp, id']
      using sole
  case settled =>
    rintro settled _ ⟨⟩ run₁ mem id₁
    have others : run₁ = run' ∨ run₁ ∈ older ∨ run₁ ∈ newer := by
      simp only [history', List.mem_append, List.mem_cons] at mem
      tauto
    by_cases same : fire' = fire
    case pos =>
      subst same
      rcases others with rfl | mem | mem
      case inl => exact done
      case inr.inl => exact absurd rfl ((sole.2.2 run₁ mem).1 id₁)
      case inr.inr => exact absurd id₁ (sole.2.1.1 run₁ mem rfl)
    case neg =>
      have unreported : ¬e.Settles name fire := Applied.not_settles rfl (by simp [command, same])
      refine i.settled (settled.of_cons unreported) record rfl run₁ ?_ id₁
      rcases others with rfl | mem | mem
      case inl => exact absurd (Nat.repr_inj.mp (id'.symm.trans id₁)) same
      case inr.inl | inr.inr => simp [history, mem]

omit [External] in
theorem Accounted.step (i : Accounted name fire events s.schedules[name]?)
    (t : Step name e s.schedules[name]? r') (h : Single name fire events s e.command e.now) :
    Accounted name fire (e :: events) r' := by
  have ⟨recordRun, claim, trigger⟩ := h
  generalize s.schedules[name]? = r at i t claim trigger
  cases t
  case keep _ _ settles => exact i.history (settles fire) fun record mem => .inr ⟨record, mem, rfl⟩
  case upsert record command history =>
    refine i.history (Applied.not_settles command nofun) ?_
    rintro _ ⟨⟩
    cases r
    case none => exact .inl history
    case some record => exact .inr ⟨record, rfl, history⟩
  case recordRun command _ => exact absurd command (recordRun _ _)
  case delete command => exact i.history (Applied.not_settles command nofun) nofun
  case setEnabled record command =>
    refine i.history (Applied.not_settles command nofun) ?_
    rintro _ ⟨⟩
    exact .inr ⟨record, rfl, rfl⟩
  case claim fire' record run command enabled due id status =>
    refine i.push (Applied.not_settles command nofun) rfl fun id' => ?_
    obtain rfl : fire' = fire := Nat.repr_inj.mp (id.symm.trans id')
    exact claim command record rfl enabled due
  case trigger fire' requestedAtMs record run command new id status =>
    refine i.push (Applied.not_settles command nofun) rfl fun id' => ?_
    obtain rfl : fire' = fire := Nat.repr_inj.mp (id.symm.trans id')
    exact ⟨new, trigger requestedAtMs command record rfl new⟩
  case settle command history id _ _ id' settled => exact i.report command history id rfl id' settled
  case duplicate command history id _ settled => exact i.report command history id history id settled

theorem Abides.accounted (h : Abides (Single name fire) .empty events s) :
    Accounted name fire events s.schedules[name]? := by
  induction h
  case start => exact ⟨by simp [Store.empty], nofun⟩
  case apply single _ ih => exact ih.step applyAt_scheduleStep single

theorem result_settles_fire (h : Abides (Single name fire) .empty events s)
    (settled : Settled name fire events) (stored : s.schedules[name]? = some record) :
    ∀ run ∈ record.history, run.fireId = fire.repr → run.status ≠ .pending :=
  h.accounted.settled settled record stored

-- A fire that is triggered by hand before it is claimed has two runs, and only one of them is settled.
def report (fire : Nat) : Command :=
  .scheduleRecordResult "s" fire true 1 none

omit [External] in
theorem settled_fire_pending :
    letI := External.fixed
    ∃ s e events, History (e :: events) s ∧ e.Settles "s" 100 ∧
      ((e :: events).map (·.command)).reverse =
        [once 100, .scheduleTrigger "s" 100 0, .scheduleClaimFire "s" 100, report 100] ∧
      statuses s 100 = some [.pending, .delivered] := by
  let := External.fixed
  have h : History _ _ := .apply .sorted (report 100) 0 (
    .apply .sorted (.scheduleClaimFire "s" 100) 0 (
    .apply .sorted (.scheduleTrigger "s" 100 0) 0 (
    .apply .sorted (once 100) 0 .empty)))
  refine ⟨_, _, _, h, ⟨rfl, ?_⟩, rfl, ?_⟩
  case refine_1 | refine_2 => decide +kernel

omit [External] in
theorem claimed_fire_settled :
    letI := External.fixed
    ∃ s events, Abides (Single "s" 100) .empty events s ∧ Settled "s" 100 events ∧
      statuses s 100 = some [.delivered] ∧
      ∀ record ∈ s.schedules["s"]?, ∀ run ∈ record.history, run.fireId = "100" → run.status ≠ .pending := by
  let := External.fixed
  have h : Abides (Single "s" 100) .empty _ _ := .apply .sorted (report 100) 0 ⟨nofun, nofun, nofun⟩ (
    .apply .sorted (.scheduleClaimFire "s" 100) 0 ⟨nofun, ?claim, nofun⟩ (
    .apply .sorted (once 100) 0 ⟨nofun, nofun, nofun⟩ .start))
  case claim =>
    intro _ record stored _ _
    refine ⟨?_, by simp [Settled, Applied.Settles, once, Command.reportedFire]⟩
    revert record
    decide +kernel
  refine ⟨_, _, h, ?settled, ?statuses, fun record stored => result_settles_fire h ?settled stored⟩
  case settled => exact .inl ⟨rfl, by decide +kernel⟩
  case statuses => decide +kernel

end Settled

end Store
