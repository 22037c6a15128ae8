import FiduciaNode.State.History
import FiduciaNode.State.Theorems.Steps

namespace Command

-- The task, the worker and the token that an operation of an owner presents.
def taskOperation : Command → Option (String × String × Nat)
  | taskProgress name worker token _ _ | taskComplete name worker token _
  | taskFail name worker token _ => some (name, worker, token)
  | _ => none

-- The task that a command names.
def taskName : Command → Option String
  | taskCreate name .. | taskClaim name .. | taskProgress name .. | taskComplete name ..
  | taskFail name .. | taskCancel name => some name
  | _ => none

end Command

namespace Applied

variable (name : String) (e : Applied)

def Claims (worker : String) (token : Nat) : Prop :=
  (∃ ttlMs, e.command = .taskClaim name worker ttlMs) ∧ e.output.field "ok" = some (.bool true) ∧
  e.output.field "fencing_token" = some (.number token)

def Operates (worker : String) (token : Nat) : Prop :=
  e.command.taskOperation = some (name, worker, token) ∧ e.output.field "ok" = some (.bool true)

def Completes : Prop :=
  (∃ worker token result, e.command = .taskComplete name worker token result) ∧
  e.output.field "ok" = some (.bool true)

variable {name : String} {e : Applied}

theorem Completes.operates (h : e.Completes name) : ∃ worker token, e.Operates name worker token := by
  have ⟨⟨worker, token, _, command⟩, ok⟩ := h
  exact ⟨worker, token, by rw [command]; rfl, ok⟩

end Applied

namespace TaskRecord

-- What a command can do to the task of a name and to the counter that the tokens come from.
inductive Step (name : String) (e : Applied) :
    Option TaskRecord × Nat → Option TaskRecord × Nat → Prop
  | keep (claims : ∀ worker token, ¬e.Claims name worker token)
    (operates : ∀ worker token, ¬e.Operates name worker token) (le : n ≤ n') :
    Step name e (r, n) (r, n')
  | create (claims : ∀ worker token, ¬e.Claims name worker token)
    (operates : ∀ worker token, ¬e.Operates name worker token) (token : record.fencingToken = 0)
    (result : record.result = none) (le : n ≤ n') : Step name e (none, n) (some record, n')
  | claim (claims : e.Claims name worker token) (isOpen : record.status.isTerminal = false)
    (newToken : record'.fencingToken = token) (result : record'.result = record.result)
    (gt : n < token) (le : token ≤ n') : Step name e (some record, n) (some record', n')
  | operate (operates : e.Operates name worker record.fencingToken)
    (isOpen : record.status.isTerminal = false) (owner : record.owner = some worker)
    (token : record'.fencingToken = record.fencingToken)
    (result : record'.result = record.result ∧ ¬e.Completes name ∨ record'.status = .completed)
    (le : n ≤ n') : Step name e (some record, n) (some record', n')
  | cancel (claims : ∀ worker token, ¬e.Claims name worker token)
    (operates : ∀ worker token, ¬e.Operates name worker token)
    (isOpen : record.status.isTerminal = false) (token : record'.fencingToken = record.fencingToken)
    (result : record'.result = record.result) (le : n ≤ n') :
    Step name e (some record, n) (some record', n')

variable {name : String} {c : Command} {now n n' : Nat} {v : Value} {e : Applied}
  {r r' : Option TaskRecord} {record : TaskRecord}

theorem unclaimed (h : ∀ worker ttlMs, c ≠ .taskClaim name worker ttlMs) (worker : String) (token : Nat) :
    ¬Applied.Claims name ⟨c, now, v⟩ worker token :=
  fun ⟨⟨ttlMs, claims⟩, _⟩ => h worker ttlMs claims

theorem unoperated (h : c.taskOperation = none) (worker : String) (token : Nat) :
    ¬Applied.Operates name ⟨c, now, v⟩ worker token :=
  fun ⟨op, _⟩ => nomatch h.symm.trans op

theorem Step.unnamed (h : c.taskName ≠ some name) (le : n ≤ n') :
    Step name ⟨c, now, v⟩ (r, n) (r, n') := by
  refine .keep ?claims ?operates le
  case claims =>
    rintro _ _ ⟨⟨_, rfl⟩, _⟩
    exact h rfl
  case operates =>
    rintro worker token ⟨op, _⟩
    cases c <;> cases op <;> exact h rfl

theorem Step.insert {tasks : Tasks} {name' : String} (named : c.taskName = some name) (mem : tasks[name]? = r)
    (t : Step name ⟨c, now, v⟩ (r, n) (some record, n')) (le : n ≤ n') :
    Step name' ⟨c, now, v⟩ (tasks[name']?, n) ((tasks.insert name record)[name']?, n') := by
  rw [HashMap.get_insert]
  split
  case isTrue same => exact same ▸ mem ▸ t
  case isFalse ne => exact .unnamed (fun h => ne (Option.some.inj (named.symm.trans h))) le

-- The sweep before a command may mint tokens.
theorem Step.after_mint (t : Step name e (r, n') (r', m)) (le : n ≤ n') : Step name e (r, n) (r', m) := by
  cases t
  case keep claims operates le' => exact .keep claims operates (le.trans le')
  case create claims operates token result le' =>
    exact .create claims operates token result (le.trans le')
  case claim claims isOpen token result gt le' =>
    exact .claim claims isOpen token result (le.trans_lt gt) le'
  case operate operates isOpen owner token result le' =>
    exact .operate operates isOpen owner token result (le.trans le')
  case cancel claims operates isOpen token result le' =>
    exact .cancel claims operates isOpen token result (le.trans le')

-- A command that is neither a claim nor answered with `ok`.
theorem Step.refused (claims : ∀ worker ttlMs, c ≠ .taskClaim name worker ttlMs)
    (h : v.field "ok" = some (.bool false)) : Step name ⟨c, now, v⟩ (r, n) (r, n) :=
  .keep (unclaimed claims) (by simp [Applied.Operates, h]) (Nat.le_refl _)

end TaskRecord

namespace Tasks

open TaskRecord (unclaimed unoperated)

variable {tasks : Tasks} {name name' worker : String} {now n token : Nat}

theorem applyTaskCreate_step :
    TaskRecord.Step name'
      ⟨.taskCreate name taskType payload deadlineMs, now,
        (tasks.applyTaskCreate name taskType payload deadlineMs).2⟩
      (tasks[name']?, n) ((tasks.applyTaskCreate name taskType payload deadlineMs).1[name']?, n) := by
  simp only [applyTaskCreate]
  split
  case h_1 => exact .keep (unclaimed nofun) (unoperated rfl) (Nat.le_refl _)
  case h_2 mem =>
    exact .insert rfl mem (.create (unclaimed nofun) (unoperated rfl) rfl rfl (Nat.le_refl _)) (Nat.le_refl _)

theorem applyTaskClaim_exhausted :
    TaskRecord.Step name'
      ⟨.taskClaim name worker ttlMs, now, (tasks.applyTaskClaim none now name worker ttlMs).2⟩
      (tasks[name']?, n) ((tasks.applyTaskClaim none now name worker ttlMs).1[name']?, n) := by
  refine .keep ?_ (unoperated rfl) (Nat.le_refl _)
  simp [Applied.Claims, applyTaskClaim, fencingTokensExhausted, json, Value.field, toValue]

theorem applyTaskClaim_step (gt : n < token) :
    TaskRecord.Step name'
      ⟨.taskClaim name worker ttlMs, now, (tasks.applyTaskClaim (some token) now name worker ttlMs).2⟩
      (tasks[name']?, n)
      ((tasks.applyTaskClaim (some token) now name worker ttlMs).1[name']?, token) := by
  have refused (v : Value) (h : v.field "ok" = some (.bool false)) (r) :
      TaskRecord.Step name' ⟨.taskClaim name worker ttlMs, now, v⟩ (r, n) (r, token) :=
    .keep (by simp [Applied.Claims, h]) (by simp [Applied.Operates, h]) (Nat.le_of_lt gt)
  simp only [applyTaskClaim]
  split
  case h_1 => contradiction
  case h_2 => exact refused _ rfl _
  case h_3 token' record h mem =>
    cases h
    split
    case isTrue => exact refused _ rfl _
    case isFalse isOpen =>
      split
      case isTrue => exact refused _ rfl _
      case isFalse =>
        refine .insert rfl mem ?_ (Nat.le_of_lt gt)
        exact .claim ⟨⟨_, rfl⟩, rfl, rfl⟩ (Bool.eq_false_iff.mpr isOpen) rfl rfl gt (Nat.le_refl _)

theorem applyOwned_step {c : Command} {update : TaskRecord → TaskRecord}
    (op : c.taskOperation = some (name, worker, token))
    (kept : ∀ record, (update record).fencingToken = record.fencingToken)
    (result : ∀ record,
      (update record).result = record.result ∧ (∀ w t result, c ≠ .taskComplete name w t result) ∨
      (update record).status = .completed) :
    TaskRecord.Step name' ⟨c, now, (tasks.applyOwned now name worker token answer update).2⟩
      (tasks[name']?, n) ((tasks.applyOwned now name worker token answer update).1[name']?, n) := by
  have claims (name worker : String) (ttlMs : Nat) : c ≠ .taskClaim name worker ttlMs := by
    rintro rfl
    simp [Command.taskOperation] at op
  simp only [applyOwned]
  split
  case h_1 => exact .refused (claims _) rfl
  case h_2 record mem =>
    split
    case isTrue => exact .refused (claims _) rfl
    case isFalse owned =>
      simp only [TaskRecord.ownedNow, Bool.not_eq_true', Bool.not_eq_false, Bool.and_eq_true,
        decide_eq_true_eq] at owned
      have ⟨⟨⟨isOpen, owner⟩, token⟩, _⟩ := owned
      have named : c.taskName = some name := by cases c <;> cases op <;> rfl
      refine .insert named mem (.operate ⟨token ▸ op, rfl⟩ isOpen owner (kept record) ?_ (Nat.le_refl _))
        (Nat.le_refl _)
      refine (result record).imp_left fun ⟨same, h⟩ => ⟨same, ?_⟩
      exact fun ⟨⟨_, _, _, command⟩, _⟩ => h _ _ _ command

theorem applyTaskCancel_step :
    TaskRecord.Step name' ⟨.taskCancel name, now, (tasks.applyTaskCancel name).2⟩
      (tasks[name']?, n) ((tasks.applyTaskCancel name).1[name']?, n) := by
  simp only [applyTaskCancel]
  split
  case h_1 => exact .refused nofun rfl
  case h_2 record mem =>
    split
    case isTrue => exact .keep (unclaimed nofun) (unoperated rfl) (Nat.le_refl _)
    case isFalse isOpen =>
      refine .insert rfl mem (.cancel (unclaimed nofun) (unoperated rfl) ?_ rfl rfl (Nat.le_refl _)) (Nat.le_refl _)
      exact Bool.eq_false_iff.mpr isOpen

end Tasks

namespace TaskRecord

-- What the history of a run says about a task.
structure Owned (name : String) (events : List Applied) (n : Nat) (record : TaskRecord) : Prop where
  bound     : record.fencingToken ≤ n
  claims    : ∀ e ∈ events, ∀ worker token, e.Claims name worker token → token ≤ record.fencingToken
  completed : (∃ e ∈ events, e.Completes name) → record.status = .completed
  result    : record.result.isSome → record.status = .completed

structure Uncreated (name : String) (events : List Applied) : Prop where
  claims    : ∀ e ∈ events, ∀ worker token, ¬e.Claims name worker token
  completed : ∀ e ∈ events, ¬e.Completes name

def Ownership (name : String) (events : List Applied) : Option TaskRecord × Nat → Prop
  | (none, _) => Uncreated name events
  | (some record, n) => Owned name events n record

variable {name : String} {e : Applied} {events : List Applied} {r r' : Option TaskRecord}
  {record record' : TaskRecord} {n n' : Nat}

theorem Owned.cons (i : Owned name events n record) (bound : record'.fencingToken ≤ n')
    (token : record.fencingToken ≤ record'.fencingToken)
    (claims : ∀ worker token, e.Claims name worker token → token ≤ record'.fencingToken)
    (completed : record.status = .completed ∨ e.Completes name → record'.status = .completed)
    (result : record'.result.isSome → record'.status = .completed) :
    Owned name (e :: events) n' record' where
  bound
  claims    := List.forall_mem_cons.mpr
    ⟨claims, fun e mem worker t h => (i.claims e mem worker t h).trans token⟩
  completed := by
    rintro ⟨e', mem, h⟩
    cases List.mem_cons.mp mem
    case inl h' => exact completed (.inr (h' ▸ h))
    case inr mem => exact completed (.inl (i.completed ⟨e', mem, h⟩))
  result

theorem Uncreated.cons (i : Uncreated name events)
    (claims : ∀ worker token, ¬e.Claims name worker token)
    (operates : ∀ worker token, ¬e.Operates name worker token) : Uncreated name (e :: events) where
  claims    := List.forall_mem_cons.mpr ⟨claims, i.claims⟩
  completed := List.forall_mem_cons.mpr ⟨fun h => have ⟨_, _, h⟩ := h.operates; operates _ _ h,
    i.completed⟩

theorem not_completed (isOpen : record.status.isTerminal = false) : record.status ≠ .completed := by
  intro h
  simp [h, TaskStatus.isTerminal] at isOpen

theorem Step.ownership (t : Step name e (r, n) (r', n')) (i : Ownership name events (r, n)) :
    Ownership name (e :: events) (r', n') := by
  cases t
  case keep claims operates le =>
    cases r
    case none => exact Uncreated.cons i claims operates
    case some record =>
      refine Owned.cons i (i.bound.trans le) (Nat.le_refl _) ?_ ?_ i.result
      case refine_1 => exact fun _ _ h => (claims _ _ h).elim
      case refine_2 =>
        rintro (h | h)
        case inl => exact h
        case inr =>
          have ⟨_, _, h⟩ := h.operates
          exact (operates _ _ h).elim
  case create record claims operates token result le =>
    have i := Uncreated.cons i claims operates
    exact {
      bound     := token ▸ Nat.zero_le _
      claims    := fun e mem worker t h => (i.claims e mem worker t h).elim
      completed := fun ⟨e, mem, h⟩ => (i.completed e mem h).elim
      result    := by simp [result]
    }
  case claim worker token record record' claims isOpen newToken result gt le =>
    have ⟨⟨_, command⟩, _, field⟩ := claims
    have := i.bound
    refine Owned.cons i (newToken ▸ le) (by omega) ?_ ?_ ?_
    case refine_1 =>
      rintro worker' token' ⟨_, _, field'⟩
      have : token' = token := by simpa [field] using field'.symm
      omega
    case refine_2 =>
      rintro (h | ⟨⟨_, _, _, h⟩, _⟩)
      case inl => exact (not_completed isOpen h).elim
      case inr => cases command.symm.trans h
    case refine_3 =>
      intro h
      exact (not_completed isOpen (i.result (result ▸ h))).elim
  case operate worker record record' operates isOpen owner token result le =>
    have := i.bound
    refine Owned.cons i (by omega) (by omega) ?_ ?_ ?_
    case refine_1 =>
      rintro worker' token' ⟨⟨_, command⟩, _⟩
      simp [Applied.Operates, command, Command.taskOperation] at operates
    case refine_2 =>
      rintro (h | h)
      case inl => exact (not_completed isOpen h).elim
      case inr => exact result.resolve_left fun not => not.2 h
    case refine_3 =>
      intro h
      rcases result with ⟨same, _⟩ | completed
      case inl => exact (not_completed isOpen (i.result (same ▸ h))).elim
      case inr => exact completed
  case cancel record record' claims operates isOpen token result le =>
    have := i.bound
    refine Owned.cons i (by omega) (by omega) ?_ ?_ ?_
    case refine_1 => exact fun _ _ h => (claims _ _ h).elim
    case refine_2 =>
      rintro (h | h)
      case inl => exact (not_completed isOpen h).elim
      case inr =>
        have ⟨_, _, h⟩ := h.operates
        exact (operates _ _ h).elim
    case refine_3 =>
      intro h
      exact (not_completed isOpen (i.result (result ▸ h))).elim

-- A completed, failed or cancelled task is final.
theorem Step.final (t : Step name e (r, n) (r', n')) (mem : r = some record)
    (h : record.status.isTerminal) : r' = some record := by
  cases t
  case keep => exact mem
  case create => contradiction
  case claim isOpen _ _ _ _ =>
    cases mem
    simp [h] at isOpen
  case operate isOpen _ _ _ _ =>
    cases mem
    simp [h] at isOpen
  case cancel isOpen _ _ _ =>
    cases mem
    simp [h] at isOpen

theorem Step.operates (t : Step name e (r, n) (r', n')) (h : e.Operates name worker token) :
    ∃ record, r = some record ∧ record.status.isTerminal = false ∧ record.owner = some worker ∧
      record.fencingToken = token := by
  have ⟨op, _⟩ := h
  cases t
  case keep operates _ => exact (operates _ _ h).elim
  case create operates _ _ _ => exact (operates _ _ h).elim
  case claim claims _ _ _ _ _ =>
    have ⟨⟨_, command⟩, _⟩ := claims
    simp [command, Command.taskOperation] at op
  case operate operates isOpen owner _ _ _ =>
    cases operates.1.symm.trans op
    exact ⟨_, rfl, isOpen, owner, rfl⟩
  case cancel operates _ _ _ _ => exact (operates _ _ h).elim

theorem Step.claims (t : Step name e (r, n) (r', n')) (h : e.Claims name worker token) :
    r.isSome ∧ n < token := by
  have ⟨⟨_, command⟩, _, field⟩ := h
  cases t
  case keep claims _ _ => exact (claims _ _ h).elim
  case create claims _ _ _ _ => exact (claims _ _ h).elim
  case claim claims _ _ _ gt _ =>
    have ⟨_, _, field'⟩ := claims
    rw [field] at field'
    cases field'
    exact ⟨rfl, gt⟩
  case operate operates _ _ _ _ _ => simp [Applied.Operates, command, Command.taskOperation] at operates
  case cancel claims _ _ _ _ _ => exact (claims _ _ h).elim

end TaskRecord

namespace Store

variable {s s' : Store} {o : IterOrder} {c : Command} {now revision : Nat} {name : String}

theorem prepare_tasks : (s.prepare o c now).tasks = s.tasks := by
  simp only [prepare]
  split <;> rfl

theorem applyTaskClaim_tasks :
    TaskRecord.Step name
      ⟨.taskClaim name' worker ttlMs, now, (s.applyTaskClaim now name' worker ttlMs).2⟩
      (s.tasks[name]?, s.fencing.nextFencingToken)
      ((s.applyTaskClaim now name' worker ttlMs).1.tasks[name]?,
        (s.applyTaskClaim now name' worker ttlMs).1.fencing.nextFencingToken) := by
  simp only [applyTaskClaim]
  split
  case h_1 => exact Tasks.applyTaskClaim_exhausted
  case h_2 token f next =>
    obtain ⟨ht, _, hf⟩ := FencingCounter.nextToken_eq_some_iff.mp next
    subst hf
    exact Tasks.applyTaskClaim_step (by omega)

-- Stated for any result, so that the bound on the tokens of an offer is never evaluated.
theorem onHandoffs_tasks {r : Handoffs × Value} : (s.onHandoffs r).1.tasks = s.tasks :=
  rfl

variable [External]

-- A command on no task leaves the tasks alone.
theorem applyCommand_tasks_frame (h : c.taskName = none) :
    (s.applyCommand o revision now c).1.tasks = s.tasks := by
  cases c <;> try contradiction
  case handoffOffer => exact onHandoffs_tasks
  case activateCommandProtocol =>
    simp only [applyCommand, applyActivateCommandProtocol]
    split
    case isTrue => rfl
    case isFalse => split <;> rfl
  all_goals rfl

theorem applyCommand_tasks (le : s.fencing.nextFencingToken ≤
      (s.applyCommand o revision now c).1.fencing.nextFencingToken) :
    TaskRecord.Step name ⟨c, now, (s.applyCommand o revision now c).2⟩
      (s.tasks[name]?, s.fencing.nextFencingToken)
      ((s.applyCommand o revision now c).1.tasks[name]?,
        (s.applyCommand o revision now c).1.fencing.nextFencingToken) := by
  by_cases h : c.taskName = none
  case pos =>
    rw [applyCommand_tasks_frame h]
    exact .unnamed (by simp [h]) le
  case neg =>
    cases c <;> try contradiction
    case taskCreate => exact Tasks.applyTaskCreate_step
    case taskClaim => exact applyTaskClaim_tasks
    case taskProgress =>
      exact Tasks.applyOwned_step rfl (fun _ => rfl) fun _ => .inl ⟨rfl, by simp⟩
    case taskComplete =>
      exact Tasks.applyOwned_step rfl (fun _ => rfl) fun _ => .inr rfl
    case taskFail =>
      refine Tasks.applyOwned_step rfl (fun _ => ?_) fun _ => .inl ⟨?_, by simp⟩ <;> split <;> rfl
    case taskCancel => exact Tasks.applyTaskCancel_step

theorem applyAt_tasks :
    TaskRecord.Step name ⟨c, now, (s.applyAt o c now).2.output⟩
      (s.tasks[name]?, s.fencing.nextFencingToken)
      ((s.applyAt o c now).1.tasks[name]?, (s.applyAt o c now).1.fencing.nextFencingToken) := by
  have e₁ : Steps c now s (s.prepare o c now) := prepare_steps
  have e₂ : Steps c now (s.prepare o c now) (s.applyAt o c now).1 :=
    applyCommand_steps prepare_queueLive prepare_queuesLive
  have t : TaskRecord.Step name _ _ _ := applyCommand_tasks (FencingCounter.Steps.le e₂.fencing)
  exact (prepare_tasks (s := s) ▸ t).after_mint (FencingCounter.Steps.le e₁.fencing)

theorem History.ownership (h : History events s) :
    TaskRecord.Ownership name events (s.tasks[name]?, s.fencing.nextFencingToken) := by
  induction h
  case empty =>
    simp only [Store.empty, Std.ExtTreeMap.getElem?_empty]
    exact ⟨by simp, by simp⟩
  case apply ih => exact applyAt_tasks.ownership ih

theorem Continues.task_final (r : Continues s s') {record : TaskRecord}
    (mem : s.tasks[name]? = some record) (h : record.status.isTerminal) :
    s'.tasks[name]? = some record := by
  induction r
  case refl => exact mem
  case apply ih => exact applyAt_tasks.final ih h

variable {events : List Applied}

theorem History.owned {record : TaskRecord} (h : History events s)
    (mem : s.tasks[name]? = some record) :
    TaskRecord.Owned name events s.fencing.nextFencingToken record := by
  have i : TaskRecord.Ownership name _ _ := h.ownership
  rwa [mem] at i

theorem History.claims_fence (h : History events s) (name : String) :
    events.Pairwise fun later earlier => ∀ worker token, earlier.Claims name worker token →
      ∀ worker' token', (later.Claims name worker' token' → token < token') ∧
        (later.Operates name worker' token' → token ≤ token') := by
  induction h
  case empty => exact .nil
  case apply s o c now h ih =>
    refine .cons (fun e mem worker token claims worker' token' => ⟨fun claims' => ?_, fun op => ?_⟩) ih
    case refine_1 =>
      have ⟨created, lt⟩ := applyAt_tasks.claims claims'
      have ⟨record, before⟩ := Option.isSome_iff_exists.mp created
      have i := h.owned before
      exact ((i.claims e mem worker token claims).trans i.bound).trans_lt lt
    case refine_2 =>
      have ⟨record, before, _, _, eq⟩ := applyAt_tasks.operates op
      exact eq ▸ (h.owned before).claims e mem worker token claims

theorem History.completes_once (h : History events s) (name : String) :
    events.Pairwise fun e e' => ¬(e.Completes name ∧ e'.Completes name) := by
  induction h
  case empty => exact .nil
  case apply s o c now h ih =>
    refine .cons (fun e mem ⟨h₁, h₂⟩ => ?_) ih
    have ⟨_, _, op⟩ := h₁.operates
    have ⟨record, before, isOpen, _⟩ := applyAt_tasks.operates op
    exact TaskRecord.not_completed isOpen ((h.owned before).completed ⟨e, mem, h₂⟩)

-- At every point of a run one worker with one token can operate on a task. After a claim no earlier
-- token is accepted, whatever the timestamps are. A finished task and a written result stay.
theorem History.task_ownership (h : History events s) (name : String) :
    (∀ o₁ c₁ now₁ worker₁ token₁ o₂ c₂ now₂ worker₂ token₂,
      Applied.Operates name ⟨c₁, now₁, (s.applyAt o₁ c₁ now₁).2.output⟩ worker₁ token₁ →
      Applied.Operates name ⟨c₂, now₂, (s.applyAt o₂ c₂ now₂).2.output⟩ worker₂ token₂ →
      worker₁ = worker₂ ∧ token₁ = token₂) ∧
    (events.Pairwise fun later earlier => ∀ worker token, earlier.Claims name worker token →
      ∀ worker' token', (later.Claims name worker' token' → token < token') ∧
        (later.Operates name worker' token' → token ≤ token')) ∧
    (∀ record, s.tasks[name]? = some record → record.status.isTerminal →
      ∀ s', Continues s s' → s'.tasks[name]? = some record) ∧
    (events.Pairwise fun e e' => ¬(e.Completes name ∧ e'.Completes name)) ∧
    (∀ record result, s.tasks[name]? = some record → record.result = some result →
      ∀ s', Continues s s' →
        ∃ record', s'.tasks[name]? = some record' ∧ record'.result = some result) := by
  refine ⟨?owner, h.claims_fence name, ?final, h.completes_once name, ?result⟩
  case owner =>
    intro o₁ c₁ now₁ worker₁ token₁ o₂ c₂ now₂ worker₂ token₂ h₁ h₂
    have ⟨record, mem, _, owner₁, eq₁⟩ := applyAt_tasks.operates h₁
    have ⟨record', mem', _, owner₂, eq₂⟩ := applyAt_tasks.operates h₂
    cases mem.symm.trans mem'
    exact ⟨Option.some.inj (owner₁.symm.trans owner₂), eq₁.symm.trans eq₂⟩
  case final => exact fun record mem terminal s' r => r.task_final mem terminal
  case result =>
    intro record result mem written s' r
    have completed := (h.owned mem).result (by simp [written])
    exact ⟨record, r.task_final mem (by simp [completed, TaskStatus.isTerminal]), written⟩

-- A worker whose lease ran out is fenced off by the next claim, also at an earlier time.
omit [External] in
theorem task_ownership_reclaimed :
    letI := External.fixed
    let s₁ := (Store.empty.applyAt .sorted (.taskCreate "t" "job" .null none) 0).1
    let s₂ := (s₁.applyAt .sorted (.taskClaim "t" "w1" 10) 5).1
    let s₃ := (s₂.applyAt .sorted (.taskClaim "t" "w2" 10) 20).1
    (s₃.applyAt .sorted (.taskComplete "t" "w2" 2 .null) 21).2.output.field "ok" = some (.bool true) ∧
    ∀ now, (s₃.applyAt .sorted (.taskComplete "t" "w1" 1 .null) now).2.output.field "ok" ≠
      some (.bool true) := by
  let := External.fixed
  intro s₁ s₂ s₃
  have ok : (s₃.applyAt .sorted (.taskComplete "t" "w2" 2 .null) 21).2.output.field "ok" =
    some (.bool true) := Value.flag_iff.mp (by decide +kernel)
  have ⟨events, h⟩ : ∃ events, History events s₃ :=
    ⟨_, .apply _ _ _ (.apply _ _ _ (.apply _ _ _ .empty))⟩
  clear_value s₃
  refine ⟨ok, fun now ok' => ?_⟩
  have ⟨_, token⟩ := (h.task_ownership "t").1
    .sorted (.taskComplete "t" "w2" 2 .null) 21 "w2" 2
    .sorted (.taskComplete "t" "w1" 1 .null) now "w1" 1 ⟨rfl, ok⟩ ⟨rfl, ok'⟩
  exact absurd token (by decide)

end Store
