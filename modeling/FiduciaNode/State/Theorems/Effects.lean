import FiduciaNode.State.History

namespace Command

-- The effect that a command names.
def effectName : Command → Option String
  | effectPrepare name .. | effectApprove name _ | effectCommit name _ | effectAbort name => some name
  | _ => none

end Command

namespace Applied

variable (name : String) (e : Applied)

def Prepares (required : Nat) : Prop :=
  (∃ effectType payload risk key, e.command = .effectPrepare name effectType payload risk key required) ∧
  e.output.field "created" = some (.bool true)

def Approves (principal : String) : Prop :=
  e.command = .effectApprove name principal ∧ e.output.field "ok" = some (.bool true)

def Commits : Prop :=
  (∃ result, e.command = .effectCommit name result) ∧
  e.output.field "committed" = some (.bool true)

def Aborts : Prop :=
  e.command = .effectAbort name ∧ e.output.field "ok" = some (.bool true)

end Applied

namespace EffectRecord

-- What a command can do to the effect of a name.
inductive Step (name : String) (e : Applied) : Option EffectRecord → Option EffectRecord → Prop
  | keep (prepares : ∀ required, ¬e.Prepares name required) (commits : ¬e.Commits name)
    (aborts : ¬e.Aborts name) : Step name e r r
  | prepare (prepares : e.Prepares name record.requiredApprovals) (approvals : record.approvals = ∅)
    (status : record.status = if record.requiredApprovals = 0 then .approved else .prepared) :
    Step name e none (some record)
  | approve (approves : e.Approves name principal) (isOpen : record.status.isTerminal = false)
    (required : record'.requiredApprovals = record.requiredApprovals)
    (approvals : record'.approvals = record.approvals.insert principal)
    (status : record'.status =
      if record'.approvals.size ≥ record.requiredApprovals then .approved else record.status) :
    Step name e (some record) (some record')
  | commit (commits : e.Commits name) (approved : record.status = .approved)
    (required : record'.requiredApprovals = record.requiredApprovals)
    (approvals : record'.approvals = record.approvals) (status : record'.status = .committed) :
    Step name e (some record) (some record')
  | abort (aborts : e.Aborts name) (isOpen : record.status.isTerminal = false)
    (required : record'.requiredApprovals = record.requiredApprovals)
    (approvals : record'.approvals = record.approvals) (status : record'.status = .aborted) :
    Step name e (some record) (some record')

end EffectRecord

namespace EffectRecord

variable {name : String} {c : Command} {now : Nat} {v : Value} {r r' : Option EffectRecord}

-- A command on another effect, or on none.
theorem Step.unnamed (h : c.effectName ≠ some name) : Step name ⟨c, now, v⟩ r r := by
  refine .keep ?prepares ?commits ?aborts
  case prepares =>
    rintro _ ⟨⟨_, _, _, _, rfl⟩, _⟩
    exact h rfl
  case commits =>
    rintro ⟨⟨_, rfl⟩, _⟩
    exact h rfl
  case aborts =>
    rintro ⟨rfl, _⟩
    exact h rfl

-- What the history of a run says about an effect that it prepared.
structure Escrowed (name : String) (events : List Applied) (record : EffectRecord) : Prop where
  prepared  : ∃ e ∈ events, e.Prepares name record.requiredApprovals
  required  : ∀ e ∈ events, ∀ required, e.Prepares name required → required = record.requiredApprovals
  approved  : ∀ principal ∈ record.approvals, ∃ e ∈ events, e.Approves name principal
  enough    : record.status = .approved → record.requiredApprovals ≤ record.approvals.size
  committed : record.status ≠ .committed → ∀ e ∈ events, ¬e.Commits name
  aborted   : record.status ≠ .aborted → ∀ e ∈ events, ¬e.Aborts name

structure Unprepared (name : String) (events : List Applied) : Prop where
  prepared  : ∀ e ∈ events, ∀ required, ¬e.Prepares name required
  committed : ∀ e ∈ events, ¬e.Commits name
  aborted   : ∀ e ∈ events, ¬e.Aborts name

def Escrow (name : String) (events : List Applied) : Option EffectRecord → Prop
  | none => Unprepared name events
  | some record => Escrowed name events record

variable {events : List Applied} {e : Applied} {record record' : EffectRecord}

-- An event makes a difference if the record is new or changes one of its fields.
theorem Escrowed.cons (i : Escrowed name events record)
    (required : record'.requiredApprovals = record.requiredApprovals)
    (prepares : ∀ required, ¬e.Prepares name required)
    (approved : ∀ principal ∈ record'.approvals,
      principal ∈ record.approvals ∨ e.Approves name principal)
    (enough : record'.status = .approved → record'.requiredApprovals ≤ record'.approvals.size)
    (committed : record'.status ≠ .committed → record.status ≠ .committed ∧ ¬e.Commits name)
    (aborted : record'.status ≠ .aborted → record.status ≠ .aborted ∧ ¬e.Aborts name) :
    Escrowed name (e :: events) record' where
  prepared :=
    have ⟨e', mem, h⟩ := i.prepared
    ⟨e', .tail _ mem, required ▸ h⟩
  required e' mem n h := by
    cases List.mem_cons.mp mem
    case inl h' => exact (prepares n (h' ▸ h)).elim
    case inr mem => exact (i.required e' mem n h).trans required.symm
  approved principal mem := by
    cases approved principal mem
    case inl mem =>
      have ⟨e', mem, h⟩ := i.approved principal mem
      exact ⟨e', .tail _ mem, h⟩
    case inr h => exact ⟨e, .head _, h⟩
  enough
  committed h := by
    have ⟨h, not⟩ := committed h
    exact List.forall_mem_cons.mpr ⟨not, i.committed h⟩
  aborted h := by
    have ⟨h, not⟩ := aborted h
    exact List.forall_mem_cons.mpr ⟨not, i.aborted h⟩

theorem Unprepared.cons (i : Unprepared name events) (prepares : ∀ required, ¬e.Prepares name required)
    (commits : ¬e.Commits name) (aborts : ¬e.Aborts name) : Unprepared name (e :: events) where
  prepared  := List.forall_mem_cons.mpr ⟨prepares, i.prepared⟩
  committed := List.forall_mem_cons.mpr ⟨commits, i.committed⟩
  aborted   := List.forall_mem_cons.mpr ⟨aborts, i.aborted⟩

theorem Unprepared.prepare (i : Unprepared name events)
    (prepares : e.Prepares name record.requiredApprovals) (approvals : record.approvals = ∅)
    (status : record.status = if record.requiredApprovals = 0 then .approved else .prepared) :
    Escrowed name (e :: events) record where
  prepared  := ⟨e, .head _, prepares⟩
  required  := by
    have ⟨⟨_, _, _, _, h₁⟩, _⟩ := prepares
    refine List.forall_mem_cons.mpr ⟨?_, fun e mem n h => (i.prepared e mem n h).elim⟩
    rintro n ⟨⟨_, _, _, _, h₂⟩, _⟩
    cases h₁.symm.trans h₂
    rfl
  approved  := by simp [approvals]
  enough    := by grind
  committed := by
    have ⟨⟨_, _, _, _, h₁⟩, _⟩ := prepares
    refine fun _ => List.forall_mem_cons.mpr ⟨?_, i.committed⟩
    rintro ⟨⟨_, h₂⟩, _⟩
    cases h₁.symm.trans h₂
  aborted   := by
    have ⟨⟨_, _, _, _, h₁⟩, _⟩ := prepares
    refine fun _ => List.forall_mem_cons.mpr ⟨?_, i.aborted⟩
    rintro ⟨h₂, _⟩
    cases h₁.symm.trans h₂

theorem Step.escrow (t : Step name e r r') (i : Escrow name events r) : Escrow name (e :: events) r' := by
  cases t
  case keep prepares commits aborts =>
    cases r
    case none => exact Unprepared.cons i prepares commits aborts
    case some record =>
      exact Escrowed.cons i rfl prepares (fun _ h => .inl h) i.enough (⟨·, commits⟩) (⟨·, aborts⟩)
  case prepare prepares approvals status => exact Unprepared.prepare i prepares approvals status
  case approve principal record record' approves isOpen required approvals status =>
    have isOpen : record.status ≠ .committed ∧ record.status ≠ .aborted := by
      constructor <;> (intro h; simp [h, EffectStatus.isTerminal] at isOpen)
    have ⟨command, _⟩ := approves
    refine Escrowed.cons i required ?prepares ?approved ?enough ?committed ?aborted
    case prepares => simp [Applied.Prepares, command]
    case approved =>
      intro p mem
      rw [approvals, Std.ExtTreeSet.mem_insert] at mem
      cases mem
      case inl h => exact .inr (Std.LawfulEqCmp.eq_of_compare h ▸ approves)
      case inr mem => exact .inl mem
    case enough =>
      have := i.enough
      have : record.approvals.size ≤ record'.approvals.size :=
        approvals ▸ Std.ExtTreeSet.size_le_size_insert
      grind
    case committed => exact fun _ => ⟨isOpen.1, by simp [Applied.Commits, command]⟩
    case aborted => exact fun _ => ⟨isOpen.2, by simp [Applied.Aborts, command]⟩
  case commit record record' commits approved required approvals status =>
    have ⟨⟨_, command⟩, _⟩ := commits
    refine Escrowed.cons i required ?prepares ?approved ?enough ?committed ?aborted
    case prepares => simp [Applied.Prepares, command]
    case approved => exact fun _ mem => .inl (approvals ▸ mem)
    case enough | committed => simp [status]
    case aborted => exact fun _ => ⟨by simp [approved], by simp [Applied.Aborts, command]⟩
  case abort record record' aborts isOpen required approvals status =>
    have ⟨command, _⟩ := aborts
    refine Escrowed.cons i required ?prepares ?approved ?enough ?committed ?aborted
    case prepares => simp [Applied.Prepares, command]
    case approved => exact fun _ mem => .inl (approvals ▸ mem)
    case enough => simp [status]
    case committed =>
      refine fun _ => ⟨?_, by simp [Applied.Commits, command]⟩
      intro h
      simp [h, EffectStatus.isTerminal] at isOpen
    case aborted => simp [status]

-- A committed or an aborted effect is final.
theorem Step.final (t : Step name e r r') (mem : r = some record) (h : record.status.isTerminal) :
    r' = some record := by
  cases t
  case keep => exact mem
  case prepare => contradiction
  case approve isOpen _ _ _ =>
    cases mem
    simp [h] at isOpen
  case commit approved _ _ _ =>
    cases mem
    simp [approved, EffectStatus.isTerminal] at h
  case abort isOpen _ _ _ =>
    cases mem
    simp [h] at isOpen

theorem Step.commits (t : Step name e r r') (h : e.Commits name) :
    ∃ record record', r = some record ∧ record.status = .approved ∧ r' = some record' ∧
      record'.status = .committed := by
  have ⟨⟨_, command⟩, _⟩ := h
  cases t
  case keep commits _ => contradiction
  case prepare prepares _ _ =>
    have ⟨⟨_, _, _, _, h⟩, _⟩ := prepares
    cases h.symm.trans command
  case approve approves _ _ _ _ => cases approves.1.symm.trans command
  case commit record record' approved _ _ status => exact ⟨_, _, rfl, approved, rfl, status⟩
  case abort aborts _ _ _ _ => cases aborts.1.symm.trans command

theorem Step.aborts (t : Step name e r r') (h : e.Aborts name) :
    ∃ record', r' = some record' ∧ record'.status = .aborted := by
  have ⟨command, _⟩ := h
  cases t
  case keep aborts => contradiction
  case prepare prepares _ _ =>
    have ⟨⟨_, _, _, _, h⟩, _⟩ := prepares
    cases h.symm.trans command
  case approve approves _ _ _ _ => cases approves.1.symm.trans command
  case commit commits _ _ _ _ =>
    have ⟨⟨_, h⟩, _⟩ := commits
    cases h.symm.trans command
  case abort status => exact ⟨_, rfl, status⟩

end EffectRecord

namespace Effects

variable {effects : Effects} {name name' principal : String} {now : Nat}

theorem applyEffectPrepare_step :
    EffectRecord.Step name'
      ⟨.effectPrepare name effectType payload risk key required, now,
        (effects.applyEffectPrepare name effectType payload risk key required).2⟩
      effects[name']? (effects.applyEffectPrepare name effectType payload risk key required).1[name']? := by
  simp only [applyEffectPrepare]
  split
  case h_1 =>
    exact .keep (by simp [Applied.Prepares, json, Value.field, toValue]) (by simp [Applied.Commits])
      (by simp [Applied.Aborts])
  case h_2 mem =>
    by_cases h : name = name'
    case neg =>
      simp only [HashMap.get_insert, h, ↓reduceIte]
      exact .unnamed (by simpa [Command.effectName] using h)
    case pos =>
      subst h
      simp only [HashMap.get_insert, ↓reduceIte, mem]
      refine .prepare ⟨⟨_, _, _, _, rfl⟩, ?_⟩ rfl rfl
      simp [json, Value.field, toValue]

-- Approving and aborting differ in the command and in the update only.
theorem applyOpen_step {update : EffectRecord → EffectRecord} {c : Command}
    (unnamed : ∀ v, name ≠ name' → ∀ r, EffectRecord.Step name' ⟨c, now, v⟩ r r)
    (refused : ∀ v, v.field "ok" = some (.bool false) → ∀ r, EffectRecord.Step name' ⟨c, now, v⟩ r r)
    (accepted : ∀ v record, v.field "ok" = some (.bool true) → record.status.isTerminal = false →
      EffectRecord.Step name ⟨c, now, v⟩ (some record)
        (some { update record with generation := record.generation + 1 })) :
    EffectRecord.Step name' ⟨c, now, (effects.applyOpen name update).2⟩ effects[name']?
      (effects.applyOpen name update).1[name']? := by
  simp only [applyOpen]
  split
  case h_1 => exact refused _ rfl _
  case h_2 record mem =>
    split
    case isTrue => exact refused _ rfl _
    case isFalse isOpen =>
      by_cases h : name = name'
      case neg =>
        simp only [HashMap.get_insert, h, ↓reduceIte]
        exact unnamed _ h _
      case pos =>
        subst h
        simp only [HashMap.get_insert, ↓reduceIte, mem]
        exact accepted _ _ rfl (Bool.eq_false_iff.mpr isOpen)

theorem applyEffectApprove_step :
    EffectRecord.Step name' ⟨.effectApprove name principal, now,
        (effects.applyEffectApprove name principal).2⟩
      effects[name']? (effects.applyEffectApprove name principal).1[name']? := by
  refine applyOpen_step ?unnamed ?refused ?accepted
  case unnamed => exact fun _ h _ => .unnamed (by simpa [Command.effectName] using h)
  case refused =>
    intro _ _ _
    exact .keep (by simp [Applied.Prepares]) (by simp [Applied.Commits]) (by simp [Applied.Aborts])
  case accepted => exact fun _ _ ok isOpen => .approve ⟨rfl, ok⟩ isOpen rfl rfl rfl

theorem applyEffectAbort_step :
    EffectRecord.Step name' ⟨.effectAbort name, now, (effects.applyEffectAbort name).2⟩
      effects[name']? (effects.applyEffectAbort name).1[name']? := by
  refine applyOpen_step ?unnamed ?refused ?accepted
  case unnamed => exact fun _ h _ => .unnamed (by simpa [Command.effectName] using h)
  case refused =>
    intro _ h _
    exact .keep (by simp [Applied.Prepares]) (by simp [Applied.Commits]) (by simp [Applied.Aborts, h])
  case accepted => exact fun _ _ ok isOpen => .abort ⟨rfl, ok⟩ isOpen rfl rfl rfl

theorem applyEffectCommit_step :
    EffectRecord.Step name'
      ⟨.effectCommit name result, now, (effects.applyEffectCommit name result).2⟩
      effects[name']? (effects.applyEffectCommit name result).1[name']? := by
  have refused (v : Value) (h : v.field "committed" ≠ some (.bool true)) (r) :
      EffectRecord.Step name' ⟨.effectCommit name result, now, v⟩ r r :=
    .keep (by simp [Applied.Prepares]) (by simp [Applied.Commits, h]) (by simp [Applied.Aborts])
  simp only [applyEffectCommit]
  split
  case h_1 => exact refused _ (by simp [notFound, json, Value.field]) _
  case h_2 record mem =>
    split
    case h_1 => exact refused _ (by simp [json, Value.field, toValue]) _
    case h_2 | h_3 => exact refused _ (by simp [json, Value.field]) _
    case h_4 approved =>
      by_cases h : name = name'
      case neg =>
        simp only [HashMap.get_insert, h, ↓reduceIte]
        exact .unnamed (by simpa [Command.effectName] using h)
      case pos =>
        subst h
        simp only [HashMap.get_insert, ↓reduceIte, mem]
        refine .commit ⟨⟨_, rfl⟩, ?_⟩ approved rfl rfl rfl
        simp [json, Value.field, toValue]

end Effects

namespace Store

variable [External] {s s' : Store} {o : IterOrder} {c : Command} {now revision : Nat} {name : String}

omit [External] in
theorem prepare_effects : (s.prepare o c now).effects = s.effects := by
  simp only [prepare]
  split <;> rfl

-- Stated for any result, so that the bound on the tokens of an offer is never evaluated.
omit [External] in
theorem onHandoffs_effects {r : Handoffs × Value} (h : c.effectName ≠ some name) :
    EffectRecord.Step name ⟨c, now, (s.onHandoffs r).2⟩ s.effects[name]?
      (s.onHandoffs r).1.effects[name]? :=
  .unnamed h

theorem applyCommand_effects :
    EffectRecord.Step name ⟨c, now, (s.applyCommand o revision now c).2⟩ s.effects[name]?
      (s.applyCommand o revision now c).1.effects[name]? := by
  cases c
  case effectPrepare => exact Effects.applyEffectPrepare_step
  case effectApprove => exact Effects.applyEffectApprove_step
  case effectCommit => exact Effects.applyEffectCommit_step
  case effectAbort => exact Effects.applyEffectAbort_step
  case handoffOffer => exact onHandoffs_effects nofun
  case taskClaim =>
    simp only [applyCommand, applyTaskClaim]
    split <;> exact .unnamed nofun
  case activateCommandProtocol =>
    simp only [applyCommand, applyActivateCommandProtocol]
    split
    case isTrue => exact .unnamed nofun
    case isFalse => split <;> exact .unnamed nofun
  all_goals exact .unnamed nofun

theorem applyAt_effects :
    EffectRecord.Step name ⟨c, now, (s.applyAt o c now).2.output⟩ s.effects[name]?
      (s.applyAt o c now).1.effects[name]? :=
  prepare_effects (s := s) ▸ applyCommand_effects

theorem History.escrow (h : History events s) : EffectRecord.Escrow name events s.effects[name]? := by
  induction h
  case empty =>
    simp only [Store.empty, Std.ExtTreeMap.getElem?_empty]
    exact ⟨by simp, by simp, by simp⟩
  case apply ih => exact applyAt_effects.escrow ih

theorem Continues.effect_final (r : Continues s s') {record : EffectRecord}
    (mem : s.effects[name]? = some record) (h : record.status.isTerminal) :
    s'.effects[name]? = some record := by
  induction r
  case refl => exact mem
  case apply ih => exact applyAt_effects.final ih h

variable {events later earlier : List Applied} {e : Applied}

theorem History.commits_once (h : History events s) (name : String) :
    events.Pairwise fun e e' => ¬(e.Commits name ∧ e'.Commits name) := by
  induction h
  case empty => exact .nil
  case apply s o c now h ih =>
    refine .cons (fun e mem ⟨h₁, h₂⟩ => ?_) ih
    have ⟨record, _, before, approved, _⟩ := applyAt_effects.commits h₁
    have i : EffectRecord.Escrowed name _ record := before ▸ h.escrow
    exact i.committed (by simp [approved]) e mem h₂

theorem History.commits_approved (h : History (e :: earlier) s) (commits : e.Commits name) :
    (∃ required, ∃ e' ∈ earlier, e'.Prepares name required) ∧
    (∀ required, (∃ e' ∈ earlier, e'.Prepares name required) →
      ∃ principals : List String, principals.Nodup ∧ required ≤ principals.length ∧
        ∀ principal ∈ principals, ∃ e' ∈ earlier, e'.Approves name principal) ∧
    (∀ e' ∈ earlier, ¬e'.Aborts name) := by
  cases h
  case apply s o c now h =>
    have ⟨record, _, before, approved, _⟩ := applyAt_effects.commits commits
    have i : EffectRecord.Escrowed name _ record := before ▸ h.escrow
    refine ⟨⟨_, i.prepared⟩, ?_, i.aborted (by simp [approved])⟩
    intro required ⟨e', mem, prepares⟩
    refine ⟨record.approvals.toList, ?nodup, ?enough, ?approved⟩
    case nodup =>
      refine Std.ExtTreeSet.distinct_toList.imp fun ne h => ne ?_
      exact h ▸ Std.ReflCmp.compare_self
    case enough =>
      rw [Std.ExtTreeSet.length_toList, i.required e' mem required prepares]
      exact i.enough approved
    case approved => exact fun p mem => i.approved p (Std.ExtTreeSet.mem_toList.mp mem)

-- An effect is committed at most once, and only if as many principals as it requires approved it
-- before and nobody aborted it before. Nothing changes a committed or an aborted effect.
theorem History.effect_escrow (h : History events s) (name : String) :
    (events.Pairwise fun e e' => ¬(e.Commits name ∧ e'.Commits name)) ∧
    (∀ later e earlier, events = later ++ e :: earlier → e.Commits name →
      (∃ required, ∃ e' ∈ earlier, e'.Prepares name required) ∧
      (∀ required, (∃ e' ∈ earlier, e'.Prepares name required) →
        ∃ principals : List String, principals.Nodup ∧ required ≤ principals.length ∧
          ∀ principal ∈ principals, ∃ e' ∈ earlier, e'.Approves name principal) ∧
      (∀ e' ∈ earlier, ¬e'.Aborts name)) ∧
    (∀ e earlier, events = e :: earlier → e.Commits name ∨ e.Aborts name →
      ∃ record, s.effects[name]? = some record ∧
        ∀ s', Continues s s' → s'.effects[name]? = some record) := by
  refine ⟨h.commits_once name, ?approved, ?final⟩
  case approved =>
    intro later e earlier split commits
    have ⟨_, h, _⟩ := h.split split
    exact h.commits_approved commits
  case final =>
    rintro e earlier rfl closes
    cases h
    case apply s o c now h =>
      rcases closes with commits | aborts
      case inl =>
        have ⟨_, record, _, _, mem, status⟩ := applyAt_effects.commits commits
        exact ⟨record, mem, fun s' r => r.effect_final mem (by simp [status, EffectStatus.isTerminal])⟩
      case inr =>
        have ⟨record, mem, status⟩ := applyAt_effects.aborts aborts
        exact ⟨record, mem, fun s' r => r.effect_final mem (by simp [status, EffectStatus.isTerminal])⟩

omit [External] in
theorem effect_escrow_payment :
    letI := External.fixed
    let s₁ := (Store.empty.applyAt .sorted (.effectPrepare "pay" "send" .null "high" "k" 1) 0).1
    let s₂ := (s₁.applyAt .sorted (.effectApprove "pay" "a") 1).1
    let s₃ := (s₂.applyAt .sorted (.effectCommit "pay" (.number 7)) 2)
    s₃.2.output.field "committed" = some (.bool true) ∧
    ∀ s', Continues s₃.1 s' → s'.effects["pay"]? = s₃.1.effects["pay"]? := by
  let := External.fixed
  intro s₁ s₂ s₃
  have committed : s₃.2.output.field "committed" = some (.bool true) := rfl
  have h : History _ s₃.1 := .apply _ _ _ (.apply _ _ _ (.apply _ _ _ .empty))
  have ⟨record, mem, final⟩ := (h.effect_escrow "pay").2.2 _ _ rfl (.inl ⟨⟨_, rfl⟩, committed⟩)
  exact ⟨committed, fun s' r => (final s' r).trans mem.symm⟩

end Store
