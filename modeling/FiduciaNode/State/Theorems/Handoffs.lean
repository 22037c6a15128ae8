import FiduciaNode.State.Theorems.Frames

namespace Applied

-- The recipient of a handoff is told that it owns the resource in succession to the owner with the token.
def Accepts (e : Applied) (resource : String) (fromToken : Nat) : Prop :=
  (∃ name toOwner, e.command = .handoffAccept name toOwner) ∧
  e.output.flag "ok" = some true ∧
  (e.output.field "handoff").bind (·.text "resource") = some resource ∧
  (e.output.field "handoff").bind (·.integer "from_token") = some (fromToken : Int)

end Applied

namespace HandoffRecord

-- The record offers the resource of the owner with the token, even if the offer has expired.
def Offers (record : HandoffRecord) (resource : String) (fromToken : Nat) : Prop :=
  record.status = .offered ∧ record.resource = resource ∧ record.fromToken = fromToken

theorem status_of_effectiveStatus {record : HandoffRecord} {now : Nat}
    (h : record.effectiveStatus now = .offered) : record.status = .offered := by
  simp only [effectiveStatus] at h
  split at h
  case isTrue => contradiction
  case isFalse => exact h

end HandoffRecord

namespace Handoffs

-- What a command can do to the handoffs.
inductive Step (e : Applied) (handoffs : Handoffs) : Handoffs → Prop
  | keep (accepts : ∀ resource fromToken, ¬e.Accepts resource fromToken) : Step e handoffs handoffs
  | offer (command : e.command = .handoffOffer name resource fromOwner toOwner fromToken context ttlMs)
    (offers : record.Offers resource fromToken) :
    Step e handoffs (handoffs.insert name record)
  | accept (command : e.command = .handoffAccept name toOwner) (mem : handoffs[name]? = some record)
    (offers : record.Offers resource fromToken) (status : record'.status = .accepted)
    (accepts : ∀ resource' fromToken',
      e.Accepts resource' fromToken' → resource' = resource ∧ fromToken' = fromToken) :
    Step e handoffs (handoffs.insert name record')
  | reject (command : e.command = .handoffReject name toOwner) (status : record'.status = .rejected) :
    Step e handoffs (handoffs.insert name record')

variable {handoffs : Handoffs} {fencing : FencingCounter} {c : Command} {now : Nat} {v : Value}
  {name toOwner : String}

theorem Step.of_part (h : c.part ≠ .handoffs) : Step ⟨c, now, v⟩ handoffs handoffs := by
  refine .keep ?_
  rintro _ _ ⟨⟨_, _, rfl⟩, _⟩
  exact h rfl

theorem Step.refused (h : v.flag "ok" = some false) : Step ⟨c, now, v⟩ handoffs handoffs := by
  refine .keep fun _ _ ⟨_, ok, _⟩ => ?_
  simp [h] at ok

theorem applyHandoffOffer_step (resource fromOwner : String) (fromToken : Nat) (context : Value)
    (ttlMs : Nat) :
    Step ⟨.handoffOffer name resource fromOwner toOwner fromToken context ttlMs, now,
        (handoffs.applyHandoffOffer fencing now name resource fromOwner toOwner fromToken context ttlMs).2⟩
      handoffs
      (handoffs.applyHandoffOffer fencing now name resource fromOwner toOwner fromToken context ttlMs).1 := by
  simp only [applyHandoffOffer]
  split
  case isTrue => exact .refused rfl
  case isFalse =>
    split
    case h_1 => exact .refused rfl
    case h_2 => exact .offer rfl ⟨rfl, rfl, rfl⟩

theorem applyHandoffAccept_step :
    Step ⟨.handoffAccept name toOwner, now, (handoffs.applyHandoffAccept fencing now name toOwner).2.2⟩
      handoffs (handoffs.applyHandoffAccept fencing now name toOwner).1 := by
  simp only [applyHandoffAccept]
  split
  case h_1 => exact .refused rfl
  case h_2 record mem =>
    split
    case isTrue => exact .refused rfl
    case isFalse offered =>
      split
      case isTrue => exact .refused rfl
      case isFalse =>
        split
        case h_1 => exact .refused rfl
        case h_2 =>
          have status := HandoffRecord.status_of_effectiveStatus (not_not.mp offered)
          refine .accept rfl mem ⟨status, rfl, rfl⟩ rfl ?_
          rintro resource fromToken ⟨_, _, text, token⟩
          exact ⟨(Option.some.inj text).symm, (Int.ofNat_inj.mp (Option.some.inj token)).symm⟩

theorem applyHandoffReject_step :
    Step ⟨.handoffReject name toOwner, now, (handoffs.applyHandoffReject now name toOwner).2⟩
      handoffs (handoffs.applyHandoffReject now name toOwner).1 := by
  simp only [applyHandoffReject]
  split
  case h_1 => exact .refused rfl
  case h_2 record mem =>
    split
    case isTrue => exact .refused rfl
    case isFalse =>
      split
      case isTrue => exact .refused rfl
      case isFalse => exact .reject rfl rfl

end Handoffs

namespace Store

variable [External] {s : Store} {o : IterOrder} {c : Command} {revision now : Nat}

omit [External] in
theorem onHandoffs_step {r : Handoffs × Value} (h : Handoffs.Step ⟨c, now, r.2⟩ s.handoffs r.1) :
    Handoffs.Step ⟨c, now, (s.onHandoffs r).2⟩ s.handoffs (s.onHandoffs r).1.handoffs :=
  h

theorem applyCommand_handoffStep :
    Handoffs.Step ⟨c, now, (s.applyCommand o revision now c).2⟩ s.handoffs
      (s.applyCommand o revision now c).1.handoffs := by
  by_cases h : c.part = .handoffs
  case neg =>
    have same : (s.applyCommand o revision now c).1.handoffs = s.handoffs :=
      applyCommand_touches.frame .handoffs (Ne.symm h)
    exact same ▸ .of_part h
  case pos =>
    cases c <;> try contradiction
    case handoffOffer => exact onHandoffs_step (Handoffs.applyHandoffOffer_step _ _ _ _ _)
    case handoffAccept => exact Handoffs.applyHandoffAccept_step
    case handoffReject => exact Handoffs.applyHandoffReject_step

theorem applyAt_handoffStep :
    Handoffs.Step ⟨c, now, (s.applyAt o c now).2.output⟩ s.handoffs (s.applyAt o c now).1.handoffs := by
  have same : (s.prepare o c now).handoffs = s.handoffs := prepare_frame .handoffs rfl
  exact same ▸ applyCommand_handoffStep

section Transfer

variable {events : List Applied} {resource : String} {fromToken : Nat}

-- The resource of the owner with the token is offered only while nobody has accepted it yet and no
-- handoff with another name offers it.
def SoleOffer (resource : String) (fromToken : Nat) (events : List Applied) (s : Store) (c : Command)
    (_now : Nat) : Prop :=
  ∀ name fromOwner toOwner context ttlMs,
    c = .handoffOffer name resource fromOwner toOwner fromToken context ttlMs →
    (∀ e ∈ events, ¬e.Accepts resource fromToken) ∧
    (∀ name' record, s.handoffs[name']? = some record → record.Offers resource fromToken → name' = name)

-- Nothing offers the resource any more once it has been accepted, and at most one handoff does before.
structure Transfers (resource : String) (fromToken : Nat) (events : List Applied) (handoffs : Handoffs) :
    Prop where
  once    : events.Pairwise fun e e' => ¬(e.Accepts resource fromToken ∧ e'.Accepts resource fromToken)
  settled : ∀ (name : String) record, handoffs[name]? = some record → record.Offers resource fromToken →
    ∀ e ∈ events, ¬e.Accepts resource fromToken
  sole    : ∀ (name₁ name₂ : String) r₁ r₂, handoffs[name₁]? = some r₁ → handoffs[name₂]? = some r₂ →
    r₁.Offers resource fromToken → r₂.Offers resource fromToken → name₁ = name₂

variable {handoffs handoffs' : Handoffs} {e : Applied} {record : HandoffRecord} {name : String}

omit [External] in
theorem Transfers.once_cons (i : Transfers resource fromToken events handoffs)
    (accepts : e.Accepts resource fromToken →
      ∃ (name : String) (record : HandoffRecord), handoffs[name]? = some record ∧ record.Offers resource fromToken) :
    (e :: events).Pairwise fun e e' => ¬(e.Accepts resource fromToken ∧ e'.Accepts resource fromToken) := by
  refine .cons (fun e' mem ⟨h, h'⟩ => ?_) i.once
  have ⟨name, record, stored, offers⟩ := accepts h
  exact i.settled name record stored offers e' mem h'

-- A handoff that is closed leaves only others that offer the resource.
omit [External] in
theorem Transfers.close (i : Transfers resource fromToken events handoffs) (status : record.status ≠ .offered)
    (accepts : e.Accepts resource fromToken →
      ∃ record, handoffs[name]? = some record ∧ record.Offers resource fromToken) :
    Transfers resource fromToken (e :: events) (handoffs.insert name record) where
  once    := i.once_cons fun h => ⟨name, accepts h⟩
  settled := by
    intro name' record' stored offers
    rw [HashMap.get_insert] at stored
    split at stored
    case isTrue =>
      cases stored
      exact absurd offers.1 status
    case isFalse ne =>
      refine List.forall_mem_cons.mpr ⟨fun h => ?_, i.settled name' record' stored offers⟩
      have ⟨_, mem, closed⟩ := accepts h
      exact ne (i.sole _ _ _ _ mem stored closed offers)
  sole    := by
    intro name₁ name₂ r₁ r₂ h₁ h₂ o₁ o₂
    rw [HashMap.get_insert] at h₁ h₂
    split at h₁
    case isTrue =>
      cases h₁
      exact absurd o₁.1 status
    case isFalse =>
      split at h₂
      case isTrue =>
        cases h₂
        exact absurd o₂.1 status
      case isFalse => exact i.sole _ _ _ _ h₁ h₂ o₁ o₂

omit [External] in
theorem Transfers.offer (i : Transfers resource fromToken events handoffs)
    (accepts : ¬e.Accepts resource fromToken)
    (sole : record.Offers resource fromToken → (∀ e ∈ events, ¬e.Accepts resource fromToken) ∧
      ∀ name' record, handoffs[name']? = some record → record.Offers resource fromToken → name' = name) :
    Transfers resource fromToken (e :: events) (handoffs.insert name record) where
  once    := i.once_cons fun h => absurd h accepts
  settled := by
    intro name' record' stored offers
    rw [HashMap.get_insert] at stored
    split at stored
    case isTrue =>
      cases stored
      exact List.forall_mem_cons.mpr ⟨accepts, (sole offers).1⟩
    case isFalse => exact List.forall_mem_cons.mpr ⟨accepts, i.settled name' record' stored offers⟩
  sole    := by
    intro name₁ name₂ r₁ r₂ h₁ h₂ o₁ o₂
    rw [HashMap.get_insert] at h₁ h₂
    split at h₁
    case isTrue eq₁ =>
      cases h₁
      split at h₂
      case isTrue eq₂ => exact eq₁.symm.trans eq₂
      case isFalse => exact eq₁.symm.trans ((sole o₁).2 _ _ h₂ o₂).symm
    case isFalse =>
      split at h₂
      case isTrue eq₂ =>
        cases h₂
        exact ((sole o₂).2 _ _ h₁ o₁).trans eq₂
      case isFalse => exact i.sole _ _ _ _ h₁ h₂ o₁ o₂

omit [External] in
theorem Transfers.step (i : Transfers resource fromToken events s.handoffs)
    (t : Handoffs.Step e s.handoffs handoffs') (sole : SoleOffer resource fromToken events s e.command e.now) :
    Transfers resource fromToken (e :: events) handoffs' := by
  cases t
  case keep accepts =>
    have accepts := accepts resource fromToken
    refine ⟨i.once_cons fun h => absurd h accepts, fun name record stored offers => ?_, i.sole⟩
    exact List.forall_mem_cons.mpr ⟨accepts, i.settled name record stored offers⟩
  case offer name resource' _ _ fromToken' _ _ record command offers =>
    refine i.offer ?_ fun same => ?_
    case refine_1 => simp [Applied.Accepts, command]
    case refine_2 =>
      obtain rfl : resource' = resource := offers.2.1.symm.trans same.2.1
      obtain rfl : fromToken' = fromToken := offers.2.2.symm.trans same.2.2
      exact sole _ _ _ _ _ command
  case accept name _ record resource' fromToken' record' command mem offers status accepts =>
    refine i.close (by simp [status]) fun h => ?_
    obtain ⟨rfl, rfl⟩ := accepts _ _ h
    exact ⟨record, mem, offers⟩
  case reject name _ record' command status =>
    refine i.close (by simp [status]) fun h => ?_
    simp [Applied.Accepts, command] at h

theorem Abides.transfers (h : Abides (SoleOffer resource fromToken) .empty events s) :
    Transfers resource fromToken events s.handoffs := by
  induction h
  case start => exact ⟨.nil, by simp, by simp [Store.empty]⟩
  case apply sole _ ih => exact ih.step applyAt_handoffStep sole

theorem handoff_transfers_once (h : Abides (SoleOffer resource fromToken) .empty events s) :
    events.Pairwise fun e e' => ¬(e.Accepts resource fromToken ∧ e'.Accepts resource fromToken) :=
  h.transfers.once

end Transfer

section Succession

-- The owner of the database offers it under two names, and both recipients accept.
def offered (name toOwner : String) : Command :=
  .handoffOffer name "db" "owner" toOwner 1 .null 1000

omit [External] in
theorem handoff_accepted_twice :
    letI := External.fixed
    ∃ s e e' events, History (e :: e' :: events) s ∧ e.Accepts "db" 1 ∧ e'.Accepts "db" 1 ∧
      e.command = .handoffAccept "right" "b" ∧ e'.command = .handoffAccept "left" "a" := by
  let := External.fixed
  have h : History _ _ := .apply .sorted (.handoffAccept "right" "b") 0 (
    .apply .sorted (.handoffAccept "left" "a") 0 (
    .apply .sorted (offered "right" "b") 0 (
    .apply .sorted (offered "left" "a") 0 .empty)))
  refine ⟨_, _, _, _, h, ⟨⟨_, _, rfl⟩, ?_⟩, ⟨⟨_, _, rfl⟩, ?_⟩, rfl, rfl⟩
  case refine_1 | refine_2 => decide +kernel

omit [External] in
theorem handoff_accepted_once :
    letI := External.fixed
    ∃ s e e' events, Abides (SoleOffer "db" 1) .empty (e :: e' :: events) s ∧ e'.Accepts "db" 1 ∧
      e.command = .handoffAccept "left" "a" ∧ ¬e.Accepts "db" 1 := by
  let := External.fixed
  have h : Abides (SoleOffer "db" 1) .empty _ _ := .apply .sorted (.handoffAccept "left" "a") 0 nofun (
    .apply .sorted (.handoffAccept "left" "a") 0 nofun (
    .apply .sorted (offered "left" "a") 0 (fun _ _ _ _ _ _ => ⟨by simp, by simp [Store.empty]⟩) .start))
  have ⟨once, _⟩ := List.pairwise_cons.mp (handoff_transfers_once h)
  refine ⟨_, _, _, _, h, ?accepts, rfl, fun again => once _ (.head _) ⟨again, ?accepts⟩⟩
  case accepts => exact ⟨⟨_, _, rfl⟩, by decide +kernel⟩

end Succession

end Store
