import FiduciaNode.State.History
import FiduciaNode.State.Theorems.Steps

namespace Command

-- The key of an idempotency command, and the owner and the token that it presents. A claim presents
-- no token.
def idempotencyCaller : Command → Option (String × Option (String × Nat))
  | idempotencyClaim key .. => some (key, none)
  | idempotencyComplete key owner token _ | idempotencyRenew key owner token _
  | idempotencyAbandon key owner token => some (key, some (owner, token))
  | _ => none

end Command

namespace Applied

variable (key owner : String) (token : Nat) (e : Applied)

-- A claim that was granted, with the time for which its result is to be retained.
def ClaimsKey (retained : Nat) : Prop :=
  (∃ ttlMs retentionMs metadata,
    e.command = .idempotencyClaim key owner ttlMs retentionMs metadata ∧
    retained = max (max (retentionMs.getD 0) ttlMs) 1) ∧
  e.output.field "claimed" = some (.bool true) ∧
  e.output.field "fencing_token" = some (.number token)

-- The completion that stores the result, not a repeated one.
def CompletesKey (result : Option Value) : Prop :=
  e.command = .idempotencyComplete key owner token result ∧
  e.output.field "completed" = some (.bool true) ∧ e.output.field "duplicate" = some (.bool false)

def AbandonsKey : Prop :=
  e.command = .idempotencyAbandon key owner token ∧
  e.output.field "abandoned" = some (.bool true)

end Applied

namespace IdempotencyRecord

-- What a command can do to the record of a key that its sweep left, and to the counter that the
-- tokens come from.
inductive Step (key : String) (e : Applied) :
    Option IdempotencyRecord × Nat → Option IdempotencyRecord × Nat → Prop
  | keep (claims : ∀ owner token retained, ¬e.ClaimsKey key owner token retained)
    (completes : ∀ owner token result, ¬e.CompletesKey key owner token result)
    (abandons : ∀ owner token, ¬e.AbandonsKey key owner token) (le : n ≤ n') :
    Step key e (r, n) (r, n')
  | claim (claims : e.ClaimsKey key record.owner record.fencingToken record.retentionMs)
    (status : record.status = .claimed) (gt : n < record.fencingToken)
    (le : record.fencingToken ≤ n') : Step key e (none, n) (some record, n')
  | complete {result : Option Value}
    (completes : e.CompletesKey key record.owner record.fencingToken result)
    (status : record.status = .claimed) (le : n ≤ n') :
    Step key e (some record, n) (some { record with
      status := .completed, result
      leaseExpiresMs := U64.saturatingAdd e.now (max record.retentionMs 1)
    }, n')
  | renew (command : e.command = .idempotencyRenew key record.owner record.fencingToken ttlMs)
    (status : record.status = .claimed) (le : n ≤ n') :
    Step key e (some record, n) (some { record with
      leaseExpiresMs := U64.saturatingAdd e.now (max ttlMs 1)
    }, n')
  | abandon (abandons : e.AbandonsKey key record.owner record.fencingToken)
    (status : record.status = .claimed) (le : n ≤ n') :
    Step key e (some record, n) (none, n')

variable {key : String} {c : Command} {now n n' m : Nat} {v : Value} {e : Applied}
  {r r' : Option IdempotencyRecord} {record : IdempotencyRecord}

theorem Step.unnamed (h : c.idempotencyCaller.map Prod.fst ≠ some key) (le : n ≤ n') :
    Step key ⟨c, now, v⟩ (r, n) (r, n') := by
  refine .keep ?claims ?completes ?abandons le
  case claims =>
    rintro _ _ _ ⟨⟨_, _, _, rfl, _⟩, _⟩
    exact h rfl
  case completes =>
    rintro _ _ _ ⟨rfl, _⟩
    exact h rfl
  case abandons =>
    rintro _ _ ⟨rfl, _⟩
    exact h rfl

theorem Step.insert {idempotency : Idempotency} {key' : String} (named : c.idempotencyCaller.map Prod.fst = some key)
    (mem : idempotency[key]? = r) (t : Step key ⟨c, now, v⟩ (r, n) (some record, n')) (le : n ≤ n') :
    Step key' ⟨c, now, v⟩ (idempotency[key']?, n) ((idempotency.insert key record)[key']?, n') := by
  rw [HashMap.get_insert]
  split
  case isTrue same => exact same ▸ mem ▸ t
  case isFalse ne => exact .unnamed (fun h => ne (Option.some.inj (named.symm.trans h))) le

end IdempotencyRecord

namespace Idempotency

variable {idempotency : Idempotency} {fencing : FencingCounter} {key key' owner : String}
  {revision now token : Nat}

theorem claimed_of_ne {status : IdempotencyStatus} (h : ¬status = .completed) : status = .claimed := by
  cases status
  case claimed => rfl
  case completed => contradiction

theorem applyIdempotencyClaim_step {r : Idempotency × FencingCounter × Value}
    (h : idempotency.applyIdempotencyClaim fencing revision now key owner ttlMs retentionMs metadata = r) :
    IdempotencyRecord.Step key'
      ⟨.idempotencyClaim key owner ttlMs retentionMs metadata, now, r.2.2⟩
      (idempotency[key']?, fencing.nextFencingToken) (r.1[key']?, r.2.1.nextFencingToken) := by
  have refused (v : Value) (h : v.field "claimed" = some (.bool false)) (r) (n : Nat) :
      IdempotencyRecord.Step key'
        ⟨.idempotencyClaim key owner ttlMs retentionMs metadata, now, v⟩ (r, n) (r, n) :=
    .keep (by simp [Applied.ClaimsKey, h]) (by simp [Applied.CompletesKey])
      (by simp [Applied.AbandonsKey]) (Nat.le_refl _)
  subst h
  simp only [applyIdempotencyClaim]
  split
  case isTrue => exact refused _ rfl _ _
  case isFalse =>
    split
    case h_1 => exact refused _ rfl _ _
    case h_2 absent =>
      split
      case h_1 => exact refused _ rfl _ _
      case h_2 token f next =>
        obtain ⟨ht, _, hf⟩ := FencingCounter.nextToken_eq_some_iff.mp next
        subst hf
        refine .insert rfl absent (.claim ⟨⟨_, _, _, rfl, ?_⟩, rfl, rfl⟩ rfl ?_ (Nat.le_refl _)) ?_
        case refine_1 => cases retentionMs <;> simp
        case refine_2 => simp only; omega
        case refine_3 => simp only [FencingCounter.mint]; omega

theorem forHolder_step {c : Command} {f : IdempotencyRecord → Idempotency × Value} {n : Nat}
    {flag : String}
    (refused : ∀ reason r,
      IdempotencyRecord.Step key' ⟨c, now, refusal flag reason key revision⟩ (r, n) (r, n))
    (accepted : ∀ record, idempotency[key]? = some record → record.owner = owner →
      record.fencingToken = token →
      IdempotencyRecord.Step key' ⟨c, now, (f record).2⟩ (idempotency[key']?, n)
        ((f record).1[key']?, n)) :
    IdempotencyRecord.Step key'
      ⟨c, now, (idempotency.forHolder flag revision key owner token f).2⟩ (idempotency[key']?, n)
      ((idempotency.forHolder flag revision key owner token f).1[key']?, n) := by
  simp only [forHolder]
  split
  case h_1 => exact refused _ _
  case h_2 record mem =>
    split
    case isTrue => exact refused _ _
    case isFalse holder =>
      simp only [ne_eq, decide_not, Bool.or_eq_true, Bool.not_eq_true', decide_eq_false_iff_not,
        not_or, not_not] at holder
      exact accepted record mem holder.1 holder.2

theorem applyIdempotencyComplete_step {n : Nat} :
    IdempotencyRecord.Step key'
      ⟨.idempotencyComplete key owner token result, now,
        (idempotency.applyIdempotencyComplete revision now key owner token result).2⟩
      (idempotency[key']?, n)
      ((idempotency.applyIdempotencyComplete revision now key owner token result).1[key']?, n) := by
  have refused (v : Value) (r)
      (h : v.field "completed" = some (.bool false) ∨ v.field "duplicate" = some (.bool true)) :
      IdempotencyRecord.Step key'
        ⟨.idempotencyComplete key owner token result, now, v⟩ (r, n) (r, n) :=
    .keep (by simp [Applied.ClaimsKey]) (by rcases h with h | h <;> simp [Applied.CompletesKey, h])
      (by simp [Applied.AbandonsKey]) (Nat.le_refl _)
  refine forHolder_step (fun _ _ => refused _ _ (.inl rfl)) fun record mem owner token => ?_
  split
  case isTrue => exact refused _ _ (.inr rfl)
  case isFalse status =>
    subst owner token
    refine .insert rfl mem ?_ (Nat.le_refl _)
    exact .complete (e := ⟨_, now, _⟩) ⟨rfl, rfl, rfl⟩ (claimed_of_ne status) (Nat.le_refl _)

theorem applyIdempotencyRenew_step {n ttlMs : Nat} :
    IdempotencyRecord.Step key'
      ⟨.idempotencyRenew key owner token ttlMs, now,
        (idempotency.applyIdempotencyRenew revision now key owner token ttlMs).2⟩
      (idempotency[key']?, n)
      ((idempotency.applyIdempotencyRenew revision now key owner token ttlMs).1[key']?, n) := by
  have refused (v : Value) (r) :
      IdempotencyRecord.Step key' ⟨.idempotencyRenew key owner token ttlMs, now, v⟩ (r, n) (r, n) :=
    .keep (by simp [Applied.ClaimsKey]) (by simp [Applied.CompletesKey])
      (by simp [Applied.AbandonsKey]) (Nat.le_refl _)
  refine forHolder_step (fun _ _ => refused _ _) fun record mem owner token => ?_
  split
  case isTrue => exact refused _ _
  case isFalse status =>
    subst owner token
    exact .insert rfl mem (.renew (e := ⟨_, now, _⟩) rfl (claimed_of_ne status) (Nat.le_refl _)) (Nat.le_refl _)

theorem applyIdempotencyAbandon_step {n : Nat} :
    IdempotencyRecord.Step key'
      ⟨.idempotencyAbandon key owner token, now,
        (idempotency.applyIdempotencyAbandon revision key owner token).2⟩
      (idempotency[key']?, n)
      ((idempotency.applyIdempotencyAbandon revision key owner token).1[key']?, n) := by
  have refused (v : Value) (r) (h : v.field "abandoned" = some (.bool false)) :
      IdempotencyRecord.Step key' ⟨.idempotencyAbandon key owner token, now, v⟩ (r, n) (r, n) :=
    .keep (by simp [Applied.ClaimsKey]) (by simp [Applied.CompletesKey])
      (by simp [Applied.AbandonsKey, h]) (Nat.le_refl _)
  refine forHolder_step (fun _ _ => refused _ _ rfl) fun record mem owner token => ?_
  split
  case isTrue => exact refused _ _ rfl
  case isFalse status =>
    by_cases h : key = key'
    case neg =>
      simp only [HashMap.get_erase, h, ↓reduceIte]
      exact .unnamed (by simpa [Command.idempotencyCaller] using h) (Nat.le_refl _)
    case pos =>
      subst h owner token
      simp only [HashMap.get_erase, ↓reduceIte, mem]
      exact .abandon ⟨rfl, rfl⟩ (claimed_of_ne status) (Nat.le_refl _)

end Idempotency

namespace IdempotencyRecord

variable {key owner : String} {events : List Applied} {e : Applied} {c : Command} {v : Value}
  {r r' : Option IdempotencyRecord} {record : IdempotencyRecord} {now n n' token retained : Nat}

theorem ClaimsKey.unique {owner' : String} {token' retained' : Nat}
    (h₁ : e.ClaimsKey key owner token retained) (h₂ : e.ClaimsKey key owner' token' retained') :
    owner = owner' ∧ token = token' ∧ retained = retained' := by
  have ⟨⟨_, _, _, command₁, hr₁⟩, _, field₁⟩ := h₁
  have ⟨⟨_, _, _, command₂, hr₂⟩, _, field₂⟩ := h₂
  cases command₁.symm.trans command₂
  refine ⟨rfl, ?_, hr₁.trans hr₂.symm⟩
  simpa using field₁.symm.trans field₂

-- What the history of a run says about the record of a key: the claim that it comes from.
structure Leased (key : String) (events : List Applied) (n : Nat) (r : Option IdempotencyRecord) :
    Prop where
  claims  : ∀ e ∈ events, ∀ owner token retained, e.ClaimsKey key owner token retained → token ≤ n
  claimed : ∀ record ∈ r,
    ∃ e ∈ events, e.ClaimsKey key record.owner record.fencingToken record.retentionMs
  unique  : ∀ record ∈ r, ∀ e ∈ events, ∀ owner retained,
    e.ClaimsKey key owner record.fencingToken retained → retained = record.retentionMs

theorem Leased.mono (i : Leased key events n r) (sub : ∀ record ∈ r', record ∈ r) (le : n ≤ n') :
    Leased key events n' r' where
  claims e mem owner token retained h := (i.claims e mem owner token retained h).trans le
  claimed record mem := i.claimed record (sub record mem)
  unique record mem := i.unique record (sub record mem)

-- An event that claims nothing, and a record that comes from the same claim as before, if any.
theorem Leased.cons (i : Leased key events n r)
    (claims : ∀ owner token retained, ¬e.ClaimsKey key owner token retained)
    (same : ∀ record' ∈ r', ∃ record ∈ r, record.owner = record'.owner ∧
      record.fencingToken = record'.fencingToken ∧ record.retentionMs = record'.retentionMs)
    (le : n ≤ n') : Leased key (e :: events) n' r' where
  claims := List.forall_mem_cons.mpr ⟨fun _ _ _ h => (claims _ _ _ h).elim,
    fun e mem owner token retained h => (i.claims e mem owner token retained h).trans le⟩
  claimed record' mem := by
    have ⟨record, mem, owner, token, retention⟩ := same record' mem
    have ⟨e, mem, h⟩ := i.claimed record mem
    exact ⟨e, .tail _ mem, owner ▸ token ▸ retention ▸ h⟩
  unique record' mem := by
    have ⟨record, mem, owner, token, retention⟩ := same record' mem
    refine List.forall_mem_cons.mpr ⟨fun _ _ h => (claims _ _ _ h).elim, fun e mem' _ _ h => ?_⟩
    exact (i.unique record mem e mem' _ _ (token ▸ h)).trans retention

theorem Step.leased (t : Step key e (r, n) (r', n')) (i : Leased key events n r) :
    Leased key (e :: events) n' r' := by
  cases t
  case keep claims _ _ le => exact i.cons claims (fun record mem => ⟨record, mem, rfl, rfl, rfl⟩) le
  case claim record claims _ gt le =>
    exact {
      claims := by
        refine List.forall_mem_cons.mpr ⟨fun _ _ _ h => ?_, fun e mem _ _ _ h => ?_⟩
        case refine_1 => exact (ClaimsKey.unique h claims).2.1 ▸ le
        case refine_2 => exact (i.claims e mem _ _ _ h).trans ((Nat.le_of_lt gt).trans le)
      claimed := by
        rintro record' ⟨rfl⟩
        exact ⟨e, .head _, claims⟩
      unique := by
        rintro record' ⟨rfl⟩
        refine List.forall_mem_cons.mpr ⟨fun _ _ h => ?_, fun e mem _ _ h => ?_⟩
        case refine_1 => exact (ClaimsKey.unique h claims).2.2
        case refine_2 => exact absurd (i.claims e mem _ _ _ h) (Nat.not_le.mpr gt)
    }
  case complete record result completes _ le =>
    refine i.cons ?_ ?_ le
    case refine_1 => simp [Applied.ClaimsKey, completes.1]
    case refine_2 =>
      rintro record' ⟨rfl⟩
      exact ⟨record, rfl, rfl, rfl, rfl⟩
  case renew ttlMs record command _ le =>
    refine i.cons ?_ ?_ le
    case refine_1 => simp [Applied.ClaimsKey, command]
    case refine_2 =>
      rintro record' ⟨rfl⟩
      exact ⟨record, rfl, rfl, rfl, rfl⟩
  case abandon record abandons _ le =>
    refine i.cons ?_ (by simp) le
    simp [Applied.ClaimsKey, abandons.1]

theorem Step.claims (t : Step key e (r, n) (r', n')) (h : e.ClaimsKey key owner token retained) :
    r = none ∧ ∃ record, r' = some record ∧ record.owner = owner ∧ record.fencingToken = token := by
  have ⟨⟨_, _, _, command, _⟩, _⟩ := h
  cases t
  case keep claims _ _ _ => exact (claims _ _ _ h).elim
  case claim record claims _ _ _ =>
    have ⟨owner, token, _⟩ := ClaimsKey.unique claims h
    exact ⟨rfl, record, rfl, owner, token⟩
  case complete completes _ _ => cases completes.1.symm.trans command
  case renew command' _ _ => cases command'.symm.trans command
  case abandon abandons _ _ => cases abandons.1.symm.trans command

-- The claim goes on, unless its holder gives it up.
theorem Step.continues (t : Step key e (r, n) (r', n')) (mem : r = some record) :
    (∃ record', r' = some record' ∧ record'.owner = record.owner ∧
      record'.fencingToken = record.fencingToken) ∨
    e.AbandonsKey key record.owner record.fencingToken := by
  cases t
  case keep => exact .inl ⟨record, mem, rfl, rfl⟩
  case claim => contradiction
  case complete =>
    cases mem
    exact .inl ⟨_, rfl, rfl, rfl⟩
  case renew =>
    cases mem
    exact .inl ⟨_, rfl, rfl, rfl⟩
  case abandon abandons _ _ =>
    cases mem
    exact .inr abandons

theorem Step.completed (t : Step key e (r, n) (r', n')) (mem : r = some record)
    (h : record.status = .completed) : r' = some record := by
  cases t
  case keep => exact mem
  case claim => contradiction
  case complete status _ =>
    cases mem
    cases h.symm.trans status
  case renew status _ =>
    cases mem
    cases h.symm.trans status
  case abandon status _ =>
    cases mem
    cases h.symm.trans status

theorem Step.completes {result : Option Value} (t : Step key e (r, n) (r', n'))
    (h : e.CompletesKey key owner token result) :
    ∃ record, r = some record ∧ record.owner = owner ∧ record.fencingToken = token ∧
      r' = some { record with
        status := .completed, result
        leaseExpiresMs := U64.saturatingAdd e.now (max record.retentionMs 1)
      } := by
  have ⟨command, _⟩ := h
  cases t
  case keep completes _ _ => exact (completes _ _ _ h).elim
  case claim claims _ _ _ =>
    have ⟨⟨_, _, _, command', _⟩, _⟩ := claims
    cases command'.symm.trans command
  case complete completes _ _ =>
    cases completes.1.symm.trans command
    exact ⟨_, rfl, rfl, rfl, rfl⟩
  case renew command' _ _ => cases command'.symm.trans command
  case abandon abandons _ _ => cases abandons.1.symm.trans command

-- Nobody but its holder touches a record.
theorem Step.foreign {caller : Option (String × Nat)} (t : Step key ⟨c, now, v⟩ (r, n) (r', n'))
    (mem : r = some record) (h : c.idempotencyCaller = some (key, caller))
    (foreign : caller ≠ some (record.owner, record.fencingToken)) : r' = some record := by
  cases t
  case keep => exact mem
  case claim => contradiction
  case complete completes _ _ =>
    cases mem
    have command : c = _ := completes.1
    rw [command] at h
    cases h
    contradiction
  case renew command _ _ =>
    cases mem
    have command : c = _ := command
    rw [command] at h
    cases h
    contradiction
  case abandon abandons _ _ =>
    cases mem
    have command : c = _ := abandons.1
    rw [command] at h
    cases h
    contradiction

end IdempotencyRecord

namespace Store

variable {s s' : Store} {o : IterOrder} {c : Command} {now revision : Nat} {key owner : String}

-- The sweep keeps the records whose lease lasts.
theorem prepare_idempotency_sub :
    ∀ record ∈ (s.prepare o c now).idempotency[key]?, record ∈ s.idempotency[key]? := by
  intro record mem
  simp only [prepare] at mem
  split at mem
  case isTrue => exact mem
  case isFalse =>
    have mem : (s.idempotency.expireDue now)[key]? = some record := mem
    rw [Idempotency.expireDue, HashMap.get_filter] at mem
    exact (Option.filter_eq_some_iff.mp mem).1

theorem prepare_idempotency_live {record : IdempotencyRecord}
    (mem : s.idempotency[key]? = some record) (live : now < record.leaseExpiresMs) :
    (s.prepare o c now).idempotency[key]? = some record := by
  simp only [prepare]
  split
  case isTrue => exact mem
  case isFalse =>
    show (s.idempotency.expireDue now)[key]? = some record
    rw [Idempotency.expireDue, HashMap.get_filter, mem]
    simpa [Option.filter] using live

-- Stated for any result, so that the bound on the tokens of an offer is never evaluated.
theorem onHandoffs_idempotency {r : Handoffs × Value} :
    (s.onHandoffs r).1.idempotency = s.idempotency :=
  rfl

variable [External]

-- A command on no key leaves the records alone.
theorem applyCommand_idempotency_frame (h : c.idempotencyCaller = none) :
    (s.applyCommand o revision now c).1.idempotency = s.idempotency := by
  cases c <;> try contradiction
  case handoffOffer => exact onHandoffs_idempotency
  case taskClaim =>
    simp only [applyCommand, applyTaskClaim]
    split <;> rfl
  case activateCommandProtocol =>
    simp only [applyCommand, applyActivateCommandProtocol]
    split
    case isTrue => rfl
    case isFalse => split <;> rfl
  all_goals rfl

theorem applyCommand_idempotency (le : s.fencing.nextFencingToken ≤
      (s.applyCommand o revision now c).1.fencing.nextFencingToken) :
    IdempotencyRecord.Step key ⟨c, now, (s.applyCommand o revision now c).2⟩
      (s.idempotency[key]?, s.fencing.nextFencingToken)
      ((s.applyCommand o revision now c).1.idempotency[key]?,
        (s.applyCommand o revision now c).1.fencing.nextFencingToken) := by
  by_cases h : c.idempotencyCaller = none
  case pos =>
    rw [applyCommand_idempotency_frame h]
    exact .unnamed (by simp [h]) le
  case neg =>
    cases c <;> try contradiction
    case idempotencyClaim => exact Idempotency.applyIdempotencyClaim_step rfl
    case idempotencyComplete => exact Idempotency.applyIdempotencyComplete_step
    case idempotencyRenew => exact Idempotency.applyIdempotencyRenew_step
    case idempotencyAbandon => exact Idempotency.applyIdempotencyAbandon_step

theorem applyAt_idempotency :
    IdempotencyRecord.Step key ⟨c, now, (s.applyAt o c now).2.output⟩
      ((s.prepare o c now).idempotency[key]?, (s.prepare o c now).fencing.nextFencingToken)
      ((s.applyAt o c now).1.idempotency[key]?, (s.applyAt o c now).1.fencing.nextFencingToken) := by
  have e : Steps c now (s.prepare o c now) (s.applyAt o c now).1 :=
    applyCommand_steps prepare_queueLive prepare_queuesLive
  exact applyCommand_idempotency (FencingCounter.Steps.le e.fencing)

variable {events later between earlier : List Applied} {e e₁ e₂ : Applied}

theorem History.leased (h : History events s) :
    IdempotencyRecord.Leased key events s.fencing.nextFencingToken s.idempotency[key]? := by
  induction h
  case empty => exact ⟨by simp, by simp [Store.empty], by simp [Store.empty]⟩
  case apply s o c now h ih =>
    have swept : Steps c now s (s.prepare o c now) := prepare_steps
    exact applyAt_idempotency.leased
      (ih.mono prepare_idempotency_sub (FencingCounter.Steps.le swept.fencing))

-- The claim of `owner` with `token` is due when `e` comes, after the events `earlier`.
def Due (key owner : String) (token : Nat) (earlier : List Applied) (e : Applied) : Prop :=
  ∃ s record, History earlier s ∧ s.idempotency[key]? = some record ∧ record.owner = owner ∧
    record.fencingToken = token ∧ record.leaseExpiresMs ≤ e.now

-- Since its claim, a record is there, or its holder gave it up, or it was due.
theorem History.claimed_since {token retained : Nat}
    (h : History (between ++ e₁ :: earlier) s) (claims : e₁.ClaimsKey key owner token retained) :
    (∃ record, s.idempotency[key]? = some record ∧ record.owner = owner ∧
      record.fencingToken = token) ∨
    (∃ e ∈ between, e.AbandonsKey key owner token) ∨
    (∃ after e before, between = after ++ e :: before ∧
      Due key owner token (before ++ e₁ :: earlier) e) := by
  induction between generalizing s
  case nil =>
    cases h
    case apply => exact .inl (applyAt_idempotency.claims claims).2
  case cons e between ih =>
    cases h
    case apply s o c now h =>
      rcases ih h with ⟨record, mem, owner, token⟩ | ⟨e', mem, abandons⟩ | ⟨after, e', before, rfl, due⟩
      case inl =>
        by_cases live : now < record.leaseExpiresMs
        case neg =>
          refine .inr (.inr ⟨[], _, between, rfl, s, record, h, mem, owner, token, ?_⟩)
          exact Nat.le_of_not_lt live
        case pos =>
          have t : IdempotencyRecord.Step key ⟨c, now, (s.applyAt o c now).2.output⟩ _ _ :=
            applyAt_idempotency
          rcases t.continues (prepare_idempotency_live mem live) with h | abandons
          case inl =>
            have ⟨record', mem', owner', token'⟩ := h
            exact .inl ⟨record', mem', owner'.trans owner, token'.trans token⟩
          case inr => exact .inr (.inl ⟨_, .head _, owner ▸ token ▸ abandons⟩)
      case inr.inl => exact .inr (.inl ⟨e', .tail _ mem, abandons⟩)
      case inr.inr => exact .inr (.inr ⟨_ :: after, e', before, rfl, due⟩)

-- Between two claims of a key, the first is given up by its holder or becomes due.
theorem History.claims_apart {owner' : String} {token retained token' retained' : Nat}
    (h : History (e₂ :: (between ++ e₁ :: earlier)) s)
    (claims₁ : e₁.ClaimsKey key owner token retained)
    (claims₂ : e₂.ClaimsKey key owner' token' retained') :
    (∃ e ∈ between, e.AbandonsKey key owner token) ∨
    (∃ after e before, e₂ :: between = after ++ e :: before ∧
      Due key owner token (before ++ e₁ :: earlier) e) := by
  cases h
  case apply s o c now h =>
    rcases h.claimed_since claims₁ with ⟨record, mem, owner, token⟩ | h' | ⟨after, e, before, rfl, due⟩
    case inl =>
      by_cases live : now < record.leaseExpiresMs
      case neg => exact .inr ⟨[], _, between, rfl, s, record, h, mem, owner, token, Nat.le_of_not_lt live⟩
      case pos =>
        have absent := (applyAt_idempotency.claims claims₂).1
        simp [prepare_idempotency_live mem live] at absent
    case inr.inl => exact .inl h'
    case inr.inr => exact .inr ⟨_ :: after, e, before, rfl, due⟩

-- A completed record stays as it is before its lease is over.
theorem Runs.completed_stays {record : IdempotencyRecord} {deadline : Nat}
    (r : Runs (fun _ _ _ now => now < deadline) s s') (mem : s.idempotency[key]? = some record)
    (completed : record.status = .completed) (le : deadline ≤ record.leaseExpiresMs) :
    s'.idempotency[key]? = some record := by
  induction r
  case refl => exact mem
  case apply h _ ih =>
    exact applyAt_idempotency.completed (prepare_idempotency_live ih (h.trans_le le)) completed

theorem History.completes_retained {token : Nat} {result : Option Value}
    (h : History (e :: earlier) s) (completes : e.CompletesKey key owner token result) :
    (∃ retained, ∃ e' ∈ earlier, e'.ClaimsKey key owner token retained) ∧
    (∀ retained, (∃ e' ∈ earlier, e'.ClaimsKey key owner token retained) →
      e.now + retained ≤ U64.max → ∀ s', Runs (fun _ _ _ now => now < e.now + retained) s s' →
        ∃ record, s'.idempotency[key]? = some record ∧ record.status = .completed ∧
          record.result = result) := by
  cases h
  case apply s o c now h =>
    have ⟨record, before, owner, token, after⟩ := applyAt_idempotency.completes completes
    have before := prepare_idempotency_sub record before
    have i : IdempotencyRecord.Leased key _ _ _ := h.leased
    subst owner token
    refine ⟨⟨_, i.claimed record before⟩, ?_⟩
    intro retained ⟨e', mem, claims⟩ fits s' r
    have retention := i.unique record before e' mem _ _ claims
    have positive : 1 ≤ retained := by
      have ⟨⟨_, _, _, _, h⟩, _⟩ := claims
      exact h ▸ Nat.le_max_right _ _
    refine ⟨_, r.completed_stays after rfl ?_, rfl, rfl⟩
    simp only [U64.saturatingAdd, ← retention, Nat.max_eq_left positive]
    exact Nat.le_min.mpr ⟨Nat.le_refl _, fits⟩

-- A key is claimed again only after its holder gave it up or its lease ran out. The result of the
-- completion is there as long as the claim asked for. A live record is changed by its holder only.
theorem History.idempotency_keys (h : History events s) (key : String) :
    (∀ later e₂ between e₁ earlier owner token retained owner' token' retained',
      events = later ++ e₂ :: (between ++ e₁ :: earlier) →
      e₁.ClaimsKey key owner token retained → e₂.ClaimsKey key owner' token' retained' →
      (∃ e ∈ between, e.AbandonsKey key owner token) ∨
      (∃ after e before, e₂ :: between = after ++ e :: before ∧
        Due key owner token (before ++ e₁ :: earlier) e)) ∧
    (∀ e earlier owner token result,
      events = e :: earlier → e.CompletesKey key owner token result →
      (∃ retained, ∃ e' ∈ earlier, e'.ClaimsKey key owner token retained) ∧
      (∀ retained, (∃ e' ∈ earlier, e'.ClaimsKey key owner token retained) →
        e.now + retained ≤ U64.max → ∀ s', Runs (fun _ _ _ now => now < e.now + retained) s s' →
          ∃ record, s'.idempotency[key]? = some record ∧ record.status = .completed ∧
            record.result = result)) ∧
    (∀ o c now caller record, s.idempotency[key]? = some record → now < record.leaseExpiresMs →
      c.idempotencyCaller = some (key, caller) →
      caller ≠ some (record.owner, record.fencingToken) →
      (s.applyAt o c now).1.idempotency[key]? = some record) := by
  refine ⟨?apart, ?retained, ?foreign⟩
  case apart =>
    intro later e₂ between e₁ earlier owner token retained owner' token' retained' split claims₁ claims₂
    have ⟨_, h, _⟩ := h.split split
    exact h.claims_apart claims₁ claims₂
  case retained =>
    rintro e earlier owner token result rfl completes
    exact h.completes_retained completes
  case foreign =>
    intro o c now caller record mem live call foreign
    exact applyAt_idempotency.foreign (prepare_idempotency_live mem live) call foreign

omit [External] in
theorem idempotency_keys_retained :
    letI := External.fixed
    let s₁ := (Store.empty.applyAt .sorted (.idempotencyClaim "k" "a" 10 (some 50) ∅) 0).1
    let s₂ := (s₁.applyAt .sorted (.idempotencyComplete "k" "a" 1 (some (.number 7))) 5).1
    let s₃ := (s₂.applyAt .sorted (.idempotencyClaim "k" "b" 10 none ∅) 54).1
    ∃ record, s₃.idempotency["k"]? = some record ∧ record.result = some (.number 7) := by
  let := External.fixed
  intro s₁ s₂ s₃
  have claimed : (Store.empty.applyAt .sorted
      (.idempotencyClaim "k" "a" 10 (some 50) ∅) 0).2.output.field "claimed" = some (.bool true) := rfl
  let answer := (s₁.applyAt .sorted (.idempotencyComplete "k" "a" 1 (some (.number 7))) 5).2.output
  have completed : answer.field "completed" = some (.bool true) := Value.flag_iff.mp (by decide +kernel)
  have first : answer.field "duplicate" = some (.bool false) := Value.flag_iff.mp (by decide +kernel)
  have h : History _ s₂ := .apply _ _ _ (.apply _ _ _ .empty)
  have ⟨_, retained⟩ := (h.idempotency_keys "k").2.1 _ _ "a" 1 (some (.number 7)) rfl
    ⟨rfl, completed, first⟩
  have ⟨record, mem, _, result⟩ := retained 50
    ⟨_, .head _, ⟨_, _, _, rfl, rfl⟩, claimed, rfl⟩ (by decide) s₃ (.apply (by decide) .refl)
  exact ⟨record, mem, result⟩

end Store
