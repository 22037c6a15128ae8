import FiduciaNode.Http.Delivery
import FiduciaNode.Http.Theorems.Isolation

namespace Http.Delivery

section Keys

variable {name name' : String} {fire fire' : Nat}

theorem colon_notMem_repr (fire : Nat) : ':' ∉ fire.repr.toList := by
  rw [Nat.toList_repr]
  intro mem
  have digit := Nat.isDigit_of_mem_toDigits (by decide) (by decide) mem
  exact absurd digit (by decide)

theorem reverse_labelled (label name fire : String) :
    (label ++ name ++ ":" ++ fire).toList.reverse =
      fire.toList.reverse ++ ':' :: (name.toList.reverse ++ label.toList.reverse) := by
  simp only [String.toList_append, List.reverse_append]
  rfl

-- The name may have colons itself, but the fire id has none, so the last colon ends the name.
theorem labelled_inj (label : String) :
    label ++ name ++ ":" ++ fire.repr = label ++ name' ++ ":" ++ fire'.repr ↔ name = name' ∧ fire = fire' := by
  have colon (fire : Nat) : ':' ∉ fire.repr.toList.reverse := mt List.mem_reverse.mp (colon_notMem_repr fire)
  rw [← String.toList_inj, ← List.reverse_inj, reverse_labelled, reverse_labelled,
    List.append_cons_inj_of_delim (colon fire) (colon fire'), List.append_left_inj, List.reverse_inj, List.reverse_inj,
    String.toList_inj, String.toList_inj, Nat.repr_inj, and_comm]

theorem deliveryIdempotencyKey_inj :
    deliveryIdempotencyKey name fire = deliveryIdempotencyKey name' fire' ↔ name = name' ∧ fire = fire' :=
  labelled_inj _

end Keys

section Attempts

variable {world : World} {request r : Request} {remaining : Nat} {last : DeliveryOutcome}

theorem attemptAll_sent (sent : r ∈ (attemptAll world request remaining last).1) : r = request := by
  induction remaining generalizing last
  case zero => cases sent
  case succ remaining ih =>
    have one (h : r ∈ if isSendable world request then [request] else []) : r = request := by
      split at h
      case isTrue => exact List.mem_singleton.mp h
      case isFalse => cases h
    simp only [attemptAll] at sent
    split at sent
    case h_1 =>
      split at sent
      case h_1 | h_2 => exact one sent
      case h_3 => exact (List.mem_append.mp sent).elim one ih
    case h_2 => exact (List.mem_append.mp sent).elim one ih

end Attempts

section Deliver

variable [External] [Net] {world world' : World} {config config' : RunnerConfig} {schedule schedule' : Schedule}
  {fire fire' : Nat} {r r' : Request}

-- Every attempt carries the key of the fire.
theorem deliver_sent (sent : r ∈ (deliver world config schedule fire).1) :
    r.idempotencyKey = deliveryIdempotencyKey (unscopedName schedule.name) fire := by
  simp only [deliver] at sent
  split at sent
  case h_1 => cases sent
  case h_2 =>
    split at sent
    case isTrue => cases sent
    case isFalse =>
      split at sent
      case h_1 => cases sent
      case h_2 => exact congrArg Request.idempotencyKey (attemptAll_sent sent)

omit [Net] in
theorem unscopedName_scope (soh : External.orgScopeDelim = '\u0001') (org : OrgScope) (key : String) :
    unscopedName (org.scope key) = key := by
  simp [unscopedName, splitScope, OrgScope.toList_scope, Cron.splitOnce_append (OrgScope.delim_notMem soh)]

-- Two deliveries that carry one key are of one fire, unless the schedules of two organizations have one name.
theorem delivery_keys_distinct_iff (soh : External.orgScopeDelim = '\u0001') {a b : OrgScope} {key key' : String}
    (name : schedule.name = a.scope key) (name' : schedule'.name = b.scope key')
    (sent : r ∈ (deliver world config schedule fire).1) (sent' : r' ∈ (deliver world' config' schedule' fire').1) :
    (r.idempotencyKey = r'.idempotencyKey → schedule.name = schedule'.name ∧ fire = fire') ↔
      a = b ∨ key ≠ key' ∨ fire ≠ fire' := by
  rw [deliver_sent sent, deliver_sent sent', deliveryIdempotencyKey_inj, name, name', unscopedName_scope soh,
    unscopedName_scope soh, OrgScope.scope_inj soh]
  tauto

end Deliver

-- A target that takes every request.
@[reducible]
def World.open : World where
  lookup _ _       := some [.v4 { octets := #v[8, 8, 8, 8] }]
  builds           := true
  pushSegments _ _ := none
  toVec _          := []
  isHeaderValue _  := true
  respond _        := .ok 200

@[reducible]
def Net.target : Net where
  display _  := "8.8.8.8"
  parse _    := none
  ipv6Host _ := "[::8]"
  parseUrl _ := some {
    scheme := "https", username := "", password := none, host := some (.domain "example.com"), port := none
    path := "/hook", query := none, fragment := none
  }

def webhookOf [External] (org : OrgScope) (key : String) : Schedule where
  name        := org.scope key
  cron        := some "* * * * *"
  oneShotAtMs := none
  target      := .webhook "https://example.com/hook"
  delivery    := .atLeastOnce
  maxRetries  := 3
  enabled     := true
  nextFireMs  := some 60000

def requests [External] (schedule : Schedule) (fire : Nat) : List Request :=
  letI := Net.target
  (deliver World.open ⟨none, none, none⟩ schedule fire).1

-- The schedules of two organizations under one name share the key of a fire.
theorem tenants_share_delivery_key :
    letI := External.fixed
    let acme : OrgScope := ⟨"acme", by decide⟩
    let globex : OrgScope := ⟨"globex", by decide⟩
    let keys (org : OrgScope) := (requests (webhookOf org "billing") 60000).map Request.idempotencyKey
    keys acme = ["fiducia-schedule:billing:60000"] ∧ keys globex = ["fiducia-schedule:billing:60000"] ∧
    (webhookOf acme "billing").name ≠ (webhookOf globex "billing").name := by
  decide +kernel

theorem other_name_other_key :
    letI := External.fixed
    let acme : OrgScope := ⟨"acme", by decide⟩
    let globex : OrgScope := ⟨"globex", by decide⟩
    ∃ r ∈ requests (webhookOf acme "billing") 60000, ∃ r' ∈ requests (webhookOf globex "mail") 60000,
      r.idempotencyKey ≠ r'.idempotencyKey := by
  let := External.fixed
  let := Net.target
  intro acme globex
  have ⟨r, sent⟩ : ∃ r, r ∈ requests (webhookOf acme "billing") 60000 := ⟨_, .head _⟩
  have ⟨r', sent'⟩ : ∃ r', r' ∈ requests (webhookOf globex "mail") 60000 := ⟨_, .head _⟩
  have distinct := (delivery_keys_distinct_iff rfl rfl rfl sent sent').mpr (.inr (.inl (by decide)))
  exact ⟨r, sent, r', sent', fun same => absurd (distinct same).1 (by decide +kernel)⟩

end Http.Delivery
