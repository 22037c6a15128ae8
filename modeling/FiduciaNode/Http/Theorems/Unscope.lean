import FiduciaNode.Http.Responses
import FiduciaNode.Http.Theorems.Isolation

namespace OrgScope

variable [External] {org org' : OrgScope} {text field : String} {identity : Bool}

section Text

theorem unscopeText_scope (text : String) : org.unscopeText (org.scope text) = some text := by
  have delim : (org.scope text).toList.head? = some External.orgScopeDelim := by simp [toList_scope]
  rw [unscopeText, if_pos delim, unscope_eq_some_iff]

-- A text that begins with the delimiter loses what it has in common with a scoped text.
theorem unscopeText_eq_self_iff :
    (org.unscopeText text = some text) ↔ text.toList.head? ≠ some External.orgScopeDelim := by
  rw [unscopeText]
  split
  case isFalse h => simp [h]
  case isTrue h =>
    simp only [h, ne_eq, not_true_eq_false, iff_false, unscope_eq_some_iff]
    intro same
    have := congrArg (·.toList.length) same
    simp [toList_scope] at this
    omega

end Text

section Values

variable (org)

mutual

-- The value in which every text that stands for a key or a name is scoped.
def scopeValue (identity : Bool) : Value → Value
  | .string text => .string (if identity then org.scope text else text)
  | .array items => .array (scopeItems identity items)
  | .object fields => .object (scopeFields fields)
  | .null => .null
  | .bool b => .bool b
  | .number n => .number n
  | .float x => .float x

def scopeItems (identity : Bool) : List Value → List Value
  | [] => []
  | item :: items => scopeValue identity item :: scopeItems identity items

def scopeFields : List (String × Value) → List (String × Value)
  | [] => []
  | (field, child) :: fields =>
    (
      field,
      if opaqueFields.contains field then child else scopeValue (identityFields.contains field) child
    ) :: scopeFields fields

end

mutual

-- The caller gets back what was scoped, by induction on the value.
theorem unscopeValue_scopeValue (identity : Bool) :
    (v : Value) → org.unscopeValue identity (org.scopeValue identity v) = some v
  | .string text => by
    cases identity
    case false => rfl
    case true => simp [scopeValue, unscopeValue, unscopeText_scope]
  | .array items => by simp [scopeValue, unscopeValue, unscopeItems_scopeItems identity items]
  | .object fields => by simp [scopeValue, unscopeValue, unscopeFields_scopeFields fields]
  | .null => rfl
  | .bool _ => rfl
  | .number _ => rfl
  | .float _ => rfl

theorem unscopeItems_scopeItems (identity : Bool) :
    (items : List Value) → org.unscopeItems identity (org.scopeItems identity items) = some items
  | [] => rfl
  | item :: items => by
    simp [scopeItems, unscopeItems, unscopeValue_scopeValue identity item,
      unscopeItems_scopeItems identity items]

theorem unscopeFields_scopeFields :
    (fields : List (String × Value)) → org.unscopeFields (org.scopeFields fields) = some fields
  | [] => rfl
  | (field, child) :: fields => by
    have child' := unscopeValue_scopeValue (identityFields.contains field) child
    simp only [scopeFields, unscopeFields, unscopeFields_scopeFields fields]
    split <;> simp_all

end

end Values

section Scoped

variable (org)

-- Every text in the value that stands for a key or a name is one of the organization.
def Scoped (identity : Bool) (v : Value) : Prop :=
  v ∈ Set.range (org.scopeValue identity)

def scopeField (f : String × Value) : String × Value :=
  (f.1, if opaqueFields.contains f.1 then f.2 else org.scopeValue (identityFields.contains f.1) f.2)

theorem scopeItems_eq_map (items : List Value) :
    org.scopeItems identity items = items.map (org.scopeValue identity) := by
  induction items
  case nil => rfl
  case cons ih => rw [scopeItems, ih, List.map_cons]

theorem scopeFields_eq_map (fields : List (String × Value)) :
    org.scopeFields fields = fields.map org.scopeField := by
  induction fields
  case nil => rfl
  case cons ih => rw [scopeFields, ih, List.map_cons, scopeField]

theorem mem_range_scopeFields {fields : List (String × Value)} :
    (fields ∈ Set.range org.scopeFields) ↔
    (∀ f ∈ fields, opaqueFields.contains f.1 ∨ org.Scoped (identityFields.contains f.1) f.2) := by
  have field (f : String × Value) : f ∈ Set.range org.scopeField ↔
      opaqueFields.contains f.1 ∨ org.Scoped (identityFields.contains f.1) f.2 := by
    constructor
    case mp =>
      rintro ⟨own, rfl⟩
      cases kept : opaqueFields.contains own.1
      case true => exact .inl kept
      case false => exact .inr ⟨own.2, by rw [scopeField, kept]; rfl⟩
    case mpr =>
      intro h
      cases kept : opaqueFields.contains f.1
      case true => exact ⟨f, by rw [scopeField, kept]; rfl⟩
      case false =>
        have ⟨own, eq⟩ : org.Scoped (identityFields.contains f.1) f.2 :=
          h.resolve_left (Bool.eq_false_iff.mp kept)
        exact ⟨(f.1, own), by rw [scopeField, kept, eq]; rfl⟩
  rw [funext org.scopeFields_eq_map, Set.range_list_map]
  exact forall₂_congr fun f _ => field f

variable {org}

@[simp]
theorem scoped_json {fields : List (String × Value)} :
    org.Scoped identity (json fields) ↔
    (∀ f ∈ fields, opaqueFields.contains f.1 ∨ org.Scoped (identityFields.contains f.1) f.2) := by
  rw [← mem_range_scopeFields]
  constructor
  case mp =>
    rintro ⟨own, h⟩
    cases own <;> cases h
    exact ⟨_, rfl⟩
  case mpr =>
    rintro ⟨own, h⟩
    exact ⟨.object own, by rw [scopeValue, h, json]⟩

@[simp]
theorem scoped_array {items : List Value} :
    org.Scoped identity (.array items) ↔ ∀ item ∈ items, org.Scoped identity item := by
  have range : items ∈ Set.range (org.scopeItems identity) ↔ ∀ item ∈ items, org.Scoped identity item := by
    rw [funext org.scopeItems_eq_map, Set.range_list_map]
    rfl
  rw [← range]
  constructor
  case mp =>
    rintro ⟨own, h⟩
    cases own <;> cases h
    exact ⟨_, rfl⟩
  case mpr =>
    rintro ⟨own, h⟩
    exact ⟨.array own, by rw [scopeValue, h]⟩

@[simp]
theorem scoped_value {v : Value} : org.Scoped identity (toValue v) ↔ org.Scoped identity v :=
  Iff.rfl

@[simp]
theorem scoped_null : org.Scoped identity .null :=
  ⟨.null, rfl⟩

@[simp]
theorem scoped_bool {b : Bool} : org.Scoped identity (toValue b) :=
  ⟨.bool b, rfl⟩

@[simp]
theorem scoped_nat {n : Nat} : org.Scoped identity (toValue n) :=
  ⟨.number n, rfl⟩

@[simp]
theorem scoped_string : org.Scoped false (toValue text) :=
  ⟨.string text, rfl⟩

@[simp]
theorem scoped_float {x : Float32} : org.Scoped identity (toValue x) := by
  simp only [toValue]
  split
  case isTrue => exact ⟨.float x.toFloat, rfl⟩
  case isFalse => exact ⟨.null, rfl⟩

@[simp]
theorem scoped_scope : org.Scoped true (toValue (org.scope text)) :=
  ⟨.string text, rfl⟩

@[simp]
theorem scoped_option {α : Type} [Serialize α] {a : Option α} :
    org.Scoped identity (toValue a) ↔ ∀ x ∈ a, org.Scoped identity (toValue x) := by
  cases a
  case none => simp [toValue]
  case some a => simp [toValue]

@[simp]
theorem scoped_list {α : Type} [Serialize α] {l : List α} :
    org.Scoped identity (toValue l) ↔ ∀ x ∈ l, org.Scoped identity (toValue x) := by
  simp only [show toValue l = .array (l.map toValue) from rfl, scoped_array, List.forall_mem_map]

attribute [simp] identityFields opaqueFields

end Scoped

end OrgScope
