import FiduciaNode.State.Apply

namespace Value

-- A flag of an answer.
def flag (v : Value) (name : String) : Option Bool :=
  match v.field name with
  | some (.bool b) => some b
  | _ => none

theorem flag_iff {v : Value} {name : String} {b : Bool} :
    v.flag name = some b ↔ v.field name = some (.bool b) := by
  simp only [flag]
  split
  case h_1 h => simp [h]
  case h_2 h => simpa using h b

-- A text of an answer.
def text (v : Value) (name : String) : Option String :=
  match v.field name with
  | some (.string s) => some s
  | _ => none

-- A whole number of an answer.
def integer (v : Value) (name : String) : Option Int :=
  match v.field name with
  | some (.number n) => some n
  | _ => none

end Value

-- A command that was applied, with its timestamp and its answer.
structure Applied where
  command : Command
  now     : Nat
  output  : Value

namespace Store

variable [External]

-- The runs from the empty store, with everything that they applied, the latest first.
inductive History : List Applied → Store → Prop
  | empty : History [] .empty
  | apply (o : IterOrder) (c : Command) (now : Nat) :
    History events s →
    History (⟨c, now, (s.applyAt o c now).2.output⟩ :: events) (s.applyAt o c now).1

-- The runs from a store each command of which abides by `p`, given what was applied before and the store
-- that it is applied to.
inductive Abides (p : List Applied → Store → Command → Nat → Prop) (start : Store) :
    List Applied → Store → Prop
  | start : Abides p start [] start
  | apply (o : IterOrder) (c : Command) (now : Nat) (h : p events s c now) :
    Abides p start events s →
    Abides p start (⟨c, now, (s.applyAt o c now).2.output⟩ :: events) (s.applyAt o c now).1

-- The continuations of a run, with whatever commands.
abbrev Continues : Store → Store → Prop :=
  Runs fun _ _ _ _ => True

-- The continuations of a run from a time on, with timestamps that do not go back and commands that
-- satisfy `p`. Time also passes without a command.
inductive Advances (p : Store → Command → Nat → Prop) (s : Store) (t : Nat) : Store → Nat → Prop
  | refl : Advances p s t s t
  | wait (later : t₁ ≤ t₂) : Advances p s t s₁ t₁ → Advances p s t s₁ t₂
  | apply (o : IterOrder) (c : Command) (now : Nat) (h : p s₁ c now) (later : t₁ ≤ now) :
    Advances p s t s₁ t₁ → Advances p s t (s₁.applyAt o c now).1 now

variable {s : Store} {e : Applied} {events later earlier : List Applied}

-- The point of a run right after one of its commands.
theorem History.split (h : History events s) (split : events = later ++ e :: earlier) :
    ∃ s₁, History (e :: earlier) s₁ ∧ Continues s₁ s := by
  induction h generalizing later
  case empty => simp at split
  case apply s o c now h ih =>
    cases later
    case nil =>
      cases split
      exact ⟨_, h.apply o c now, .refl⟩
    case cons =>
      cases split
      have ⟨s₁, h, r⟩ := ih rfl
      exact ⟨s₁, h, .apply trivial r⟩

end Store
