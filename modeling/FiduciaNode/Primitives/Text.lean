import FiduciaNode.Primitives.Value

-- A JSON text as the tree of what it says. A number of single precision stands for its shortest decimal form.
inductive Text
  | null
  | bool (b : Bool)
  | number (n : Int)
  | float (x : Float)
  | single (x : Float32)
  | string (s : String)
  | array (items : List Text)
  | object (fields : List (String × Text))

namespace Text

mutual

def ofValue : Value → Text
  | .null => null
  | .bool b => bool b
  | .number n => number n
  | .float x => float x
  | .string s => string s
  | .array items => array (ofValues items)
  | .object fields => object (ofFields fields)

def ofValues : List Value → List Text
  | [] => []
  | item :: items => ofValue item :: ofValues items

def ofFields : List (String × Value) → List (String × Text)
  | [] => []
  | (name, child) :: fields => (name, ofValue child) :: ofFields fields

end

mutual

def asValue : Text → Value
  | null => .null
  | bool b => .bool b
  | number n => .number n
  | float x => .float x
  | single x => .float x.toFloat
  | string s => .string s
  | array items => .array (asValues items)
  | object fields => .object (asFields fields)

def asValues : List Text → List Value
  | [] => []
  | item :: items => asValue item :: asValues items

def asFields : List (String × Text) → List (String × Value)
  | [] => []
  | (name, child) :: fields => (name, asValue child) :: asFields fields

end

mutual

-- How deep arrays and objects are nested.
def depth : Text → Nat
  | array items => 1 + depthItems items
  | object fields => 1 + depthFields fields
  | _ => 0

def depthItems : List Text → Nat
  | [] => 0
  | item :: items => max (depth item) (depthItems items)

def depthFields : List (String × Text) → Nat
  | [] => 0
  | (_, child) :: fields => max (depth child) (depthFields fields)

end

-- The parser refuses a text that is nested deeper.
def maxDepth : Nat := 128

def parse (t : Text) : Option Text :=
  if t.depth ≤ maxDepth then some t else none

class Write (α : Type) where
  write : α → Text

-- How a value is read, and what it is if its field is left out.
class Read (α : Type) where
  read    : Text → Option α
  leftOut : Option α

export Write (write)
export Read (read)

def field {α : Type} [Read α] (t : Text) (name : String) : Option α :=
  match t with
  | object fields =>
    match fields.lookup name with
    | some child => read child
    | none => Read.leftOut
  | _ => none

def fieldOr {α : Type} [Read α] (t : Text) (name : String) (default : α) : Option α :=
  match t with
  | object fields =>
    match fields.lookup name with
    | some child => read child
    | none => some default
  | _ => none

instance : Write Value where
  write := ofValue

instance : Read Value where
  read t  := some (asValue t)
  leftOut := none

instance : Write Bool where
  write := bool

instance : Read Bool where
  read
    | bool b => some b
    | _ => none
  leftOut := none

instance : Write Nat where
  write n := number n

instance : Read Nat where
  read
    | number (.ofNat n) => some n
    | _ => none
  leftOut := none

instance : Write String where
  write := string

instance : Read String where
  read
    | string s => some s
    | _ => none
  leftOut := none

-- A number that is not finite is written as null, and null is not read as a number.
instance : Write Float32 where
  write x := if x.isFinite then single x else null

instance : Read Float32 where
  read
    | single x => some x
    | float x => some x.toFloat32
    | number n => some (.ofInt n)
    | _ => none
  leftOut := none

instance {α : Type} [Write α] : Write (Option α) where
  write
    | none => null
    | some a => write a

instance {α : Type} [Read α] : Read (Option α) where
  read
    | null => some none
    | t => (read t).map some
  leftOut := some none

instance {α : Type} [Write α] : Write (List α) where
  write l := array (l.map write)

instance {α : Type} [Read α] : Read (List α) where
  read
    | array items => items.mapM read
    | _ => none
  leftOut := none

section Lemmas

mutual

theorem asValue_ofValue : (v : Value) → (ofValue v).asValue = v
  | .null => rfl
  | .bool _ => rfl
  | .number _ => rfl
  | .float _ => rfl
  | .string _ => rfl
  | .array items => by rw [ofValue, asValue, asValues_ofValues items]
  | .object fields => by rw [ofValue, asValue, asFields_ofFields fields]

theorem asValues_ofValues : (items : List Value) → asValues (ofValues items) = items
  | [] => rfl
  | item :: items => by rw [ofValues, asValues, asValue_ofValue item, asValues_ofValues items]

theorem asFields_ofFields : (fields : List (String × Value)) → asFields (ofFields fields) = fields
  | [] => rfl
  | (name, child) :: fields => by rw [ofFields, asFields, asValue_ofValue child, asFields_ofFields fields]

end

variable {α : Type}

-- The value that is written is the value that is read.
class Lawful (α : Type) [Write α] [Read α] : Prop where
  read_write : ∀ a : α, read (write a) = some a

@[simp]
theorem read_write [Write α] [Read α] [Lawful α] (a : α) : read (write a) = some a :=
  Lawful.read_write a

instance : Lawful Value where
  read_write v := congrArg some (asValue_ofValue v)

instance : Lawful Bool where
  read_write _ := rfl

instance : Lawful Nat where
  read_write _ := rfl

instance : Lawful String where
  read_write _ := rfl

theorem read_array [Read α] {items : List Text} : (read (array items) : Option (List α)) = items.mapM read :=
  rfl

instance [Write α] [Read α] [Lawful α] : Lawful (List α) where
  read_write l := by
    rw [show write l = array (l.map write) from rfl, read_array, List.mapM_map]
    induction l
    case nil => rfl
    case cons a l ih => simp_all

instance : Lawful (Option Nat) where
  read_write
    | none => rfl
    | some _ => rfl

instance : Lawful (Option String) where
  read_write
    | none => rfl
    | some _ => rfl

theorem read_write_float (x : Float32) : (read (write x) : Option Float32) = if x.isFinite then some x else none := by
  simp only [write]
  split <;> rfl

@[simp]
theorem depth_string (s : String) : (write s).depth = 0 :=
  rfl

@[simp]
theorem depth_nat (n : Nat) : (write n).depth = 0 :=
  rfl

@[simp]
theorem depth_float (x : Float32) : (write x).depth = 0 := by
  simp only [write]
  split <;> rfl

@[simp]
theorem depth_option [Write α] (h : ∀ a : α, (write a).depth = 0) (a : Option α) : (write a).depth = 0 := by
  cases a
  case none => rfl
  case some a => exact h a

theorem depth_list [Write α] (h : ∀ a : α, (write a).depth = 0) (l : List α) : (write l).depth = 1 := by
  have items : depthItems (l.map write) = 0 := by
    induction l
    case nil => rfl
    case cons a l ih => simp [depthItems, h, ih]
  rw [show write l = array (l.map write) from rfl, depth, items]

end Lemmas

end Text
