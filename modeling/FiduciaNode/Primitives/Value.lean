import FiduciaNode.Primitives.HashMap

-- A JSON value. An object lists its fields in the order in which they are written.
inductive Value
  | null
  | bool (b : Bool)
  | number (n : Int)
  | float (x : Float)
  | string (s : String)
  | array (elems : List Value)
  | object (fields : List (String × Value))
  deriving Inhabited

class Serialize (α : Type) where
  toValue : α → Value

export Serialize (toValue)

namespace Value

instance : Serialize Value where
  toValue := id

instance : Serialize Bool where
  toValue := bool

instance : Serialize Nat where
  toValue n := number n

instance : Serialize Int where
  toValue := number

instance : Serialize String where
  toValue := string

-- A number that is not finite has no JSON form.
instance : Serialize Float where
  toValue x := if x.isFinite then float x else null

instance : Serialize Float32 where
  toValue x := toValue x.toFloat

instance {α} [Serialize α] : Serialize (Option α) where
  toValue
    | none => null
    | some a => toValue a

instance {α} [Serialize α] : Serialize (List α) where
  toValue l := array (l.map toValue)

instance {α} [Serialize α] : Serialize (HashMap String α) where
  toValue m := object (m.toList.map fun (k, v) => (k, toValue v))

instance : Serialize (BTreeSet String) where
  toValue s := toValue s.toList

def field (v : Value) (name : String) : Option Value :=
  match v with
  | object fields => (fields.find? (·.1 = name)).map Prod.snd
  | _ => none

end Value

instance {α} [Serialize α] : CoeOut α Value where
  coe := toValue

def json (fields : List (String × Value)) : Value :=
  .object fields
