import FiduciaNode.Primitives.HashMap
import FiduciaNode.Primitives.IndexedQueue
import FiduciaNode.Primitives.Linked

-- The queue as it is stored: nodes in the slots of a slab, linked in the order of the queue, and an index
-- that leads from a key to its slot. An operation that runs into an `expect` or a failed assertion has no
-- result.

abbrev IndexedQueue.Node (κ ν : Type) := Linked.Node Nat (κ × ν)

structure SlabQueue (κ ν : Type) [Ord κ] where
  slab  : List (Option (IndexedQueue.Node κ ν))
  free  : List Nat
  index : HashMap κ Nat
  head  : Option Nat
  tail  : Option Nat

namespace SlabQueue

open IndexedQueue (Node)

def releaseEmptyCapacityAt : Nat := 1024

variable {κ ν : Type} [Ord κ]

def new : SlabQueue κ ν where
  slab  := []
  free  := []
  index := ∅
  head  := none
  tail  := none

-- The node in an occupied slot.
def node (q : SlabQueue κ ν) (i : Nat) : Option (Node κ ν) :=
  q.slab[i]?.join

def setNode (q : SlabQueue κ ν) (i : Nat) (node : Option (Node κ ν)) : SlabQueue κ ν :=
  { q with slab := q.slab.set i node }

def setNext (q : SlabQueue κ ν) (i : Nat) (next : Option Nat) : Option (SlabQueue κ ν) := do
  let node ← q.node i
  some (q.setNode i (some { node with next }))

def setPrev (q : SlabQueue κ ν) (i : Nat) (prev : Option Nat) : Option (SlabQueue κ ν) := do
  let node ← q.node i
  some (q.setNode i (some { node with prev }))

-- The link to a slot is in the slot before it, or it is the head.
def linkNext (q : SlabQueue κ ν) (cell next : Option Nat) : Option (SlabQueue κ ν) :=
  match cell with
  | some i => q.setNext i next
  | none => some { q with head := next }

def linkPrev (q : SlabQueue κ ν) (cell prev : Option Nat) : Option (SlabQueue κ ν) :=
  match cell with
  | some i => q.setPrev i prev
  | none => some { q with tail := prev }

-- The slot that was freed last is the first to be reused.
def alloc (q : SlabQueue κ ν) (node : Node κ ν) : Option (SlabQueue κ ν × Nat) :=
  match q.free with
  | i :: free => if i < q.slab.length then some ({ q with free }.setNode i (some node), i) else none
  | [] => some ({ q with slab := q.slab ++ [some node] }, q.slab.length)

variable [Std.TransOrd κ]

def len (q : SlabQueue κ ν) : Nat :=
  q.index.size

def isEmpty (q : SlabQueue κ ν) : Bool :=
  q.index.isEmpty

def contains (q : SlabQueue κ ν) (key : κ) : Bool :=
  q.index.contains key

def pushBack (q : SlabQueue κ ν) (key : κ) (value : ν) : Option (SlabQueue κ ν × Bool) :=
  if q.index.contains key then some (q, false) else do
    let (q, idx) ← q.alloc { payload := (key, value), prev := q.tail, next := none }
    let q ← q.linkNext q.tail (some idx)
    some ({ q with tail := some idx, index := q.index.insert key idx }, true)

-- `capacity` is the capacity of the slab, which the allocator chooses.
def unlink (q : SlabQueue κ ν) (capacity idx : Nat) : Option (SlabQueue κ ν × κ × ν) := do
  let node ← q.node idx
  let q := q.setNode idx none
  let q ← q.linkNext node.prev node.next
  let q ← q.linkPrev node.next node.prev
  let removed := q.index[node.payload.1]?
  let q := { q with index := q.index.erase node.payload.1 }
  if removed ≠ some idx then none
  else if q.index.isEmpty then
    let q := { q with head := none, tail := none }
    if capacity ≥ releaseEmptyCapacityAt
    then some ({ q with slab := [], free := [], index := ∅ }, node.payload)
    else some ({ q with free := idx :: q.free }, node.payload)
  else some ({ q with free := idx :: q.free }, node.payload)

def popFront (q : SlabQueue κ ν) (capacity : Nat) : Option (SlabQueue κ ν × Option (κ × ν)) :=
  match q.head with
  | none => some (q, none)
  | some head => do
    let (q, entry) ← q.unlink capacity head
    some (q, some entry)

def remove (q : SlabQueue κ ν) (capacity : Nat) (key : κ) : Option (SlabQueue κ ν × Option ν) :=
  match q.index[key]? with
  | none => some (q, none)
  | some idx => do
    let (q, entry) ← q.unlink capacity idx
    some (q, some entry.2)

def get (q : SlabQueue κ ν) (key : κ) : Option (Option ν) :=
  match q.index[key]? with
  | none => some none
  | some i => do
    let node ← q.node i
    some (some node.payload.2)

-- The caller changes the value that it borrows.
def getMut (q : SlabQueue κ ν) (key : κ) (change : ν → ν) : Option (SlabQueue κ ν × Option ν) :=
  match q.index[key]? with
  | none => some (q, none)
  | some i => do
    let node ← q.node i
    let (key, value) := node.payload
    some (q.setNode i (some { node with payload := (key, change value) }), some value)

def front (q : SlabQueue κ ν) : Option (Option (κ × ν)) :=
  match q.head with
  | none => some none
  | some i => do
    let node ← q.node i
    some (some node.payload)

-- A walk along the links visits each slot at most once.
def positionFrom (q : SlabQueue κ ν) (target : Nat) :
    (fuel : Nat) → (cur : Option Nat) → (i : Nat) → Option (Option Nat)
  | _, none, _ => some none
  | 0, some _, _ => none
  | fuel + 1, some c, i =>
    if c = target then some (some i) else do
      let node ← q.node c
      q.positionFrom target fuel node.next (i + 1)

def position (q : SlabQueue κ ν) (key : κ) : Option (Option Nat) :=
  match q.index[key]? with
  | none => some none
  | some target => q.positionFrom target q.slab.length q.head 0

def iterFrom (q : SlabQueue κ ν) : (fuel : Nat) → (cur : Option Nat) → Option (List (κ × ν))
  | _, none => some []
  | 0, some _ => none
  | fuel + 1, some i => do
    let node ← q.node i
    let rest ← q.iterFrom fuel node.next
    some (node.payload :: rest)

def iter (q : SlabQueue κ ν) : Option (List (κ × ν)) :=
  q.iterFrom q.slab.length q.head

-- The slots that are linked, the latest first, if all assertions on the way hold.
def validateFrom (q : SlabQueue κ ν) :
    (fuel : Nat) → (current previous : Option Nat) → (visited : List Nat) → Option (Option Nat × List Nat)
  | _, none, previous, visited => some (previous, visited)
  | 0, some _, _, _ => none
  | fuel + 1, some slot, previous, visited =>
    if slot ≥ q.slab.length || visited.contains slot then none else do
      let node ← q.node slot
      if node.prev ≠ previous || q.index[node.payload.1]? ≠ some slot then none
      else q.validateFrom fuel node.next (some slot) (slot :: visited)

def debugValidate (q : SlabQueue κ ν) : Bool :=
  q.index.isEmpty = q.head.isNone && q.index.isEmpty = q.tail.isNone &&
  match q.validateFrom q.index.size q.head none [] with
  | none => false
  | some (previous, visited) =>
    previous = q.tail && visited.length = q.index.size &&
    decide q.free.Nodup && q.free.all (fun slot => (q.slab[slot]?.map Option.isNone).getD false) &&
    (List.range q.slab.length).all fun slot =>
      if (q.node slot).isSome then visited.contains slot else q.free.contains slot

inductive Op (κ ν : Type)
  | pushBack (key : κ) (value : ν)
  | popFront (capacity : Nat)
  | remove (capacity : Nat) (key : κ)
  | get (key : κ)
  | position (key : κ)
  | contains (key : κ)
  | iter

inductive Answer (κ ν : Type)
  | pushed (new : Bool)
  | popped (entry : Option (κ × ν))
  | removed (value : Option ν)
  | value (value : Option ν)
  | place (position : Option Nat)
  | found (found : Bool)
  | entries (entries : List (κ × ν))

def apply (q : SlabQueue κ ν) : Op κ ν → Option (SlabQueue κ ν × Answer κ ν)
  | .pushBack key value => (q.pushBack key value).map fun (q, new) => (q, .pushed new)
  | .popFront capacity => (q.popFront capacity).map fun (q, entry) => (q, .popped entry)
  | .remove capacity key => (q.remove capacity key).map fun (q, value) => (q, .removed value)
  | .get key => (q.get key).map fun value => (q, .value value)
  | .position key => (q.position key).map fun position => (q, .place position)
  | .contains key => some (q, .found (q.contains key))
  | .iter => q.iter.map fun entries => (q, .entries entries)

def run (q : SlabQueue κ ν) : List (Op κ ν) → Option (SlabQueue κ ν × List (Answer κ ν))
  | [] => some (q, [])
  | op :: ops => do
    let (q, answer) ← q.apply op
    let (q, answers) ← q.run ops
    some (q, answer :: answers)

section Codec

variable {ε : Type}

-- The length that is announced, and the elements in their order.
def serialize (write : κ × ν → ε) (q : SlabQueue κ ν) : Option (Nat × List ε) := do
  let entries ← q.iter
  some (q.len, entries.map write)

def visitSeq (read : ε → Except String (κ × ν)) (q : SlabQueue κ ν) :
    List ε → Option (Except String (SlabQueue κ ν))
  | [] => some (.ok q)
  | element :: elements =>
    match read element with
    | .error error => some (.error error)
    | .ok (key, value) => do
      let (q, new) ← q.pushBack key value
      if !new then some (.error "duplicate key in serialized IndexedQueue") else q.visitSeq read elements

def deserialize (read : ε → Except String (κ × ν)) (elements : List ε) : Option (Except String (SlabQueue κ ν)) :=
  visitSeq read .new elements

end Codec

section Use

-- The capacity is that of the storage.
def Op.withCapacity (capacity : Nat) : Op κ ν → Op κ ν
  | .popFront _ => .popFront capacity
  | .remove _ key => .remove capacity key
  | op => op

-- Everything that can be done with a queue.
inductive Use (κ ν : Type)
  | op (op : Op κ ν)
  | getMut (key : κ) (change : ν → ν)
  | front
  | len
  | isEmpty

inductive Seen (κ ν : Type)
  | answer (answer : Answer κ ν)
  | borrowed (value : Option ν)
  | front (entry : Option (κ × ν))
  | len (len : Nat)
  | isEmpty (empty : Bool)

def use (q : SlabQueue κ ν) (capacity : Nat) : Use κ ν → Option (SlabQueue κ ν × Seen κ ν)
  | .op op => (q.apply (op.withCapacity capacity)).map fun (q, answer) => (q, .answer answer)
  | .getMut key change => (q.getMut key change).map fun (q, value) => (q, .borrowed value)
  | .front => q.front.map fun entry => (q, .front entry)
  | .len => some (q, .len q.len)
  | .isEmpty => some (q, .isEmpty q.isEmpty)

def uses (q : SlabQueue κ ν) (capacity : Nat → Nat) : List (Use κ ν) → Option (SlabQueue κ ν × List (Seen κ ν))
  | [] => some (q, [])
  | use :: rest => do
    let (q, seen) ← q.use (capacity 0) use
    let (q, later) ← q.uses (fun n => capacity (n + 1)) rest
    some (q, seen :: later)

end Use

end SlabQueue

namespace IndexedQueue

open SlabQueue (Op Answer Use Seen)

variable {κ ν : Type} [DecidableEq κ]

-- The same operations on the list of the entries.
def apply (q : IndexedQueue κ ν) : Op κ ν → IndexedQueue κ ν × Answer κ ν
  | .pushBack key value => (q.pushBack key value, .pushed !q.contains key)
  | .popFront _ => (q.popFront, .popped q.front)
  | .remove _ key => (q.remove key, .removed (q.get key))
  | .get key => (q, .value (q.get key))
  | .position key => (q, .place (q.position key))
  | .contains key => (q, .found (q.contains key))
  | .iter => (q, .entries q.iter)

def run (q : IndexedQueue κ ν) : List (Op κ ν) → IndexedQueue κ ν × List (Answer κ ν)
  | [] => (q, [])
  | op :: ops =>
    let (q, answer) := q.apply op
    let (q, answers) := q.run ops
    (q, answer :: answers)

def update (q : IndexedQueue κ ν) (key : κ) (change : ν → ν) : IndexedQueue κ ν where
  entries := q.entries.map fun (k, v) => (k, if k = key then change v else v)
  nodup := by simpa [Function.comp_def] using q.nodup

def use (q : IndexedQueue κ ν) : Use κ ν → IndexedQueue κ ν × Seen κ ν
  | .op op => ((q.apply op).1, .answer (q.apply op).2)
  | .getMut key change => (q.update key change, .borrowed (q.get key))
  | .front => (q, .front q.front)
  | .len => (q, .len q.len)
  | .isEmpty => (q, .isEmpty q.isEmpty)

def uses (q : IndexedQueue κ ν) : List (Use κ ν) → IndexedQueue κ ν × List (Seen κ ν)
  | [] => (q, [])
  | use :: rest =>
    let (q, seen) := q.use use
    let (q, later) := q.uses rest
    (q, seen :: later)

end IndexedQueue
