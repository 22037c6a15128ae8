import FiduciaNode.Primitives.Slab

open Linked

namespace SlabQueue

variable {κ ν : Type} [Ord κ] {q : SlabQueue κ ν} {i : Nat} {node : IndexedQueue.Node κ ν}

section Memory

variable {cell : Option Nat} {cells : List (Nat × κ × ν)}

theorem node_setNode (h : i < q.slab.length) (node : Option (IndexedQueue.Node κ ν)) :
    (q.setNode i node).node = Memory.set q.node i node := by
  funext j
  simp only [SlabQueue.node, setNode, Memory.set]
  split
  case isTrue same => simp [← same, h]
  case isFalse ne => simp [ne]

theorem lt_of_node (h : q.node i ≠ none) : i < q.slab.length := by
  by_contra ge
  simp [SlabQueue.node, List.getElem?_eq_none (not_lt.mp ge)] at h

-- Only links are changed.
structure Relinked (q q' : SlabQueue κ ν) : Prop where
  length : q'.slab.length = q.slab.length
  free   : q'.free = q.free
  index  : q'.index = q.index

theorem Relinked.setNode (node : Option (IndexedQueue.Node κ ν)) : Relinked q (q.setNode i node) where
  length := by simp [SlabQueue.setNode]
  free   := rfl
  index  := rfl

theorem Relinked.trans {q₁ q₂ : SlabQueue κ ν} (h₁ : Relinked q q₁) (h₂ : Relinked q₁ q₂) : Relinked q q₂ where
  length := h₂.length.trans h₁.length
  free   := h₂.free.trans h₁.free
  index  := h₂.index.trans h₁.index

theorem linkNext_eq (h : ∀ i, cell = some i → q.node i ≠ none) (next : Option Nat) :
    ∃ q', q.linkNext cell next = some q' ∧ q'.node = Memory.linkNext q.node cell next ∧ Relinked q q' ∧
      q'.head = (cell.elim next fun _ => q.head) ∧ q'.tail = q.tail := by
  cases cell
  case none => exact ⟨_, rfl, rfl, ⟨rfl, rfl, rfl⟩, rfl, rfl⟩
  case some i =>
    have ⟨node, stored⟩ := Option.ne_none_iff_exists'.mp (h i rfl)
    refine ⟨q.setNode i (some { node with next }), by simp [linkNext, setNext, stored], ?_, .setNode _, rfl, rfl⟩
    rw [node_setNode (lt_of_node (h i rfl)), Memory.linkNext, Memory.setNext, stored]
    rfl

theorem linkPrev_eq (h : ∀ i, cell = some i → q.node i ≠ none) (prev : Option Nat) :
    ∃ q', q.linkPrev cell prev = some q' ∧ q'.node = Memory.linkPrev q.node cell prev ∧ Relinked q q' ∧
      q'.head = q.head ∧ q'.tail = (cell.elim prev fun _ => q.tail) := by
  cases cell
  case none => exact ⟨_, rfl, rfl, ⟨rfl, rfl, rfl⟩, rfl, rfl⟩
  case some i =>
    have ⟨node, stored⟩ := Option.ne_none_iff_exists'.mp (h i rfl)
    refine ⟨q.setNode i (some { node with prev }), by simp [linkPrev, setPrev, stored], ?_, .setNode _, rfl, rfl⟩
    rw [node_setNode (lt_of_node (h i rfl)), Memory.linkPrev, Memory.setPrev, stored]
    rfl

-- The free slots are those that are vacant.
structure Vacant (q : SlabQueue κ ν) : Prop where
  free  : ∀ i, i ∈ q.free ↔ i < q.slab.length ∧ q.node i = none
  nodup : q.free.Nodup

theorem alloc_eq (h : q.Vacant) (node : IndexedQueue.Node κ ν) :
    ∃ q' i, q.alloc node = some (q', i) ∧ q.node i = none ∧ q'.node = Memory.set q.node i (some node) ∧
      q'.Vacant ∧ q'.index = q.index ∧ q'.head = q.head ∧ q'.tail = q.tail := by
  cases free : q.free
  case cons i free' =>
    have ⟨lt, vacant⟩ := (h.free i).mp (by simp [free])
    have nodes : (q.setNode i (some node)).node = Memory.set q.node i (some node) := node_setNode lt _
    have nodup := free ▸ h.nodup
    refine ⟨{ q with free := free' }.setNode i (some node), i, by simp [alloc, free, lt], vacant, nodes,
      ⟨fun j => ?free, nodup.of_cons⟩, rfl, rfl, rfl⟩
    case free =>
      have old := h.free j
      have fresh : i ∉ free' := (List.nodup_cons.mp nodup).1
      have new : ({ q with free := free' }.setNode i (some node)).node j = Memory.set q.node i (some node) j :=
        congrFun nodes j
      rw [new]
      simp only [setNode, List.length_set, Memory.set]
      split
      case isTrue same => simp [← same, fresh]
      case isFalse ne => simpa [free, Ne.symm ne] using old
  case nil =>
    have nodes : ({ q with slab := q.slab ++ [some node] } : SlabQueue κ ν).node =
        Memory.set q.node q.slab.length (some node) := by
      funext j
      simp only [SlabQueue.node, Memory.set]
      rcases lt_trichotomy j q.slab.length with lt | rfl | gt
      case inl => simp [List.getElem?_append_left lt, lt.ne']
      case inr.inl => simp
      case inr.inr => simp [List.getElem?_eq_none, gt.le, Nat.succ_le_of_lt gt, gt.ne]
    refine ⟨{ q with slab := q.slab ++ [some node] }, q.slab.length, by simp [alloc, free],
      by simp [SlabQueue.node], nodes, ⟨fun j => ?free, by simp [free]⟩, rfl, rfl, rfl⟩
    case free =>
      have old := h.free j
      rw [nodes]
      simp only [free, List.not_mem_nil, false_iff, List.length_append, List.length_singleton, Memory.set] at old ⊢
      rintro ⟨lt, vacant⟩
      split at vacant
      case isTrue => contradiction
      case isFalse ne => exact old ⟨by omega, vacant⟩

-- A walk along the links sees the cells in their order.
theorem iterFrom_eq {prev : Option Nat} {fuel : Nat} (h : Segment q.node prev cells none)
    (enough : cells.length ≤ fuel) : q.iterFrom fuel (first cells none) = some (cells.map Prod.snd) := by
  induction cells generalizing prev fuel
  case nil => cases fuel <;> rfl
  case cons cell cells ih =>
    cases fuel
    case zero => simp at enough
    case succ fuel =>
      have rest := ih h.2 (Nat.le_of_succ_le_succ enough)
      simp [iterFrom, h.1, rest]

theorem positionFrom_eq {prev : Option Nat} {fuel : Nat} (h : Segment q.node prev cells none)
    (enough : cells.length ≤ fuel) (target n : Nat) :
    q.positionFrom target fuel (first cells none) n =
      some ((cells.findIdx? (·.1 = target)).map (· + n)) := by
  induction cells generalizing prev fuel n
  case nil => cases fuel <;> rfl
  case cons cell cells ih =>
    cases fuel
    case zero => simp at enough
    case succ fuel =>
      have rest := ih h.2 (Nat.le_of_succ_le_succ enough) (n + 1)
      simp only [positionFrom, first_cons, List.findIdx?_cons, decide_eq_true_eq]
      split
      case isTrue => simp
      case isFalse => simp [h.1, rest, Function.comp_def, Nat.add_right_comm, Nat.add_assoc]

end Memory

variable [Std.TransOrd κ] {cells xs ys : List (Nat × κ × ν)} {key : κ} {value : ν}

-- The cells of the queue in their order: the slot, the key and the value of each. Every slot of the slab is
-- either one of theirs or free, and the index knows the slot of each key.
structure Represents (q : SlabQueue κ ν) (cells : List (Nat × κ × ν)) : Prop extends q.Vacant where
  segment  : Segment q.node none cells none
  head     : q.head = first cells none
  tail     : q.tail = last none cells
  slots    : (cells.map Prod.fst).Nodup
  keys     : (cells.map (·.2.1)).Nodup
  index    : ∀ key i, q.index[key]? = some i ↔ ∃ value, (i, key, value) ∈ cells
  size     : q.index.size = cells.length
  occupied : ∀ i, q.node i ≠ none → i ∈ cells.map Prod.fst

namespace Represents

theorem new : Represents (.new : SlabQueue κ ν) [] := by
  refine ⟨⟨?_, .nil⟩, trivial, rfl, rfl, .nil, .nil, ?_, rfl, ?_⟩
  all_goals simp [SlabQueue.new, SlabQueue.node]

theorem stored (r : Represents q (xs ++ (i, key, value) :: ys)) :
    q.node i = some { payload := (key, value), prev := last none xs, next := first ys none } :=
  (segment_append.mp r.segment).2.1

theorem fresh_key (r : Represents q (xs ++ (i, key, value) :: ys)) : key ∉ (xs ++ ys).map (·.2.1) := by
  have keys := r.keys
  rw [List.map_append, List.map_cons] at keys
  rw [List.map_append]
  exact (List.nodup_cons.mp (List.nodup_middle.mp keys)).1

-- The neighbors of a cell are linked to each other.
theorem detach (r : Represents q (xs ++ (i, key, value) :: ys)) :
    ∃ q₁ q₂, (q.setNode i none).linkNext (last none xs) (first ys none) = some q₁ ∧
      q₁.linkPrev (first ys none) (last none xs) = some q₂ ∧ Relinked q q₂ ∧
      (∀ j, q₂.node j = none ↔ i = j ∨ q.node j = none) ∧ Segment q₂.node none (xs ++ ys) none ∧
      q₂.head = first (xs ++ ys) none ∧ q₂.tail = last none (xs ++ ys) := by
  have nodes : (q.setNode i none).node = Memory.set q.node i none :=
    node_setNode (lt_of_node (by simp [r.stored])) _
  have slots := r.slots
  simp only [List.map_append, List.map_cons, List.nodup_append, List.nodup_cons] at slots
  have ⟨_, ⟨fresh_ys, _⟩, apart⟩ := slots
  have present {j} (mem : j ∈ (xs ++ ys).map Prod.fst) : Memory.set q.node i none j ≠ none := by
    have ne : i ≠ j := by
      rintro rfl
      rw [List.map_append, List.mem_append] at mem
      exact mem.elim (fun mem => apart i mem i (.head _) rfl) fresh_ys
    have occupied := r.segment.occupied (i := j) (by
      rw [List.map_append, List.mem_append] at mem ⊢
      exact mem.imp id (.tail _))
    simpa [Memory.set, ne] using occupied
  have stored₁ : ∀ j, last none xs = some j → (q.setNode i none).node j ≠ none := by
    intro j h
    rw [nodes]
    exact present (List.map_append ▸ List.mem_append_left _ (last_mem h))
  obtain ⟨q₁, linked₁, nodes₁, relinked₁, head₁, tail₁⟩ := linkNext_eq stored₁ (first ys none)
  have stored₂ : ∀ j, first ys none = some j → q₁.node j ≠ none := by
    intro j h
    rw [nodes₁, nodes, ne_eq, Memory.linkNext_eq_none]
    exact present (List.map_append ▸ List.mem_append_right _ (first_mem h))
  obtain ⟨q₂, linked₂, nodes₂, relinked₂, head₂, tail₂⟩ := linkPrev_eq stored₂ (last none xs)
  have relinked := ((Relinked.setNode none).trans relinked₁).trans relinked₂
  refine ⟨q₁, q₂, linked₁, linked₂, relinked, fun j => ?nodes, ?segment, ?head, ?tail⟩
  case nodes =>
    rw [nodes₂, Memory.linkPrev_eq_none, nodes₁, Memory.linkNext_eq_none, nodes, Memory.set]
    split
    case isTrue same => simp [same]
    case isFalse ne => simp [ne]
  case segment =>
    rw [nodes₂, nodes₁, nodes]
    exact r.segment.splice r.slots
  case head =>
    rw [head₂, head₁]
    exact (congrArg _ (funext fun _ => r.head)).trans (first_splice _)
  case tail =>
    rw [tail₂, tail₁]
    exact (congrArg _ (funext fun _ => r.tail)).trans (last_splice _)

theorem length_le (r : Represents q cells) : cells.length ≤ q.slab.length := by
  have bound : ∀ i ∈ cells.map Prod.fst, i ∈ List.range q.slab.length := by
    intro i mem
    exact List.mem_range.mpr (lt_of_node (r.segment.occupied mem))
  simpa using (r.slots.subperm bound).length_le

theorem iter (r : Represents q cells) : q.iter = some (cells.map Prod.snd) := by
  rw [SlabQueue.iter, r.head]
  exact iterFrom_eq r.segment r.length_le

theorem validateFrom_eq {prev : Option Nat} {fuel : Nat} (h : Segment q.node prev cells none)
    (enough : cells.length ≤ fuel) (slots : (cells.map Prod.fst).Nodup)
    (index : ∀ i key value, (i, key, value) ∈ cells → q.index[key]? = some i) (visited : List Nat)
    (fresh : ∀ i ∈ cells.map Prod.fst, i ∉ visited) :
    q.validateFrom fuel (first cells none) prev visited =
      some (last prev cells, (cells.map Prod.fst).reverse ++ visited) := by
  induction cells generalizing prev fuel visited
  case nil => cases fuel <;> rfl
  case cons cell cells ih =>
    cases fuel
    case zero => simp at enough
    case succ fuel =>
      rw [List.map_cons, List.nodup_cons] at slots
      have ⟨unvisited, fresh⟩ := List.forall_mem_cons.mp fresh
      have occupied : q.node cell.1 ≠ none := by simp [h.1]
      have slot : ¬q.slab.length ≤ cell.1 := not_le.mpr (lt_of_node occupied)
      have known := index cell.1 cell.2.1 cell.2.2 (.head _)
      have rest := ih h.2 (Nat.le_of_succ_le_succ enough) slots.2
        (fun i key value mem => index i key value (.tail _ mem)) (cell.1 :: visited) ?fresh
      case fresh =>
        intro i mem
        refine List.not_mem_cons_of_ne_of_not_mem ?_ (fresh i mem)
        rintro rfl
        exact slots.1 mem
      simp [validateFrom, h.1, rest, slot, unvisited, known]

theorem debugValidate (r : Represents q cells) : q.debugValidate = true := by
  have walk : q.validateFrom q.index.size q.head none [] = some (q.tail, (cells.map Prod.fst).reverse) := by
    rw [r.head, r.tail, r.size]
    simpa using validateFrom_eq r.segment le_rfl r.slots
      (fun i key value mem => (r.index key i).mpr ⟨value, mem⟩) [] (by simp)
  have empty : q.index.isEmpty = cells.isEmpty := by
    rw [Std.ExtTreeMap.isEmpty_eq_size_beq_zero, r.size]
    cases cells <;> rfl
  have head : q.head.isNone = cells.isEmpty := by
    rw [r.head]
    cases cells <;> rfl
  have tail : q.tail.isNone = cells.isEmpty := by
    rw [r.tail]
    rcases cells.eq_nil_or_concat' with rfl | ⟨xs, cell, rfl⟩ <;> simp [last]
  have free : q.free.all fun slot => (q.slab[slot]?.map Option.isNone).getD false := by
    refine List.all_eq_true.mpr fun slot mem => ?_
    obtain ⟨lt, vacant⟩ := (r.free slot).mp mem
    simp only [SlabQueue.node, List.getElem?_eq_getElem lt, Option.join_some] at vacant
    simp [List.getElem?_eq_getElem lt, vacant]
  have covered : (List.range q.slab.length).all fun slot =>
      if (q.node slot).isSome then (cells.map Prod.fst).reverse.contains slot else q.free.contains slot := by
    refine List.all_eq_true.mpr fun slot mem => ?_
    split
    case isTrue h => simpa using r.occupied slot (Option.isSome_iff_ne_none.mp h)
    case isFalse h => simpa using (r.free slot).mpr ⟨List.mem_range.mp mem, by simpa using h⟩
  rw [SlabQueue.debugValidate, walk, empty, head, tail]
  simp only [free, covered, r.nodup, r.size]
  simp

variable [Std.LawfulEqOrd κ] [DecidableEq κ]

theorem pushBack (r : Represents q cells) (new : q.index[key]? = none) (value : ν) :
    ∃ q' i, q.pushBack key value = some (q', true) ∧ Represents q' (cells ++ [(i, key, value)]) := by
  have ⟨q₁, i, allocated, fresh, nodes₁, vacant₁, index₁, head₁, tail₁⟩ :=
    alloc_eq r.toVacant { payload := (key, value), prev := q.tail, next := none }
  have unused : i ∉ cells.map Prod.fst := fun mem => r.segment.occupied mem fresh
  have stored : ∀ j, q₁.tail = some j → q₁.node j ≠ none := by
    intro j h
    have mem := last_mem (r.tail.symm.trans (tail₁.symm.trans h))
    have ne : i ≠ j := fun same => unused (same ▸ mem)
    simpa [nodes₁, Memory.set, ne] using r.segment.occupied mem
  obtain ⟨q₂, linked, nodes₂, relinked, head₂, tail₂⟩ := linkNext_eq stored (some i)
  let q' := { q₂ with tail := some i, index := q₂.index.insert key i }
  have pushed : q.pushBack key value = some (q', true) := by
    simp [SlabQueue.pushBack, HashMap.contains_eq_false_iff.mpr new, allocated, linked, q']
  have index : q'.index = q.index.insert key i := by rw [← index₁, ← relinked.index]
  have segment := r.segment.push r.slots unused (key, value)
  rw [← r.tail, ← nodes₁, ← tail₁, ← nodes₂] at segment
  have unknown : ∀ j value, (j, key, value) ∉ cells := by
    intro j value mem
    simpa [new] using (r.index key j).mpr ⟨value, mem⟩
  refine ⟨q', i, pushed, ⟨?free, ?nodup⟩, segment, ?head, ?tail, ?slots, ?keys, ?index, ?size, ?occupied⟩
  case free =>
    intro j
    have free := vacant₁.free j
    rwa [← relinked.free, ← relinked.length, ← Memory.linkNext_eq_none, ← nodes₂] at free
  case nodup => exact relinked.free ▸ vacant₁.nodup
  case head =>
    have head : q'.head = q.tail.elim (some i) fun _ => q.head := by rw [← head₁, ← tail₁, ← head₂]
    rw [head, r.tail, r.head]
    rw [first_append]
    exact (first_of_last cells (some i)).symm
  case tail => simp [q', last]
  case slots =>
    rw [List.map_append, List.nodup_append]
    refine ⟨r.slots, by simp, ?_⟩
    rintro j mem _ (_ | ⟨_, ⟨⟩⟩) rfl
    exact unused mem
  case keys =>
    rw [List.map_append, List.nodup_append]
    refine ⟨r.keys, by simp, ?_⟩
    simp only [List.mem_map, List.map_cons, List.map_nil, List.mem_singleton, Prod.exists]
    rintro _ ⟨j, key', value', mem, rfl⟩ _ rfl rfl
    exact unknown j value' mem
  case index =>
    intro key' j
    rw [index, HashMap.get_insert]
    split
    case isTrue same =>
      subst same
      simp [unknown, eq_comm]
    case isFalse ne =>
      rw [r.index]
      simp [Ne.symm ne]
  case size =>
    have fresh : q.index.contains key = false := HashMap.contains_eq_false_iff.mpr new
    simp [index, Std.ExtTreeMap.size_insert, fresh, r.size]
  case occupied =>
    intro j h
    by_cases same : i = j
    case pos => simp [same]
    case neg =>
      have old : q.node j ≠ none := by
        have := mt (Memory.linkNext_eq_none (m := q₁.node)).mpr (nodes₂ ▸ h)
        simpa [nodes₁, Memory.set, same] using this
      rw [List.map_append]
      exact List.mem_append_left _ (r.occupied j old)

-- The slot of the cell is free again.
theorem recycle {q' : SlabQueue κ ν} (r : Represents q (xs ++ (i, key, value) :: ys)) (relinked : Relinked q q')
    (nodes : ∀ j, q'.node j = none ↔ i = j ∨ q.node j = none) (segment : Segment q'.node none (xs ++ ys) none)
    (head : q'.head = first (xs ++ ys) none) (tail : q'.tail = last none (xs ++ ys)) :
    Represents { q' with index := q'.index.erase key, free := i :: q'.free } (xs ++ ys) := by
  have sub : (xs ++ ys).Sublist (xs ++ (i, key, value) :: ys) :=
    (List.Sublist.refl xs).append (List.sublist_cons_self _ ys)
  have known := r.stored
  refine ⟨⟨fun j => ?free, ?nodup⟩, segment, head, tail, r.slots.sublist (sub.map _), r.keys.sublist (sub.map _),
    fun key' j => ?index, ?size, fun j h => ?occupied⟩
  case free =>
    have free := r.free j
    have slot : i < q.slab.length := lt_of_node (by simp [known])
    have vacant : ({ q' with index := q'.index.erase key, free := i :: q'.free } : SlabQueue κ ν).node j = none ↔
        i = j ∨ q.node j = none := nodes j
    rw [vacant, List.mem_cons, relinked.free, relinked.length, free]
    constructor
    case mp =>
      rintro (rfl | ⟨lt, h⟩)
      case inl => exact ⟨slot, .inl rfl⟩
      case inr => exact ⟨lt, .inr h⟩
    case mpr =>
      rintro ⟨lt, same | h⟩
      case inl => exact .inl same.symm
      case inr => exact .inr ⟨lt, h⟩
  case nodup =>
    rw [relinked.free]
    refine List.nodup_cons.mpr ⟨fun mem => ?_, r.nodup⟩
    simp [((r.free i).mp mem).2] at known
  case index =>
    have other : ∀ j value, (j, key, value) ∉ xs ++ ys := by
      intro j value mem
      exact r.fresh_key (List.mem_map_of_mem mem)
    simp only [relinked.index, HashMap.get_erase]
    split
    case isTrue same => simpa [← same] using other j
    case isFalse ne =>
      rw [r.index]
      simp [Ne.symm ne]
  case size =>
    have contains : q.index.contains key := by
      rw [Std.ExtTreeMap.contains_eq_isSome_getElem?, (r.index key i).mpr ⟨value, by simp⟩]
      rfl
    simp [relinked.index, Std.ExtTreeMap.size_erase, contains, r.size]
  case occupied =>
    have ⟨ne, old⟩ := not_or.mp (mt (nodes j).mpr h)
    have mem := r.occupied j old
    simp only [List.map_append, List.map_cons, List.mem_append, List.mem_cons] at mem ⊢
    exact mem.imp id fun mem => mem.resolve_left (Ne.symm ne)

theorem unlink (r : Represents q (xs ++ (i, key, value) :: ys)) (capacity : Nat) :
    ∃ q', q.unlink capacity i = some (q', key, value) ∧ Represents q' (xs ++ ys) := by
  have ⟨q₁, q₂, linked₁, linked₂, relinked, nodes, segment, head, tail⟩ := r.detach
  have indexed : q₂.index[key]? = some i := relinked.index ▸ (r.index key i).mpr ⟨value, by simp⟩
  have recycled := r.recycle relinked nodes segment head tail
  simp only [SlabQueue.unlink, r.stored, linked₁, linked₂, indexed, Option.bind_eq_bind, Option.bind_some, ne_eq,
    not_true_eq_false, if_false]
  split
  case isTrue empty =>
    have none_left : xs ++ ys = [] := by
      rw [← List.length_eq_zero_iff, ← recycled.size]
      simpa [Std.ExtTreeMap.isEmpty_eq_size_beq_zero] using empty
    rw [none_left] at recycled ⊢
    split
    case isTrue => exact ⟨_, rfl, .new⟩
    case isFalse =>
      exact ⟨_, rfl, ⟨recycled.free, recycled.nodup⟩, recycled.segment, rfl, rfl, recycled.slots, recycled.keys,
        recycled.index, recycled.size, recycled.occupied⟩
  case isFalse => exact ⟨_, rfl, recycled⟩

end Represents

section Refinement

variable [DecidableEq κ] {a : IndexedQueue κ ν}

-- The slab stores the entries of the queue.
def Refines (q : SlabQueue κ ν) (a : IndexedQueue κ ν) : Prop :=
  ∃ cells, Represents q cells ∧ cells.map Prod.snd = a.entries

-- A key that is queued is in the index with its slot, and no other one is.
theorem lookup (r : Represents q cells) (same : cells.map Prod.snd = a.entries) (key : κ) :
    (q.index[key]? = none ∧ a.get key = none ∧ a.contains key = false) ∨
    ∃ i value xs ys, q.index[key]? = some i ∧ a.get key = some value ∧ a.contains key = true ∧
      cells = xs ++ (i, key, value) :: ys := by
  cases h : q.index[key]?
  case none =>
    have absent : ∀ value, (key, value) ∉ a.entries := by
      intro value mem
      have ⟨cell, mem, entry⟩ := List.mem_map.mp (same ▸ mem)
      have known := (r.index key cell.1).mpr ⟨value, entry ▸ mem⟩
      simp [h] at known
    refine .inl ⟨rfl, ?_, ?_⟩
    case refine_1 =>
      exact Option.eq_none_iff_forall_ne_some.mpr fun value h => absent value (IndexedQueue.get_eq_some_iff.mp h)
    case refine_2 =>
      rw [← Bool.not_eq_true, IndexedQueue.contains_iff, List.mem_map]
      rintro ⟨⟨_, value⟩, mem, rfl⟩
      exact absent value mem
  case some i =>
    have ⟨value, mem⟩ := (r.index key i).mp h
    have entry : (key, value) ∈ a.entries := same ▸ List.mem_map_of_mem mem
    have ⟨xs, ys, split⟩ := List.append_of_mem mem
    exact .inr ⟨i, value, xs, ys, rfl, IndexedQueue.get_eq_some_iff.mpr entry, IndexedQueue.contains_of_mem entry, split⟩

theorem findIdx?_middle {α : Type} {p : α → Bool} {xs ys : List α} {x : α} (before : ∀ y ∈ xs, p y = false)
    (here : p x) : (xs ++ x :: ys).findIdx? p = some xs.length := by
  have none_before : xs.findIdx? p = none := List.findIdx?_eq_none_iff.mpr before
  simp [List.findIdx?_append, none_before, List.findIdx?_cons, here]

theorem position_eq (r : Represents q (xs ++ (i, key, value) :: ys))
    (same : (xs ++ (i, key, value) :: ys).map Prod.snd = a.entries) (known : q.index[key]? = some i) :
    q.position key = some (a.position key) := by
  have fresh_key := r.fresh_key
  have slots := r.slots
  rw [List.map_append, List.map_cons] at slots
  have fresh_slot := (List.nodup_cons.mp (List.nodup_middle.mp slots)).1
  have place : (xs ++ (i, key, value) :: ys).findIdx? (·.1 = i) = some xs.length := by
    refine findIdx?_middle (fun cell mem => ?_) (by simp)
    have ne : cell.1 ≠ i := by
      rintro rfl
      exact fresh_slot (List.mem_append_left _ (List.mem_map.mpr ⟨cell, mem, rfl⟩))
    simpa using ne
  have place' : a.position key = some xs.length := by
    rw [IndexedQueue.position, ← same, List.map_append, List.map_cons]
    refine (findIdx?_middle (fun entry mem => ?_) (by simp)).trans (by simp)
    obtain ⟨cell, mem, h⟩ := List.mem_map.mp mem
    have ne : entry.1 ≠ key := by
      rintro rfl
      refine fresh_key ?_
      rw [List.map_append]
      exact List.mem_append_left _ (h ▸ List.mem_map_of_mem mem)
    simpa using ne
  rw [SlabQueue.position, known, place', r.head]
  simpa [place] using positionFrom_eq r.segment r.length_le i 0

theorem entries_remove (r : Represents q (xs ++ (i, key, value) :: ys))
    (same : (xs ++ (i, key, value) :: ys).map Prod.snd = a.entries) :
    (xs ++ ys).map Prod.snd = (a.remove key).entries := by
  have others : ((xs ++ ys).map Prod.snd).filter (·.1 ≠ key) = (xs ++ ys).map Prod.snd := by
    refine List.filter_eq_self.mpr fun entry mem => ?_
    have ⟨cell, mem, h⟩ := List.mem_map.mp mem
    have ne : entry.1 ≠ key := by
      rintro rfl
      exact r.fresh_key (h ▸ List.mem_map_of_mem mem)
    simpa using ne
  have remaining : (a.remove key).entries = a.entries.filter (·.1 ≠ key) := rfl
  rw [remaining, ← same, ← others]
  simp

variable [Std.LawfulEqOrd κ]

theorem Refines.apply (h : q.Refines a) (op : Op κ ν) :
    ∃ q', q.apply op = some (q', (a.apply op).2) ∧ q'.Refines (a.apply op).1 := by
  have ⟨cells, r, same⟩ := h
  cases op
  case pushBack key value =>
    rcases lookup r same key with ⟨unknown, _, absent⟩ | ⟨i, _, xs, ys, known, _, present, rfl⟩
    case inl =>
      have ⟨q', i, pushed, r'⟩ := r.pushBack unknown value
      refine ⟨q', by simp [SlabQueue.apply, pushed, IndexedQueue.apply, absent], _, r', ?_⟩
      simp [IndexedQueue.apply, IndexedQueue.entries_pushBack absent, same]
    case inr =>
      have contains : q.index.contains key := by simp [Std.ExtTreeMap.contains_eq_isSome_getElem?, known]
      refine ⟨q, by simp [SlabQueue.apply, SlabQueue.pushBack, IndexedQueue.apply, contains, present], ?_⟩
      simpa [IndexedQueue.apply, present] using h
  case popFront capacity =>
    cases cells
    case nil =>
      have empty : a.entries = [] := same.symm
      refine ⟨q, ?_, [], r, by simp [IndexedQueue.apply, IndexedQueue.popFront, empty]⟩
      simp [SlabQueue.apply, SlabQueue.popFront, r.head, first, IndexedQueue.apply, IndexedQueue.front, empty]
    case cons cell cells =>
      have entries : a.entries = cell.2 :: cells.map Prod.snd := same.symm
      obtain ⟨q', unlinked, r'⟩ : ∃ q', q.unlink capacity cell.1 = some (q', cell.2) ∧ Represents q' ([] ++ cells) :=
        Represents.unlink r capacity
      refine ⟨q', ?_, cells, r', by simp [IndexedQueue.apply, IndexedQueue.popFront, entries]⟩
      simp [SlabQueue.apply, SlabQueue.popFront, r.head, unlinked, IndexedQueue.apply, IndexedQueue.front, entries]
  case remove capacity key =>
    rcases lookup r same key with ⟨unknown, missing, absent⟩ | ⟨i, value, xs, ys, known, found, present, rfl⟩
    case inl =>
      refine ⟨q, by simp [SlabQueue.apply, SlabQueue.remove, unknown, IndexedQueue.apply, missing], cells, r, ?_⟩
      rw [same]
      exact (IndexedQueue.entries_remove_of_absent absent).symm
    case inr =>
      obtain ⟨q', unlinked, r'⟩ := r.unlink capacity
      exact ⟨q', by simp [SlabQueue.apply, SlabQueue.remove, known, unlinked, IndexedQueue.apply, found],
        _, r', entries_remove r same⟩
  case get key =>
    rcases lookup r same key with ⟨unknown, missing, _⟩ | ⟨i, value, xs, ys, known, found, _, rfl⟩
    case inl => exact ⟨q, by simp [SlabQueue.apply, SlabQueue.get, unknown, IndexedQueue.apply, missing], h⟩
    case inr => exact ⟨q, by simp [SlabQueue.apply, SlabQueue.get, known, r.stored, IndexedQueue.apply, found], h⟩
  case position key =>
    rcases lookup r same key with ⟨unknown, _, absent⟩ | ⟨i, value, xs, ys, known, _, _, rfl⟩
    case inl =>
      have missing : a.position key = none := IndexedQueue.position_of_absent absent
      exact ⟨q, by simp [SlabQueue.apply, SlabQueue.position, unknown, IndexedQueue.apply, missing], h⟩
    case inr => exact ⟨q, by simp [SlabQueue.apply, position_eq r same known, IndexedQueue.apply], h⟩
  case contains key =>
    rcases lookup r same key with ⟨unknown, _, absent⟩ | ⟨i, value, xs, ys, known, _, present, rfl⟩
    case inl =>
      have missing := HashMap.contains_eq_false_iff.mpr unknown
      exact ⟨q, by simp [SlabQueue.apply, SlabQueue.contains, missing, IndexedQueue.apply, absent], h⟩
    case inr =>
      have found : q.index.contains key := by simp [Std.ExtTreeMap.contains_eq_isSome_getElem?, known]
      exact ⟨q, by simp [SlabQueue.apply, SlabQueue.contains, found, IndexedQueue.apply, present], h⟩
  case iter => exact ⟨q, by simp [SlabQueue.apply, r.iter, IndexedQueue.apply, IndexedQueue.iter, same], h⟩

theorem Refines.run (h : q.Refines a) (ops : List (Op κ ν)) :
    ∃ q', q.run ops = some (q', (a.run ops).2) ∧ q'.Refines (a.run ops).1 := by
  induction ops generalizing q a
  case nil => exact ⟨q, rfl, h⟩
  case cons op ops ih =>
    have ⟨q₁, applied, h₁⟩ := h.apply op
    have ⟨q', ran, h'⟩ := ih h₁
    exact ⟨q', by simp [SlabQueue.run, applied, ran, IndexedQueue.run], h'⟩

-- Every operation has the answer that the list of the entries gives, and no `expect` and no assertion fails.
theorem runs_as_list (ops : List (Op κ ν)) :
    ∃ q, (new : SlabQueue κ ν).run ops = some (q, (IndexedQueue.empty.run ops).2) ∧ q.debugValidate = true ∧
      q.Refines (IndexedQueue.empty.run ops).1 := by
  have start : (new : SlabQueue κ ν).Refines .empty := ⟨[], .new, rfl⟩
  have ⟨q, ran, h⟩ := start.run ops
  have ⟨cells, r, _⟩ := h
  exact ⟨q, ran, r.debugValidate, h⟩

-- Slots are reused after a removal, and the storage is reset once the queue is drained.
def letters : List (Op String Nat) := [
  .pushBack "a" 1, .pushBack "b" 2, .pushBack "a" 3, .remove 4 "a", .pushBack "c" 4, .position "c", .iter,
  .popFront 2048, .get "c", .popFront 2048, .contains "c", .pushBack "d" 5, .popFront 1
]

theorem letters_run_as_list :
    ∃ q, (new : SlabQueue String Nat).run letters = some (q, [
      .pushed true, .pushed true, .pushed false, .removed (some 1), .pushed true, .place (some 1),
      .entries [("b", 2), ("c", 4)], .popped (some ("b", 2)), .value (some 4), .popped (some ("c", 4)), .found false,
      .pushed true, .popped (some ("d", 5))
    ]) ∧ q.debugValidate = true := by
  have ⟨q, ran, valid, _⟩ := runs_as_list letters
  exact ⟨q, ran, valid⟩

end Refinement

end SlabQueue
