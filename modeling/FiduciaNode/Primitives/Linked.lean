import Mathlib

-- Doubly linked lists whose nodes are in a memory.
namespace Linked

structure Node (ι α : Type) where
  payload : α
  prev    : Option ι
  next    : Option ι

abbrev Memory (ι α : Type) := ι → Option (Node ι α)

variable {ι α : Type}

-- The address of the first cell, or what comes after them if there are none.
def first (cells : List (ι × α)) (next : Option ι) : Option ι :=
  match cells with
  | [] => next
  | cell :: _ => some cell.1

-- The address of the last cell, or what comes before them if there are none.
def last (prev : Option ι) : (cells : List (ι × α)) → Option ι
  | [] => prev
  | cell :: cells => last (some cell.1) cells

-- The cells are linked in both directions, between what comes before and after them.
def Segment (m : Memory ι α) (prev : Option ι) : (cells : List (ι × α)) → (next : Option ι) → Prop
  | [], _ => True
  | (i, a) :: cells, next =>
    m i = some { payload := a, prev := prev, next := first cells next } ∧ Segment m (some i) cells next

variable {m m' : Memory ι α} {prev next next' : Option ι} {cells xs ys : List (ι × α)} {i : ι} {a : α}

@[simp]
theorem first_cons {cell : ι × α} : first (cell :: cells) next = some cell.1 :=
  rfl

@[simp]
theorem last_cons {cell : ι × α} : last prev (cell :: cells) = last (some cell.1) cells :=
  rfl

@[simp]
theorem first_append : first (xs ++ ys) next = first xs (first ys next) := by
  cases xs <;> rfl

@[simp]
theorem last_append : last prev (xs ++ ys) = last (last prev xs) ys := by
  induction xs generalizing prev
  case nil => rfl
  case cons _ _ ih => exact ih

theorem last_mem (h : last none cells = some i) : i ∈ cells.map Prod.fst := by
  rcases cells.eq_nil_or_concat' with rfl | ⟨xs, cell, rfl⟩
  case inl => contradiction
  case inr => simp_all [last]

theorem first_mem (h : first cells none = some i) : i ∈ cells.map Prod.fst := by
  cases cells
  case nil => contradiction
  case cons => simp_all [first]

-- What comes after the cells is the first one only if there are none.
theorem first_of_last (cells : List (ι × α)) (next : Option ι) :
    first cells next = (last none cells).elim next fun _ => first cells none := by
  rcases cells.eq_nil_or_concat' with rfl | ⟨xs, cell, rfl⟩
  case inl => rfl
  case inr => cases xs <;> simp [first, last]

-- The ends of the cells without one of them.
theorem first_splice (cell : ι × α) :
    ((last none xs).elim (first ys none) fun _ => first (xs ++ cell :: ys) none) = first (xs ++ ys) none := by
  rcases xs.eq_nil_or_concat' with rfl | ⟨xs, cell', rfl⟩
  case inl => rfl
  case inr => cases xs <;> simp [first, last]

theorem last_splice (cell : ι × α) :
    ((first ys none).elim (last none xs) fun _ => last none (xs ++ cell :: ys)) = last none (xs ++ ys) := by
  cases ys <;> simp [first, last]

theorem segment_append :
    Segment m prev (xs ++ ys) next ↔ Segment m prev xs (first ys next) ∧ Segment m (last prev xs) ys next := by
  induction xs generalizing prev
  case nil => simp [Segment, last]
  case cons _ _ ih => simp [Segment, last, ih, and_assoc]

theorem Segment.occupied (h : Segment m prev cells next) (mem : i ∈ cells.map Prod.fst) : m i ≠ none := by
  induction cells generalizing prev
  case nil => simp at mem
  case cons cell cells ih =>
    rcases List.mem_cons.mp mem with rfl | mem
    case inl => simp [h.1]
    case inr => exact ih h.2 mem

-- The links do not depend on the rest of the memory.
theorem Segment.frame (h : Segment m prev cells next) (same : ∀ i ∈ cells.map Prod.fst, m' i = m i) :
    Segment m' prev cells next := by
  induction cells generalizing prev
  case nil => trivial
  case cons cell cells ih =>
    rw [List.map_cons, List.forall_mem_cons] at same
    exact ⟨same.1.trans h.1, ih h.2 same.2⟩

variable [DecidableEq ι]

def Memory.set (m : Memory ι α) (i : ι) (node : Option (Node ι α)) : Memory ι α :=
  fun j => if i = j then node else m j

def Memory.setNext (m : Memory ι α) (i : ι) (next : Option ι) : Memory ι α :=
  m.set i ((m i).map ({ · with next := next }))

def Memory.setPrev (m : Memory ι α) (i : ι) (prev : Option ι) : Memory ι α :=
  m.set i ((m i).map ({ · with prev := prev }))

theorem Segment.set (h : Segment m prev cells next) (fresh : i ∉ cells.map Prod.fst)
    (node : Option (Node ι α)) : Segment (m.set i node) prev cells next := by
  refine h.frame fun j mem => if_neg ?_
  rintro rfl
  exact fresh mem

-- The link of a cell to the next one, if there is such a cell.
def Memory.linkNext (m : Memory ι α) (cell next : Option ι) : Memory ι α :=
  match cell with
  | some i => m.setNext i next
  | none => m

def Memory.linkPrev (m : Memory ι α) (cell prev : Option ι) : Memory ι α :=
  match cell with
  | some i => m.setPrev i prev
  | none => m

-- Links do not make a cell appear or disappear.
theorem Memory.linkNext_eq_none {cell : Option ι} {j : ι} : m.linkNext cell next j = none ↔ m j = none := by
  cases cell
  case none => rfl
  case some i =>
    simp only [linkNext, setNext, set]
    split
    case isTrue same => simp [same]
    case isFalse => rfl

theorem Memory.linkPrev_eq_none {cell : Option ι} {j : ι} : m.linkPrev cell prev j = none ↔ m j = none := by
  cases cell
  case none => rfl
  case some i =>
    simp only [linkPrev, setPrev, set]
    split
    case isTrue same => simp [same]
    case isFalse => rfl

theorem Segment.linkNext (h : Segment m none cells next) (nodup : (cells.map Prod.fst).Nodup)
    (next' : Option ι) : Segment (m.linkNext (last none cells) next') none cells next' := by
  rcases cells.eq_nil_or_concat' with rfl | ⟨xs, cell, rfl⟩
  case inl => trivial
  case inr =>
    have fresh : cell.1 ∉ xs.map Prod.fst := by
      rw [List.map_append] at nodup
      exact fun mem => List.disjoint_of_nodup_append nodup mem (.head _)
    rw [segment_append] at h ⊢
    simp only [last_append, last, Memory.linkNext]
    refine ⟨h.1.set fresh _, ?_, trivial⟩
    simp [Memory.setNext, Memory.set, h.2.1, first]

theorem Segment.linkPrev (h : Segment m prev cells none) (nodup : (cells.map Prod.fst).Nodup)
    (prev' : Option ι) : Segment (m.linkPrev (first cells none) prev') prev' cells none := by
  cases cells
  case nil => trivial
  case cons cell cells =>
    refine ⟨?_, h.2.set (List.nodup_cons.mp nodup).1 _⟩
    simp [first, Memory.linkPrev, Memory.setPrev, Memory.set, h.1]

theorem Segment.linkNext_other (h : Segment m prev cells next) {cell : Option ι}
    (other : ∀ i, cell = some i → i ∉ cells.map Prod.fst) (next' : Option ι) :
    Segment (m.linkNext cell next') prev cells next := by
  cases cell
  case none => exact h
  case some i => exact h.set (other i rfl) _

theorem Segment.linkPrev_other (h : Segment m prev cells next) {cell : Option ι}
    (other : ∀ i, cell = some i → i ∉ cells.map Prod.fst) (prev' : Option ι) :
    Segment (m.linkPrev cell prev') prev cells next := by
  cases cell
  case none => exact h
  case some i => exact h.set (other i rfl) _

-- A cell that is taken out leaves its neighbors to each other.
theorem Segment.splice (h : Segment m none (xs ++ (i, a) :: ys) none)
    (nodup : ((xs ++ (i, a) :: ys).map Prod.fst).Nodup) :
    Segment (((m.set i none).linkNext (last none xs) (first ys none)).linkPrev (first ys none) (last none xs))
      none (xs ++ ys) none := by
  simp only [List.map_append, List.map_cons, List.nodup_append, List.nodup_cons] at nodup
  have ⟨nodup_xs, ⟨fresh_ys, nodup_ys⟩, apart⟩ := nodup
  rw [segment_append] at h
  have fresh_xs : i ∉ xs.map Prod.fst := fun mem => apart i mem i (.head _) rfl
  have last_ys : ∀ j, last none xs = some j → j ∉ ys.map Prod.fst :=
    fun j h mem => apart j (last_mem h) j (.tail _ mem) rfl
  have first_xs : ∀ j, first ys none = some j → j ∉ xs.map Prod.fst :=
    fun j h mem => apart j mem j (.tail _ (first_mem h)) rfl
  rw [segment_append]
  constructor
  case left => exact ((h.1.set fresh_xs none).linkNext nodup_xs _).linkPrev_other first_xs _
  case right => exact ((h.2.2.set fresh_ys none).linkNext_other last_ys _).linkPrev nodup_ys _

-- A cell that is put at the end comes after the last one.
theorem Segment.push (h : Segment m none cells none) (nodup : (cells.map Prod.fst).Nodup)
    (fresh : i ∉ cells.map Prod.fst) (a : α) :
    Segment ((m.set i (some { payload := a, prev := last none cells, next := none })).linkNext (last none cells)
      (some i)) none (cells ++ [(i, a)]) none := by
  rw [segment_append]
  let node : Node ι α := { payload := a, prev := last none cells, next := none }
  have new : Segment (m.set i (some node)) (last none cells) [(i, a)] none := ⟨if_pos rfl, trivial⟩
  refine ⟨(h.set fresh _).linkNext nodup _, new.linkNext_other (fun j h mem => ?_) _⟩
  cases List.mem_singleton.mp mem
  exact fresh (last_mem h)

end Linked
