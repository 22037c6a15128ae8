import FiduciaNode.Primitives.Theorems.Slab

open Linked

namespace SlabQueue

variable {κ ν ε : Type} [Ord κ] [Std.TransOrd κ] {q q' : SlabQueue κ ν} {a : IndexedQueue κ ν} {i : Nat} {key : κ} {value : ν}
  {xs ys : List (Nat × κ × ν)} {write : κ × ν → ε} {read : ε → Except String (κ × ν)} {elements : List ε}
  {pairs : List (κ × ν)}

-- A value is changed in its slot.
theorem Represents.update (r : Represents q (xs ++ (i, key, value) :: ys)) (value' : ν) :
    Represents (q.setNode i (some { payload := (key, value'), prev := last none xs, next := first ys none }))
      (xs ++ (i, key, value') :: ys) := by
  generalize new : (some { payload := (key, value'), prev := last none xs, next := first ys none } :
    Option (IndexedQueue.Node κ ν)) = node
  have occupied : q.node i ≠ none := by simp [r.stored]
  have nodes : (q.setNode i node).node = Memory.set q.node i node := node_setNode (lt_of_node occupied) node
  have vacant (j : Nat) : (q.setNode i node).node j = none ↔ q.node j = none := by
    rw [nodes, Memory.set]
    split
    case isTrue same => simp [← new, ← same, occupied]
    case isFalse => rfl
  have cells : (xs ++ (i, key, value') :: ys).map Prod.fst = (xs ++ (i, key, value) :: ys).map Prod.fst := by simp
  have slots := r.slots
  simp only [List.map_append, List.map_cons, List.nodup_append, List.nodup_cons] at slots
  obtain ⟨_, ⟨fresh_ys, _⟩, apart⟩ := slots
  constructor
  case toVacant =>
    refine ⟨fun j => ?_, r.nodup⟩
    rw [vacant]
    simpa [setNode] using r.free j
  case segment =>
    obtain ⟨before, _, after⟩ := segment_append.mp r.segment
    rw [nodes, segment_append]
    exact ⟨before.set (fun mem => apart i mem i (.head _) rfl) _, by simp [Memory.set, new], after.set fresh_ys _⟩
  case head => exact r.head.trans (by simp)
  case tail => exact r.tail.trans (by simp)
  case slots => exact cells ▸ r.slots
  case keys => simpa using r.keys
  case index =>
    intro key' j
    refine (r.index key' j).trans ?_
    simp only [List.mem_append, List.mem_cons, Prod.mk.injEq, exists_or]
    simp
  case size => exact r.size.trans (by simp)
  case occupied =>
    intro j h
    rw [cells]
    exact r.occupied j (mt (vacant j).mpr h)

theorem refines_new : (new : SlabQueue κ ν).Refines .empty :=
  ⟨[], .new, rfl⟩

theorem Refines.len (h : q.Refines a) : q.len = a.len := by
  have ⟨_, r, same⟩ := h
  rw [SlabQueue.len, r.size, IndexedQueue.len, ← same, List.length_map]

theorem Refines.serialize (h : q.Refines a) : q.serialize write = some (a.len, a.entries.map write) := by
  have ⟨_, r, same⟩ := h
  simp [SlabQueue.serialize, r.iter, h.len, same]

variable [DecidableEq κ]

theorem entries_update (r : Represents q (xs ++ (i, key, value) :: ys))
    (same : (xs ++ (i, key, value) :: ys).map Prod.snd = a.entries) (change : ν → ν) :
    (xs ++ (i, key, change value) :: ys).map Prod.snd = (a.update key change).entries := by
  have others {cells : List (Nat × κ × ν)} (h : cells ⊆ xs ++ ys) :
      (cells.map Prod.snd).map (fun e => (e.1, if e.1 = key then change e.2 else e.2)) = cells.map Prod.snd := by
    rw [List.map_map]
    refine List.map_congr_left fun cell mem => ?_
    have ne : cell.2.1 ≠ key := fun eq => r.fresh_key (eq ▸ List.mem_map_of_mem (h mem))
    simp [ne]
  have updated : (a.update key change).entries =
      a.entries.map fun e => (e.1, if e.1 = key then change e.2 else e.2) := rfl
  rw [updated, ← same, List.map_append, List.map_cons, List.map_append, List.map_cons, List.map_append, List.map_cons,
    others (List.subset_append_left ..), others (List.subset_append_right ..)]
  simp

theorem Refines.getMut (h : q.Refines a) (key : κ) (change : ν → ν) :
    ∃ q', q.getMut key change = some (q', a.get key) ∧ q'.Refines (a.update key change) := by
  have ⟨cells, r, same⟩ := h
  rcases lookup r same key with ⟨unknown, missing, absent⟩ | ⟨i, value, xs, ys, known, found, _, rfl⟩
  case inl =>
    have unchanged : a.update key change = a := by
      ext1
      refine (List.map_congr_left fun entry mem => ?_).trans (List.map_id _)
      have ne : entry.1 ≠ key := by
        rintro rfl
        simp [IndexedQueue.contains_of_mem mem] at absent
      simp [ne]
    exact ⟨q, by simp [SlabQueue.getMut, unknown, missing], unchanged.symm ▸ h⟩
  case inr =>
    exact ⟨_, by simp [SlabQueue.getMut, known, r.stored, found], _, r.update (change value), entries_update r same change⟩

variable [Std.LawfulEqOrd κ]

theorem Refines.use (h : q.Refines a) (capacity : Nat) (use : Use κ ν) :
    ∃ q', q.use capacity use = some (q', (a.use use).2) ∧ q'.Refines (a.use use).1 := by
  have ⟨cells, r, same⟩ := h
  cases use
  case op op =>
    have ⟨q', applied, h'⟩ := h.apply (op.withCapacity capacity)
    have any : a.apply (op.withCapacity capacity) = a.apply op := by cases op <;> rfl
    rw [any] at applied h'
    exact ⟨q', by simp [SlabQueue.use, applied, IndexedQueue.use], h'⟩
  case getMut key change =>
    obtain ⟨q', changed, h'⟩ := h.getMut key change
    exact ⟨q', by simp [SlabQueue.use, changed, IndexedQueue.use], h'⟩
  case front =>
    have front : q.front = some a.front := by
      rw [IndexedQueue.front, ← same, SlabQueue.front, r.head]
      cases cells
      case nil => rfl
      case cons => simp [first, r.segment.1]
    exact ⟨q, by simp [SlabQueue.use, front, IndexedQueue.use], h⟩
  case len => exact ⟨q, by simp [SlabQueue.use, h.len, IndexedQueue.use], h⟩
  case isEmpty =>
    have empty : q.isEmpty = a.isEmpty := by
      rw [SlabQueue.isEmpty, Std.ExtTreeMap.isEmpty_eq_size_beq_zero, r.size, IndexedQueue.isEmpty, ← same]
      cases cells <;> rfl
    exact ⟨q, by simp [SlabQueue.use, empty, IndexedQueue.use], h⟩

theorem Refines.uses (h : q.Refines a) (capacity : Nat → Nat) (uses : List (Use κ ν)) :
    ∃ q', q.uses capacity uses = some (q', (a.uses uses).2) ∧ q'.Refines (a.uses uses).1 := by
  induction uses generalizing q a capacity
  case nil => exact ⟨q, rfl, h⟩
  case cons use uses ih =>
    have ⟨q₁, used, h₁⟩ := h.use (capacity 0) use
    have ⟨q', ran, h'⟩ := ih h₁ fun n => capacity (n + 1)
    exact ⟨q', by simp [SlabQueue.uses, used, ran, IndexedQueue.uses], h'⟩

theorem Refines.pushBack (h : q.Refines a) (key : κ) (value : ν) :
    ∃ q', q.pushBack key value = some (q', !a.contains key) ∧ q'.Refines (a.pushBack key value) := by
  have ⟨q', applied, h'⟩ := h.apply (.pushBack key value)
  have ⟨⟨_, new⟩, pushed, eq⟩ := Option.map_eq_some_iff.mp applied
  obtain ⟨rfl, ⟨⟩⟩ := Prod.mk.inj eq
  exact ⟨_, pushed, h'⟩

-- The elements are queued one after another, until a key comes again.
theorem Refines.visitSeq (h : q.Refines a)
    (decoded : List.Forall₂ (fun element pair => read element = .ok pair) elements pairs) :
    (∃ q' a', q.visitSeq read elements = some (.ok q') ∧ q'.Refines a' ∧ a'.entries = a.entries ++ pairs) ∨
    q.visitSeq read elements = some (.error "duplicate key in serialized IndexedQueue") ∧
      ¬ ((a.entries ++ pairs).map Prod.fst).Nodup := by
  induction decoded generalizing q a
  case nil => exact .inl ⟨q, a, rfl, h, by simp⟩
  case cons element pair elements pairs decoded _ ih =>
    have ⟨q₁, pushed, h₁⟩ := h.pushBack pair.1 pair.2
    cases found : a.contains pair.1
    case true =>
      refine .inr ⟨by simp [SlabQueue.visitSeq, decoded, pushed, found], fun nodup => ?_⟩
      rw [List.map_append] at nodup
      exact List.disjoint_of_nodup_append nodup (IndexedQueue.contains_iff.mp found) (by simp)
    case false =>
      have entries : (a.pushBack pair.1 pair.2).entries = a.entries ++ [pair] := IndexedQueue.entries_pushBack found
      have visited : q.visitSeq read (element :: elements) = q₁.visitSeq read elements := by
        simp [SlabQueue.visitSeq, decoded, pushed, found]
      simpa [visited, entries] using ih h₁

theorem deserialize_cases (decoded : List.Forall₂ (fun element pair => read element = .ok pair) elements pairs) :
    (∃ q a, deserialize read elements = some (.ok q) ∧ q.Refines a ∧ a.entries = pairs) ∨
    deserialize read elements = some (.error "duplicate key in serialized IndexedQueue") ∧
      ¬ (pairs.map Prod.fst).Nodup :=
  refines_new.visitSeq decoded

-- The queues that come about by any use of a new queue or of one that is read back.
inductive Reachable (read : ε → Except String (κ × ν)) : SlabQueue κ ν → Prop
  | new : Reachable read new
  | deserialize {q : SlabQueue κ ν} {elements : List ε} : deserialize read elements = some (.ok q) → Reachable read q
  | use {q q' : SlabQueue κ ν} {seen : Seen κ ν} (capacity : Nat) (use : Use κ ν) :
    Reachable read q → q.use capacity use = some (q', seen) → Reachable read q'

theorem visitSeq_refines (h : q.Refines a) (ok : q.visitSeq read elements = some (.ok q')) :
    ∃ a, q'.Refines a := by
  induction elements generalizing q a
  case nil =>
    cases ok
    exact ⟨a, h⟩
  case cons element elements ih =>
    simp only [SlabQueue.visitSeq] at ok
    split at ok
    case h_1 => cases ok
    case h_2 key value _ =>
      obtain ⟨q₁, pushed, h₁⟩ := h.pushBack key value
      cases found : a.contains key
      case true => simp [pushed, found] at ok
      case false => exact ih h₁ (by simpa [pushed, found] using ok)

theorem Reachable.refines (h : Reachable read q) : ∃ a, q.Refines a := by
  induction h
  case new => exact ⟨_, refines_new⟩
  case deserialize ok => exact visitSeq_refines refines_new ok
  case use capacity use _ used ih =>
    have ⟨a, h⟩ := ih
    have ⟨q', used', h'⟩ := h.use capacity use
    obtain ⟨rfl, _⟩ := Prod.mk.inj (Option.some.inj (used.symm.trans used'))
    exact ⟨_, h'⟩

omit [DecidableEq κ] [Std.LawfulEqOrd κ] in
theorem Reachable.uses (h : Reachable read q) {capacity : Nat → Nat} {uses : List (Use κ ν)} {seen : List (Seen κ ν)}
    (used : q.uses capacity uses = some (q', seen)) : Reachable read q' := by
  induction uses generalizing q capacity seen
  case nil =>
    cases used
    exact h
  case cons use uses ih =>
    simp only [SlabQueue.uses, Option.bind_eq_bind, Option.bind_eq_some_iff] at used
    have ⟨⟨_, _⟩, first, ⟨_, _⟩, rest, same⟩ := used
    cases same
    exact ih (.use _ _ h first) rest

-- A queue that is written and read back cannot be told from the original, whatever the storage of either does.
theorem queue_read_back (write : κ × ν → ε) (read : ε → Except String (κ × ν))
    (codec : ∀ pair, read (write pair) = .ok pair) :
    (∀ q : SlabQueue κ ν, Reachable read q → ∃ elements q',
      q.serialize write = some (elements.length, elements) ∧ deserialize read elements = some (.ok q') ∧
      q'.debugValidate = true ∧
      ∀ uses capacity capacity', ∃ q₁ q₁' seen,
        q.uses capacity uses = some (q₁, seen) ∧ q'.uses capacity' uses = some (q₁', seen)) ∧
    ∀ elements pairs, List.Forall₂ (fun element pair => read element = .ok pair) elements pairs →
      ((∃ q : SlabQueue κ ν, deserialize read elements = some (.ok q)) ↔ (pairs.map Prod.fst).Nodup) := by
  constructor
  case left =>
    intro q reachable
    have ⟨a, h⟩ := reachable.refines
    have decoded : List.Forall₂ (fun element pair => read element = .ok pair) (a.entries.map write) a.entries := by
      rw [List.forall₂_map_left_iff, List.forall₂_same]
      exact fun pair _ => codec pair
    rcases deserialize_cases decoded with ⟨q', a', ok, h', same⟩ | ⟨_, duplicate⟩
    case inr => exact absurd a.nodup duplicate
    case inl =>
      obtain rfl : a' = a := IndexedQueue.ext same
      have ⟨_, r', _⟩ := h'
      refine ⟨_, q', by rw [h.serialize]; simp [IndexedQueue.len], ok, r'.debugValidate, fun uses capacity capacity' => ?_⟩
      have ⟨q₁, ran, _⟩ := h.uses capacity uses
      have ⟨q₁', ran', _⟩ := h'.uses capacity' uses
      exact ⟨q₁, q₁', _, ran, ran'⟩
  case right =>
    intro elements pairs decoded
    rcases deserialize_cases decoded with ⟨q, a, ok, _, rfl⟩ | ⟨error, duplicate⟩
    case inl => exact ⟨fun _ => a.nodup, fun _ => ⟨q, ok⟩⟩
    case inr => exact ⟨fun ⟨q, ok⟩ => by simp [error] at ok, fun nodup => absurd nodup duplicate⟩

def words : List (Use String Nat) := [
  .op (.pushBack "a" 1), .op (.pushBack "b" 2), .op (.remove 0 "a"), .op (.pushBack "c" 3), .getMut "b" (· + 2)
]

theorem words_read_back :
    ∃ q q' : SlabQueue String Nat, (new.uses (fun _ => 4) words).map Prod.fst = some q ∧
      q.serialize id = some (2, [("b", 4), ("c", 3)]) ∧
      deserialize .ok [("b", 4), ("c", 3)] = some (.ok q') ∧
      (∀ uses capacity capacity', ∃ q₁ q₁' seen,
        q.uses capacity uses = some (q₁, seen) ∧ q'.uses capacity' uses = some (q₁', seen)) ∧
      ¬ ∃ q : SlabQueue String Nat, deserialize .ok [("b", 4), ("c", 3), ("b", 1)] = some (.ok q) := by
  have ⟨q, used, h⟩ := (refines_new (κ := String) (ν := Nat)).uses (fun _ => 4) words
  have ⟨same, strict⟩ := queue_read_back (κ := String) (ν := Nat) id .ok fun _ => rfl
  have ⟨elements, q', written, ok, _, alike⟩ := same q (.uses .new used)
  have written' : q.serialize id = some (2, [("b", 4), ("c", 3)]) := h.serialize
  obtain rfl : elements = [("b", 4), ("c", 3)] := (Prod.mk.inj (Option.some.inj (written.symm.trans written'))).2
  refine ⟨q, q', by rw [used]; rfl, written', ok, alike, ?_⟩
  rw [strict _ [("b", 4), ("c", 3), ("b", 1)] (by simp)]
  decide

end SlabQueue
