import Mathlib

-- A queue in insertion order whose elements are also addressed by a key.
structure IndexedQueue (κ ν : Type) where
  entries : List (κ × ν)
  nodup   : (entries.map Prod.fst).Nodup

namespace IndexedQueue

variable {κ ν : Type}

@[ext]
theorem ext {q₁ q₂ : IndexedQueue κ ν} (h : q₁.entries = q₂.entries) : q₁ = q₂ := by
  cases q₁
  cases q₂
  simp_all

def empty : IndexedQueue κ ν where
  entries := []
  nodup := .nil

def len (q : IndexedQueue κ ν) : Nat :=
  q.entries.length

def isEmpty (q : IndexedQueue κ ν) : Bool :=
  q.entries.isEmpty

def front (q : IndexedQueue κ ν) : Option (κ × ν) :=
  q.entries.head?

def popFront (q : IndexedQueue κ ν) : IndexedQueue κ ν where
  entries := q.entries.tail
  nodup := by
    rw [List.map_tail]
    exact q.nodup.tail

def iter (q : IndexedQueue κ ν) : List (κ × ν) :=
  q.entries

def values (q : IndexedQueue κ ν) : List ν :=
  q.entries.map Prod.snd

-- Keeps the elements that satisfy `f`, in their order.
def retain (q : IndexedQueue κ ν) (f : κ → ν → Bool) : IndexedQueue κ ν where
  entries := q.entries.filter fun e => f e.1 e.2
  nodup := q.nodup.sublist (List.filter_sublist.map _)

variable [DecidableEq κ]

def contains (q : IndexedQueue κ ν) (k : κ) : Bool :=
  q.entries.any (·.1 = k)

def get (q : IndexedQueue κ ν) (k : κ) : Option ν :=
  q.entries.find? (·.1 = k) |>.map Prod.snd

def position (q : IndexedQueue κ ν) (k : κ) : Option Nat :=
  q.entries.findIdx? (·.1 = k)

def remove (q : IndexedQueue κ ν) (k : κ) : IndexedQueue κ ν :=
  q.retain fun k' _ => k' ≠ k

theorem contains_iff {q : IndexedQueue κ ν} {k : κ} :
    q.contains k ↔ k ∈ q.entries.map Prod.fst := by
  simp [contains]

-- The queue is unchanged if the key is already queued.
def pushBack (q : IndexedQueue κ ν) (k : κ) (v : ν) : IndexedQueue κ ν :=
  if h : q.contains k then q else {
    entries := q.entries ++ [(k, v)]
    nodup := by
      rw [contains_iff] at h
      simp only [List.map_append, List.map_cons, List.map_nil]
      exact List.nodup_append.mpr ⟨q.nodup, by simp, by simpa using fun a b hb e => h (by aesop)⟩
  }

section Theorems

variable {q : IndexedQueue κ ν} {k : κ} {v : ν} {e : κ × ν} {f : κ → ν → Bool}

theorem get_eq_some_iff : q.get k = some v ↔ (k, v) ∈ q.entries := by
  simp only [get, Option.map_eq_some_iff, Prod.exists, exists_eq_right]
  constructor
  case mp =>
    intro ⟨k', h⟩
    have e : k' = k := by simpa using List.find?_some h
    exact e ▸ List.mem_of_find?_eq_some h
  case mpr =>
    intro h
    have ⟨e, he⟩ : ∃ e, q.entries.find? (·.1 = k) = some e := by
      rw [← Option.isSome_iff_exists, List.find?_isSome]
      exact ⟨_, h, by simp⟩
    have hk : e.1 = k := by simpa using List.find?_some he
    have := List.inj_on_of_nodup_map q.nodup (List.mem_of_find?_eq_some he) h hk
    exact ⟨k, this ▸ he⟩

theorem contains_of_mem (h : (k, v) ∈ q.entries) : q.contains k :=
  contains_iff.mpr (List.mem_map_of_mem h)

theorem position_of_absent (h : q.contains k = false) : q.position k = none := by
  simpa [position, contains] using h

theorem entries_remove_of_absent (h : q.contains k = false) : (q.remove k).entries = q.entries := by
  simp only [contains, List.any_eq_false, decide_eq_true_eq] at h
  exact List.filter_eq_self.mpr fun e mem => by simpa using h e mem

omit [DecidableEq κ] in
@[simp]
theorem mem_retain : e ∈ (q.retain f).entries ↔ e ∈ q.entries ∧ f e.1 e.2 := by
  simp [retain]

@[simp]
theorem mem_remove : e ∈ (q.remove k).entries ↔ e ∈ q.entries ∧ e.1 ≠ k := by
  simp [remove]

theorem mem_remove_or_eq {q : IndexedQueue κ ν} {e : κ × ν} (get : q.get k = some v)
    (h : e ∈ q.entries) : e ∈ (q.remove k).entries ∨ e = (k, v) := by
  by_cases he : e.1 = k
  case neg => exact .inl (mem_remove.mpr ⟨h, he⟩)
  case pos =>
    have : q.get k = some e.2 := get_eq_some_iff.mpr (he ▸ h)
    exact .inr (Prod.ext he (Option.some.inj (this.symm.trans get)))

theorem entries_pushBack (h : q.contains k = false) :
    (q.pushBack k v).entries = q.entries ++ [(k, v)] := by
  simp [pushBack, h]

@[simp]
theorem pushBack_of_contains (h : q.contains k) : q.pushBack k v = q := by
  simp [pushBack, h]

theorem mem_pushBack (h : e ∈ (q.pushBack k v).entries) : e ∈ q.entries ∨ e = (k, v) := by
  by_cases hc : q.contains k
  case pos => simp_all
  case neg => simpa [entries_pushBack (Bool.eq_false_iff.mpr hc)] using h

theorem mem_pushBack_of_mem (h : e ∈ q.entries) : e ∈ (q.pushBack k v).entries := by
  by_cases hc : q.contains k
  case pos => simp_all
  case neg => simp [entries_pushBack (Bool.eq_false_iff.mpr hc), h]

end Theorems

end IndexedQueue
