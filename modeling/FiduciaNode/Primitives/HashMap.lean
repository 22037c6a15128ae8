import Mathlib

-- The contents of a map, up to extensional equality. Neither the capacity nor the seed of a hash
-- map is part of it, so two replicas hold the same map iff they hold the same entries.
abbrev HashMap (κ ν : Type) [Ord κ] := Std.ExtTreeMap κ ν compare

abbrev BTreeMap (κ ν : Type) [Ord κ] := Std.ExtTreeMap κ ν compare

abbrev BTreeSet (κ : Type) [Ord κ] := Std.ExtTreeSet κ compare

-- The order in which a process visits the entries of its hash maps: any permutation of them.
structure IterOrder where
  order : {α : Type} → List α → List α
  perm  : ∀ {α : Type} (l : List α), (order l).Perm l

namespace IterOrder

def sorted : IterOrder where
  order l := l
  perm _ := .refl _

def reversed : IterOrder where
  order := List.reverse
  perm := List.reverse_perm

variable {o : IterOrder} {α : Type} {l : List α}

@[simp]
theorem mem_order {a : α} : a ∈ o.order l ↔ a ∈ l :=
  (o.perm l).mem_iff

end IterOrder

namespace HashMap

variable {κ ν : Type} [Ord κ]

section

variable [Std.TransOrd κ]

-- The entries in the order of the process, as `iter` yields them.
def iter (o : IterOrder) (m : HashMap κ ν) : List (κ × ν) :=
  o.order m.toList

def values (o : IterOrder) (m : HashMap κ ν) : List ν :=
  (m.iter o).map Prod.snd

def keys (o : IterOrder) (m : HashMap κ ν) : List κ :=
  (m.iter o).map Prod.fst

end

variable [Std.TransOrd κ] [Std.LawfulEqOrd κ] {m m₁ m₂ : HashMap κ ν} {o : IterOrder}

theorem ext_get (h : ∀ k : κ, m₁[k]? = m₂[k]?) : m₁ = m₂ :=
  Std.ExtTreeMap.ext_getElem? h

@[simp]
theorem get_insert [DecidableEq κ] (m : HashMap κ ν) (k k' : κ) (v : ν) :
    (m.insert k v)[k']? = if k = k' then some v else m[k']? := by
  simp [Std.ExtTreeMap.getElem?_insert]

@[simp]
theorem get_erase [DecidableEq κ] (m : HashMap κ ν) (k k' : κ) :
    (m.erase k)[k']? = if k = k' then none else m[k']? := by
  simp [Std.ExtTreeMap.getElem?_erase]

@[simp]
theorem get_filter (m : HashMap κ ν) (f : κ → ν → Bool) (k : κ) :
    (m.filter f)[k]? = m[k]?.filter (f k) := by
  simp [Std.ExtTreeMap.getElem?_filter]

theorem filter_eq_self {f : κ → ν → Bool} (h : ∀ (k : κ) v, m[k]? = some v → f k v) : m.filter f = m := by
  refine ext_get fun k => ?_
  rw [get_filter]
  cases mem : m[k]?
  case none => rfl
  case some v => rw [Option.filter_some, if_pos (h k v mem)]

theorem of_mem_filter {f : κ → ν → Bool} {k : κ} {v : ν} (h : (m.filter f)[k]? = some v) : f k v := by
  rw [get_filter, Option.filter_eq_some_iff] at h
  exact h.2

theorem filter_filter_self (m : HashMap κ ν) (f : κ → ν → Bool) : (m.filter f).filter f = m.filter f :=
  filter_eq_self fun _ _ => of_mem_filter

theorem get_foldl_insert [DecidableEq κ] (keys : List κ) (m : HashMap κ ν) (v : ν) (k : κ) :
    (keys.foldl (fun m k' => m.insert k' v) m)[k]? = if k ∈ keys then some v else m[k]? := by
  induction keys generalizing m
  case nil => simp
  case cons k' keys ih =>
    rw [List.foldl_cons, ih, get_insert]
    simp only [List.mem_cons]
    by_cases h : k ∈ keys
    case pos => simp [h]
    case neg => simp [h, eq_comm (a := k')]

omit [Std.LawfulEqOrd κ] in
theorem contains_eq_false_iff {k : κ} : m.contains k = false ↔ m[k]? = none := by
  rw [Std.ExtTreeMap.contains_eq_isSome_getElem?, Option.isSome_eq_false_iff, Option.isNone_iff_eq_none]

theorem insert_eq_self {k : κ} {v : ν} (h : m[k]? = some v) : m.insert k v = m := by
  classical
  refine ext_get fun k' => ?_
  rw [get_insert]
  split
  case isTrue e => exact e ▸ h.symm
  case isFalse => rfl

theorem insert_insert_self (m : HashMap κ ν) (k : κ) (v₁ v₂ : ν) :
    (m.insert k v₁).insert k v₂ = m.insert k v₂ := by
  classical
  refine ext_get fun k' => ?_
  simp only [get_insert]
  split <;> rfl

theorem mem_toList {k : κ} {v : ν} : (k, v) ∈ m.toList ↔ m[k]? = some v :=
  Std.ExtTreeMap.mem_toList_iff_getElem?_eq_some

@[simp]
theorem mem_iter {k : κ} {v : ν} : (k, v) ∈ m.iter o ↔ m[k]? = some v := by
  simp [iter]

@[simp]
theorem mem_values {v : ν} : v ∈ m.values o ↔ ∃ k : κ, m[k]? = some v := by
  simp [values]

@[simp]
theorem mem_keys {k : κ} : k ∈ m.keys o ↔ ∃ v, m[k]? = some v := by
  simp [keys]

theorem keys_toList_nodup (m : HashMap κ ν) : (m.toList.map Prod.fst).Nodup := by
  simp only [List.Nodup, List.pairwise_map]
  exact m.distinct_keys_toList.imp fun h e => h (Std.compare_eq_iff_eq.mpr e)

theorem toList_nodup (m : HashMap κ ν) : m.toList.Nodup :=
  .of_map Prod.fst m.keys_toList_nodup

theorem toList_insert_perm {k : κ} (v : ν) (h : m[k]? = none) :
    (m.insert k v).toList.Perm ((k, v) :: m.toList) := by
  classical
  refine (List.perm_ext_iff_of_nodup (toList_nodup _) (List.nodup_cons.mpr ⟨?_, toList_nodup _⟩)).mpr ?_
  case refine_1 => simp [h]
  case refine_2 =>
    intro ⟨k', v'⟩
    simp only [mem_toList, get_insert, List.mem_cons, Prod.mk.injEq]
    split
    case isTrue e =>
      subst e
      simp [h, eq_comm]
    case isFalse ne => simp [Ne.symm ne]

theorem toList_erase_perm {k : κ} {v : ν} (h : m[k]? = some v) :
    m.toList.Perm ((k, v) :: (m.erase k).toList) := by
  classical
  have erased : (m.erase k)[k]? = none := by simp
  have restored : (m.erase k).insert k v = m := by
    refine ext_get fun k' => ?_
    simp only [get_insert, get_erase]
    split
    case isTrue e => rw [← e, h]
    case isFalse => rfl
  have := toList_insert_perm v erased
  rwa [restored] at this

theorem keys_nodup (m : HashMap κ ν) (o : IterOrder) : (m.keys o).Nodup :=
  ((o.perm m.toList).map Prod.fst).nodup_iff.mpr m.keys_toList_nodup

omit [Std.LawfulEqOrd κ] in
theorem iter_perm (m : HashMap κ ν) (o₁ o₂ : IterOrder) : (m.iter o₁).Perm (m.iter o₂) :=
  (o₁.perm m.toList).trans (o₂.perm m.toList).symm

omit [Std.LawfulEqOrd κ] in
theorem values_perm (m : HashMap κ ν) (o₁ o₂ : IterOrder) : (m.values o₁).Perm (m.values o₂) :=
  (m.iter_perm o₁ o₂).map Prod.snd

-- The sorted values, as a sorted map yields them.
omit [Std.LawfulEqOrd κ] in
theorem sorted_values (m : HashMap κ ν) : Std.ExtTreeMap.values m = m.toList.map Prod.snd := by
  rcases m with ⟨m⟩
  induction m using Std.ExtDTreeMap.inductionOn
  case mk m =>
    have values := Std.DTreeMap.Internal.Impl.values_eq_map_snd (t := m.inner)
    have entries := Std.DTreeMap.Internal.Impl.Const.toList_eq_toListModel_map (t := m.inner)
    show m.inner.values = (Std.DTreeMap.Internal.Impl.Const.toList m.inner).map Prod.snd
    rw [values, entries, List.map_map]
    rfl

section Total

variable {f : ν → Nat}

-- The sum of a measure over the values.
def total (f : ν → Nat) (m : HashMap κ ν) : Nat :=
  (m.toList.map (f ·.2)).sum

omit [Std.LawfulEqOrd κ] in
theorem sum_values (m : HashMap κ ν) (o : IterOrder) : ((m.values o).map f).sum = total f m := by
  rw [values, iter, List.map_map]
  exact ((o.perm m.toList).map _).sum_eq

omit [Std.LawfulEqOrd κ] in
theorem sum_sorted_values (m : HashMap κ ν) : ((Std.ExtTreeMap.values m).map f).sum = total f m := by
  rw [sorted_values, List.map_map]
  rfl

theorem total_erase (m : HashMap κ ν) (k : κ) : total f (m.erase k) + m[k]?.elim 0 f = total f m := by
  cases stored : m[k]?
  case none =>
    have same : m.erase k = m := by
      classical
      refine ext_get fun k' => ?_
      rw [get_erase]
      split
      case isTrue eq => exact eq ▸ stored.symm
      case isFalse => rfl
    rw [same]
    rfl
  case some v =>
    have perm := (toList_erase_perm stored).map (f ·.2)
    rw [total, total, perm.sum_eq, List.map_cons, List.sum_cons]
    exact Nat.add_comm _ _

theorem total_insert (m : HashMap κ ν) (k : κ) (v : ν) :
    total f (m.insert k v) = total f (m.erase k) + f v := by
  have erased : (m.insert k v).erase k = m.erase k := by
    classical
    refine ext_get fun k' => ?_
    simp only [get_insert, get_erase]
    split <;> rfl
  have := total_erase (f := f) (m.insert k v) k
  rw [erased] at this
  simpa using this.symm

end Total

-- A search finds the same value in every order if there is only one to be found.
omit [Std.LawfulEqOrd κ] in
theorem find_values_eq {p : ν → Bool} (o₁ o₂ : IterOrder)
    (h : ∀ v₁ v₂, v₁ ∈ m.values o₁ → v₂ ∈ m.values o₁ → p v₁ → p v₂ → v₁ = v₂) :
    (m.values o₁).find? p = (m.values o₂).find? p := by
  have mem : ∀ v, v ∈ m.values o₁ ↔ v ∈ m.values o₂ := fun _ => (m.values_perm o₁ o₂).mem_iff
  cases h₂ : (m.values o₂).find? p
  case none =>
    rw [List.find?_eq_none] at h₂ ⊢
    exact fun v hv => h₂ v ((mem v).mp hv)
  case some v₂ =>
    have mem₂ := (mem v₂).mpr (List.mem_of_find?_eq_some h₂)
    have ⟨v₁, h₁⟩ := Option.isSome_iff_exists.mp (List.find?_isSome.mpr ⟨v₂, mem₂, List.find?_some h₂⟩)
    have := h v₁ v₂ (List.mem_of_find?_eq_some h₁) mem₂ (List.find?_some h₁) (List.find?_some h₂)
    rw [h₁, this]

-- Every value of the map satisfies the predicate.
def Each (P : ν → Prop) (m : HashMap κ ν) : Prop :=
  ∀ (k : κ) v, m[k]? = some v → P v

namespace Each

variable {P Q : ν → Prop} {k : κ} {v : ν}

omit [Std.LawfulEqOrd κ] in
theorem empty : Each P (∅ : HashMap κ ν) := by
  simp [Each]

omit [Std.LawfulEqOrd κ] in
theorem imp (e : Each P m) (h : ∀ v, P v → Q v) : Each Q m :=
  fun k v mem => h v (e k v mem)

theorem insert (e : Each P m) (h : P v) : Each P (m.insert k v) := by
  classical
  intro k' v' mem
  rw [get_insert] at mem
  split at mem
  case isTrue => exact Option.some.inj mem ▸ h
  case isFalse => exact e k' v' mem

theorem erase (e : Each P m) : Each P (m.erase k) := by
  classical
  intro k' v' mem
  rw [get_erase] at mem
  split at mem
  case isTrue => contradiction
  case isFalse => exact e k' v' mem

theorem filter (e : Each P m) {f : κ → ν → Bool} : Each P (m.filter f) := by
  intro k v mem
  rw [get_filter] at mem
  exact e k v (Option.filter_eq_some_iff.mp mem).1

end Each

end HashMap
