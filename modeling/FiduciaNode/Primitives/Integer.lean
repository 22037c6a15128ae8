import Mathlib

-- The machine integers of the source are natural numbers here. A plain operation that the source
-- guards against overflow is written with one of the operations below.
namespace U64

def max : Nat := 2 ^ 64 - 1

def saturatingAdd (a b : Nat) : Nat :=
  min (a + b) max

def checkedAdd (a b : Nat) : Option Nat :=
  if a + b ≤ max then some (a + b) else none

-- The sum of a release build, in which overflow wraps around.
def wrappingAdd (a b : Nat) : Nat :=
  (a + b) % 2 ^ 64

theorem saturatingAdd_le_max (a b : Nat) : saturatingAdd a b ≤ max :=
  Nat.min_le_right _ _

theorem checkedAdd_eq_some_iff {a b c : Nat} :
    (checkedAdd a b = some c) ↔ (a + b = c ∧ c ≤ max) := by
  simp only [checkedAdd]
  split <;> simp
  case isTrue h => exact fun e => e ▸ h
  case isFalse h => exact fun e => e ▸ (by omega)

-- A saturated sum is exact until it saturates.
theorem foldl_saturatingAdd {α : Type} (f : α → Nat) (l : List α) {a : Nat} (le : a ≤ max) :
    l.foldl (fun acc x => saturatingAdd acc (f x)) a = min (a + (l.map f).sum) max := by
  induction l generalizing a
  case nil => simp [le]
  case cons x l ih =>
    rw [List.foldl_cons, ih (saturatingAdd_le_max a (f x)), List.map_cons, List.sum_cons, saturatingAdd]
    omega

-- A plain sum in a build that checks for overflow, and in one that does not.
theorem foldlM_checkedAdd {α : Type} (f : α → Nat) (l : List α) {a : Nat} (le : a ≤ max) :
    l.foldlM (fun acc x => checkedAdd acc (f x)) a =
      if a + (l.map f).sum ≤ max then some (a + (l.map f).sum) else none := by
  induction l generalizing a
  case nil => simp [le]
  case cons x l ih =>
    rw [List.foldlM_cons, List.map_cons, List.sum_cons, checkedAdd]
    split
    case isTrue fits => simp only [Option.bind_eq_bind, Option.bind_some, ih fits, Nat.add_assoc]
    case isFalse exceeds => exact (if_neg (by omega)).symm

theorem foldl_wrappingAdd {α : Type} (f : α → Nat) (l : List α) {a : Nat} (lt : a < 2 ^ 64) :
    l.foldl (fun acc x => wrappingAdd acc (f x)) a = (a + (l.map f).sum) % 2 ^ 64 := by
  induction l generalizing a
  case nil => exact (Nat.mod_eq_of_lt (by simpa using lt)).symm
  case cons x l ih =>
    rw [List.foldl_cons, ih (a := wrappingAdd a (f x)) (Nat.mod_lt _ (by decide)), List.map_cons, List.sum_cons,
      wrappingAdd, Nat.mod_add_mod, Nat.add_assoc]

end U64

namespace I64

def max : Int := 2 ^ 63 - 1

def min : Int := -2 ^ 63

def saturatingAdd (a b : Int) : Int :=
  Max.max min (Min.min max (a + b))

end I64
