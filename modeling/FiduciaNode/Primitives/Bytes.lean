import Mathlib

-- Texts as the bytes of their UTF-8 encoding.

namespace ByteArray

theorem toList_loop_eq (bytes : ByteArray) (i : Nat) (acc : List UInt8) :
    toList.loop bytes i acc = acc.reverse ++ bytes.data.toList.drop i := by
  unfold toList.loop
  split
  case isTrue h =>
    have bound : i < bytes.data.toList.length := by simpa using h
    rw [toList_loop_eq, List.drop_eq_getElem_cons bound]
    simp [get!, getElem!_pos bytes.data i h]
  case isFalse h =>
    have bound : bytes.data.toList.length ≤ i := by simpa using h
    simp [List.drop_eq_nil_of_le bound]
termination_by bytes.size - i

theorem toList_eq (bytes : ByteArray) : bytes.toList = bytes.data.toList := by
  simp [toList, toList_loop_eq]

end ByteArray

namespace String

-- The text that the bytes encode, if they do.
def fromBytes? (bytes : List UInt8) : Option String :=
  String.fromUTF8? ⟨bytes.toArray⟩

theorem toUTF8_of_toList {s : String} : (⟨s.toUTF8.toList.toArray⟩ : ByteArray) = s.toUTF8 := by
  rw [ByteArray.toList_eq]

theorem fromBytes?_toUTF8 (s : String) : fromBytes? s.toUTF8.toList = some s := by
  rw [fromBytes?, toUTF8_of_toList]
  exact dif_pos s.isValidUTF8

theorem fromBytes?_eq_some_iff {bytes : List UInt8} {s : String} :
    fromBytes? bytes = some s ↔ bytes = s.toUTF8.toList := by
  constructor
  case mp =>
    intro h
    simp only [fromBytes?, fromUTF8?, Option.dite_none_right_eq_some, Option.some.injEq] at h
    have ⟨valid, same⟩ := h
    rw [← same, ByteArray.toList_eq]
    rfl
  case mpr =>
    rintro rfl
    exact fromBytes?_toUTF8 s

theorem toUTF8_toList_inj {s t : String} : s.toUTF8.toList = t.toUTF8.toList ↔ s = t := by
  constructor
  case mp =>
    intro same
    exact Option.some.inj ((fromBytes?_toUTF8 s).symm.trans (same ▸ fromBytes?_toUTF8 t))
  case mpr => exact fun same => same ▸ rfl

theorem toUTF8_toList_append (s t : String) : (s ++ t).toUTF8.toList = s.toUTF8.toList ++ t.toUTF8.toList := by
  simp only [ByteArray.toList_eq]
  exact ByteArray.toList_data_append

end String
