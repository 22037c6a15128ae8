import FiduciaNode.Primitives.Bytes
import FiduciaNode.Primitives.Framing
import FiduciaNode.State.Cancellation

-- The length of a segment as the hash sees it: eight bytes, the most significant one first.
def lengthBytes (n : Nat) : List UInt8 :=
  (List.range 8).map fun i => UInt8.ofNat (n / 256 ^ (7 - i))

theorem length_lengthBytes (n : Nat) : (lengthBytes n).length = 8 := by
  simp [lengthBytes]

theorem lengthBytes_inj {m n : Nat} (hm : m ≤ U64.max) (hn : n ≤ U64.max) (same : lengthBytes m = lengthBytes n) :
    m = n := by
  have digit (i : Nat) (h : i < 8) : m / 256 ^ (7 - i) % 256 = n / 256 ^ (7 - i) % 256 := by
    have := List.map_inj_left.mp same i (List.mem_range.mpr h)
    simpa using congrArg UInt8.toNat this
  have d₀ := digit 0 (by decide)
  have d₁ := digit 1 (by decide)
  have d₂ := digit 2 (by decide)
  have d₃ := digit 3 (by decide)
  have d₄ := digit 4 (by decide)
  have d₅ := digit 5 (by decide)
  have d₆ := digit 6 (by decide)
  have d₇ := digit 7 (by decide)
  simp only [U64.max] at hm hn
  norm_num at d₀ d₁ d₂ d₃ d₄ d₅ d₆ d₇ hm hn
  omega

theorem hashSegment_selfDelimiting : SelfDelimiting (fun value => value.length ≤ U64.max) hashSegment := by
  have framed : SelfDelimiting (fun value => value.length ≤ U64.max) fun value => lengthBytes value.length ++ value :=
    selfDelimiting_lengthPrefix length_lengthBytes lengthBytes_inj
  exact framed

theorem hashSegment_ne_nil (value : List UInt8) : hashSegment value ≠ [] :=
  List.cons_ne_nil _ _

-- What an attempt is identified by. The length of a text is a machine word.
structure AcquisitionAttempt where
  kind      : String
  holder    : String
  keys      : List String
  requestId : String
  sized     : ∀ text ∈ kind :: holder :: (keys ++ [requestId]), (bytesOf text).length ≤ U64.max

namespace AcquisitionAttempt

def texts (a : AcquisitionAttempt) : List String :=
  a.kind :: a.holder :: (a.keys ++ [a.requestId])

-- The bytes that go into the hash.
def hashed (a : AcquisitionAttempt) : List UInt8 :=
  hashSegment (bytesOf a.kind) ++ hashSegment (bytesOf a.holder) ++
  a.keys.flatMap (fun key => hashSegment (bytesOf key)) ++ hashSegment (bytesOf a.requestId)

variable {a b : AcquisitionAttempt}

theorem hashed_eq : a.hashed = (a.texts.map bytesOf).flatMap hashSegment := by
  simp [hashed, texts, List.flatMap_map]

-- The last text is the request and the first two are the kind and the holder, so that the rest are the keys.
theorem eq_of_texts (same : a.texts = b.texts) : a = b := by
  have ⟨kind, same⟩ := List.cons.inj same
  have ⟨holder, same⟩ := List.cons.inj same
  have ⟨keys, request⟩ := List.append_inj' same rfl
  cases a
  cases b
  cases kind
  cases holder
  cases keys
  cases request
  rfl

theorem texts_of_hashed (same : a.hashed = b.hashed) : a.texts = b.texts := by
  rw [hashed_eq, hashed_eq] at same
  have sized (a : AcquisitionAttempt) : ∀ value ∈ a.texts.map bytesOf, value.length ≤ U64.max := by
    intro value mem
    have ⟨text, mem, eq⟩ := List.mem_map.mp mem
    exact eq ▸ a.sized text mem
  have blocks := hashSegment_selfDelimiting.flatMap_inj hashSegment_ne_nil (sized a) (sized b) same
  exact List.map_injective_iff.mpr (fun _ _ => String.toUTF8_toList_inj.mp) blocks

theorem identity_unambiguous [External] :
    (∀ a : AcquisitionAttempt, acquisitionIdentity a.kind a.holder a.keys a.requestId = digestString a.hashed) ∧
    ∀ a b : AcquisitionAttempt, a.hashed = b.hashed ↔ a = b := by
  refine ⟨fun _ => rfl, fun a b => ⟨fun same => ?_, fun same => same ▸ rfl⟩⟩
  exact eq_of_texts (texts_of_hashed same)

end AcquisitionAttempt
