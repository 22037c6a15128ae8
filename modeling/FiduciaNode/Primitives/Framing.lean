import Mathlib

-- Codes whose words can be told apart when they follow each other without a separator.

section SelfDelimiting

variable {α β : Type} {p : α → Prop} {encode : α → List β}

-- A word, and where it ends, can be read off any text that starts with it.
def SelfDelimiting (p : α → Prop) (encode : α → List β) : Prop :=
  ∀ (a b : α) (rest rest' : List β), p a → p b → encode a ++ rest = encode b ++ rest' → a = b ∧ rest = rest'

-- The number of words need not be written down if no word is empty.
theorem SelfDelimiting.flatMap_inj (d : SelfDelimiting p encode) (filled : ∀ a, encode a ≠ [])
    {as bs : List α} (pas : ∀ a ∈ as, p a) (pbs : ∀ b ∈ bs, p b) (same : as.flatMap encode = bs.flatMap encode) :
    as = bs := by
  induction as generalizing bs
  case nil =>
    cases bs
    case nil => rfl
    case cons b bs =>
      have : encode b = [] := (List.append_eq_nil_iff.mp same.symm).1
      exact (filled b this).elim
  case cons a as ih =>
    cases bs
    case nil =>
      have : encode a = [] := (List.append_eq_nil_iff.mp same).1
      exact (filled a this).elim
    case cons b bs =>
      have ⟨first, rest⟩ := d a b _ _ (pas a List.mem_cons_self) (pbs b List.mem_cons_self) same
      rw [first, ih (fun a mem => pas a (.tail _ mem)) (fun b mem => pbs b (.tail _ mem)) rest]

end SelfDelimiting

section LengthPrefix

variable {β : Type} {header : Nat → List β} {width bound : Nat}

-- A block behind its length, which is written in a fixed number of digits.
theorem selfDelimiting_lengthPrefix (digits : ∀ n, (header n).length = width)
    (inj : ∀ {m n}, m ≤ bound → n ≤ bound → header m = header n → m = n) :
    SelfDelimiting (fun block : List β => block.length ≤ bound) fun block => header block.length ++ block := by
  intro a b rest rest' ha hb same
  simp only [List.append_assoc] at same
  have ⟨length, same⟩ := List.append_inj same (by rw [digits, digits])
  exact List.append_inj same (inj ha hb length)

end LengthPrefix
