import FiduciaNode.Cron

namespace Cron

variable {sep c : Char} {t before after : Text} {n : Nat}

theorem splitOnce_eq_some (h : splitOnce sep t = some (before, after)) : t = before ++ sep :: after := by
  simp only [splitOnce, List.span_eq_takeWhile_dropWhile] at h
  split at h
  case h_1 => cases h
  case h_2 before' c after' parts =>
    have ⟨taken, dropped⟩ := Prod.mk.inj parts
    have nonempty : t.dropWhile (· ≠ sep) ≠ [] := dropped ▸ List.cons_ne_nil c after'
    have first : c = sep := by
      have := List.head_dropWhile_not (· ≠ sep) nonempty
      simp only [dropped, List.head_cons] at this
      simpa using this
    cases h
    calc t = t.takeWhile (· ≠ sep) ++ t.dropWhile (· ≠ sep) := List.takeWhile_append_dropWhile.symm
      _ = before ++ sep :: after := by rw [taken, dropped, first]

-- The text is split at the first separator.
theorem splitOnce_append (h : sep ∉ before) : splitOnce sep (before ++ sep :: after) = some (before, after) := by
  have pos : ∀ c ∈ before, (decide (c ≠ sep)) = true := by
    intro c hc
    have ne : c ≠ sep := fun eq => h (eq ▸ hc)
    simpa using ne
  simp only [splitOnce, List.span_eq_takeWhile_dropWhile,
    List.takeWhile_append_of_pos pos, List.dropWhile_append_of_pos pos]
  simp

-- Only whitespace is trimmed.
theorem mem_trim_or (mem : c ∈ t) : c ∈ trim t ∨ isWhitespace c := by
  have dropped {l : Text} (mem : c ∈ l) : c ∈ l.dropWhile isWhitespace ∨ isWhitespace c := by
    rw [← List.takeWhile_append_dropWhile (p := isWhitespace) (l := l), List.mem_append] at mem
    exact mem.symm.imp_right List.mem_takeWhile_imp
  rcases dropped mem with mem | white
  case inr => exact .inr white
  case inl =>
    rcases dropped (List.mem_reverse.mpr mem) with mem | white
    case inr => exact .inr white
    case inl => exact .inl (List.mem_reverse.mpr mem)

theorem digit?_eq_some_iff {d : Nat} : digit? c = some d ↔ c.isDigit ∧ d = c.toNat - '0'.toNat := by
  have digit : ('0' ≤ c ∧ c ≤ '9') ↔ c.isDigit := by
    simp [Char.isDigit, Char.le_def]
  by_cases h : c.isDigit
  case pos => simp only [digit?, digit, h, if_true, Option.some.injEq, true_and, eq_comm]
  case neg => simp only [digit?, digit, h, if_false, reduceCtorEq, false_and]

-- A number in decimal digits, which may have a plus sign.
def Numeral (t : Text) (n : Nat) : Prop :=
  ∃ digits, (t = digits ∨ t = '+' :: digits) ∧ digits ≠ [] ∧ (∀ c ∈ digits, c.isDigit) ∧
    n = Nat.ofDigitChars 10 digits 0

theorem mapM_digit? {digits : Text} (h : ∀ c ∈ digits, c.isDigit) :
    digits.mapM digit? = some (digits.map fun c => c.toNat - '0'.toNat) := by
  induction digits
  case nil => rfl
  case cons c digits ih =>
    have ⟨first, rest⟩ := List.forall_mem_cons.mp h
    simp [List.mapM_cons, digit?_eq_some_iff.mpr ⟨first, rfl⟩, ih rest]

theorem isDigit_of_mapM {digits : Text} {ds : List Nat} (h : digits.mapM digit? = some ds) :
    ∀ c ∈ digits, c.isDigit := by
  induction digits generalizing ds
  case nil => simp
  case cons c digits ih =>
    simp only [List.mapM_cons, Option.bind_eq_bind, Option.bind_eq_some_iff] at h
    obtain ⟨d, first, ds, rest, _⟩ := h
    exact List.forall_mem_cons.mpr ⟨(digit?_eq_some_iff.mp first).1, ih rest⟩

-- The digits of a number, without its sign.
def unsigned (t : Text) : Text :=
  if t.head? = some '+' then t.tail else t

theorem unsigned_spec (t : Text) : t = unsigned t ∨ t = '+' :: unsigned t := by
  simp only [unsigned]
  split
  case isTrue h => exact .inr (List.eq_cons_of_mem_head? h)
  case isFalse => exact .inl rfl

theorem unsigned_eq {digits : Text} (h : t = digits ∨ t = '+' :: digits) (digit : ∀ c ∈ digits, c.isDigit) :
    unsigned t = digits := by
  rcases h with rfl | rfl
  case inr => rfl
  case inl =>
    refine if_neg fun plus => ?_
    exact absurd (digit _ (List.mem_of_mem_head? plus)) (by decide)

theorem numeral_iff : Numeral t n ↔ unsigned t ≠ [] ∧ (∀ c ∈ unsigned t, c.isDigit) ∧
    n = Nat.ofDigitChars 10 (unsigned t) 0 := by
  constructor
  case mp =>
    intro ⟨digits, eq, ne, digit, value⟩
    rw [unsigned_eq eq digit]
    exact ⟨ne, digit, value⟩
  case mpr =>
    intro ⟨ne, digit, value⟩
    exact ⟨_, unsigned_spec t, ne, digit, value⟩

theorem parseU32_eq_some_iff : parseU32 t = some n ↔ Numeral t n ∧ n < 2 ^ 32 := by
  have value (digits : Text) : (digits.map fun c => c.toNat - '0'.toNat).foldl (fun acc d => 10 * acc + d) 0 =
      Nat.ofDigitChars 10 digits 0 := by
    rw [List.foldl_map, Nat.ofDigitChars_eq_foldl]
  have parse : parseU32 t = if unsigned t = [] then none else
      (unsigned t).mapM digit? >>= fun ds =>
        let n := ds.foldl (fun acc d => 10 * acc + d) 0
        if n < 2 ^ 32 then some n else none := rfl
  rw [parse, numeral_iff]
  constructor
  case mp =>
    intro h
    obtain ⟨ne, h⟩ := Option.ite_none_left_eq_some.mp h
    obtain ⟨ds, digits, h⟩ := Option.bind_eq_some_iff.mp h
    obtain ⟨lt, h⟩ := Option.ite_none_right_eq_some.mp h
    have digit := isDigit_of_mapM digits
    rw [mapM_digit? digit] at digits
    cases digits
    cases h
    rw [value] at lt ⊢
    exact ⟨⟨ne, digit, rfl⟩, lt⟩
  case mpr =>
    intro ⟨⟨ne, digit, eq⟩, lt⟩
    rw [if_neg ne, mapM_digit? digit]
    simp only [Option.bind_eq_bind, Option.bind_some, value, ← eq, lt, if_true]

theorem Numeral.unique {m : Nat} (h₁ : Numeral t n) (h₂ : Numeral t m) : n = m := by
  rw [(numeral_iff.mp h₁).2.2, (numeral_iff.mp h₂).2.2]

end Cron
