import FiduciaNode.State.Theorems.Restore

namespace Store

variable {s restored : Store} {o : IterOrder} {c : Command} {now revision : Nat} {bytes : List UInt8}

theorem le_prepare_commandProtocol : s.commandProtocol ≤ (s.prepare o c now).commandProtocol := by
  simp only [prepare]
  split
  case isTrue => exact le_rfl
  case isFalse => exact Nat.le_max_left _ _

theorem le_applyActivateCommandProtocol (version : Nat) :
    s.commandProtocol ≤ (s.applyActivateCommandProtocol version).1.commandProtocol := by
  simp only [applyActivateCommandProtocol]
  split
  case isTrue h =>
    simp only [Bool.and_eq_true, decide_eq_true_eq] at h
    exact h.2
  case isFalse => split <;> exact le_rfl

-- Stated for any result, so that the bound on the tokens of an offer is never evaluated.
theorem onHandoffs_commandProtocol {r : Handoffs × Value} :
    (s.onHandoffs r).1.commandProtocol = s.commandProtocol :=
  rfl

variable [External]

-- Only the activation of a protocol changes it once the store is prepared.
theorem applyCommand_commandProtocol (h : c.isProtocolActivation = false) :
    (s.applyCommand o revision now c).1.commandProtocol = s.commandProtocol := by
  cases c <;> try contradiction
  case handoffOffer => exact onHandoffs_commandProtocol
  case taskClaim =>
    simp only [applyCommand, applyTaskClaim]
    split <;> rfl
  all_goals rfl

theorem le_applyCommand_commandProtocol :
    s.commandProtocol ≤ (s.applyCommand o revision now c).1.commandProtocol := by
  cases h : c.isProtocolActivation
  case false => exact (applyCommand_commandProtocol h).ge
  case true =>
    cases c <;> try contradiction
    case activateCommandProtocol version => exact le_applyActivateCommandProtocol version

theorem le_applyAt_commandProtocol : s.commandProtocol ≤ (s.applyAt o c now).1.commandProtocol :=
  le_prepare_commandProtocol.trans le_applyCommand_commandProtocol

-- The record of the current protocol activates it, unless the store has gone past it.
theorem applyAt_activates (s : Store) (o : IterOrder) (now : Nat) : Command.currentCommandProtocol ≤
    (s.applyAt o (.activateCommandProtocol Command.currentCommandProtocol) now).1.commandProtocol := by
  simp only [applyAt, prepare, Command.isProtocolActivation, if_true, applyCommand,
    applyActivateCommandProtocol]
  split
  case isTrue => exact le_rfl
  case isFalse older =>
    have newer : Command.currentCommandProtocol < s.commandProtocol := by
      simp only [Bool.and_eq_true, decide_eq_true_eq, not_and] at older
      exact Nat.lt_of_not_le (older ⟨by decide, le_rfl⟩)
    split <;> exact newer.le

variable [SnapshotCodec]

-- A snapshot is only accepted with a protocol that there is.
theorem decodeSnapshot_commandProtocol (h : decodeSnapshot o bytes = .ok restored) :
    Command.legacyCommandProtocol ≤ restored.commandProtocol := by
  simp only [decodeSnapshot, Except.bind_eq_ok_iff, Except.ite_error_eq_ok_iff] at h
  obtain ⟨_, _, _, _, _, _, valid, eq⟩ := h
  cases eq
  simp only [validateRestored, Except.seq_eq_ok_iff, validateProtocol] at valid
  obtain ⟨ranged, _⟩ := valid
  split at ranged
  case isTrue range =>
    simp only [Bool.and_eq_true, decide_eq_true_eq] at range
    exact range.1
  case isFalse => contradiction

end Store
