import FiduciaNode.Primitives.SlidingWindow
import FiduciaNode.State.Theorems.Frames

open SlidingWindow

-- What a check of the limiter costs, if the command is one.
def Command.checkCost (limiter : String) : Command → Option Nat
  | .rateLimitCheck key tenant _ _ _ _ cost =>
    if RateLimits.rateLimitStoreKey tenant key = limiter then some (max cost 1) else none
  | _ => none

theorem Command.checkCost_eq_some {limiter : String} {c : Command} {cost : Nat} (h : c.checkCost limiter = some cost) :
    ∃ key tenant algorithm limit windowMs refillPerSecond cost',
      c = .rateLimitCheck key tenant algorithm limit windowMs refillPerSecond cost' ∧
      RateLimits.rateLimitStoreKey tenant key = limiter ∧ max cost' 1 = cost := by
  cases c <;> try contradiction
  case rateLimitCheck key tenant algorithm limit windowMs refillPerSecond cost' =>
    simp only [checkCost, Option.ite_none_right_eq_some, Option.some.injEq] at h
    exact ⟨_, _, _, _, _, _, _, rfl, h⟩

namespace Applied

-- What was spent, which is nothing unless the check was allowed.
def spends (limiter : String) (e : Applied) : Nat :=
  if e.output.flag "allowed" = some true then (e.command.checkCost limiter).getD 0 else 0

-- The times of everything that was spent, one for each unit.
def spentTimes (limiter : String) : List Applied → List Nat
  | [] => []
  | e :: earlier => spentTimes limiter earlier ++ List.replicate (e.spends limiter) e.now

-- The total cost of the allowed checks between `t` and the end of the window from there.
def spentFrom (limiter : String) (windowMs : Nat) (events : List Applied) (t : Int) : Nat :=
  (events.map fun e => if t ≤ e.now ∧ e.now < t + windowMs then e.spends limiter else 0).sum

theorem spentFrom_eq_inside {limiter : String} {windowMs : Nat} {events : List Applied} {t : Int} :
    spentFrom limiter windowMs events t = inside windowMs (spentTimes limiter events) t := by
  induction events
  case nil => rfl
  case cons e events ih =>
    simp only [spentFrom, inside] at ih
    rw [spentFrom, inside, spentTimes, List.countP_append, List.countP_replicate, List.map_cons, List.sum_cons, ih]
    simp only [decide_eq_true_eq]
    omega

end Applied

namespace RateLimits

variable {rateLimits : RateLimits} {limiter : String} {now limit windowMs cost : Nat} {key tenant : String}

-- The times that the record of the limiter keeps.
def eventsOf (rateLimits : RateLimits) (limiter : String) : List Nat :=
  (rateLimits[limiter]?.map RateLimitRecord.events).getD []

theorem eventsOf_check (algorithm : RateLimitAlgorithm) (refill : Option Float)
    (other : rateLimitStoreKey tenant key ≠ limiter) :
    (rateLimits.applyRateLimitCheck now key tenant algorithm limit windowMs refill cost).1.eventsOf limiter =
      rateLimits.eventsOf limiter := by
  simp [applyRateLimitCheck, eventsOf, HashMap.get_insert, other]

-- The log after a check, which is allowed if it fits into what the log leaves.
theorem slidingWindow_check (refill : Option Float) (same : rateLimitStoreKey tenant key = limiter) :
    let r := rateLimits.applyRateLimitCheck now key tenant .slidingWindow limit windowMs refill cost
    let kept := (rateLimits.eventsOf limiter).dropWhile (· ≤ now - windowMs)
    if cost ≤ limit - kept.length
    then r.2.flag "allowed" = some true ∧ r.1.eventsOf limiter = kept ++ List.replicate cost now
    else r.2.flag "allowed" = some false ∧ r.1.eventsOf limiter = kept := by
  subst same
  cases stored : rateLimits[rateLimitStoreKey tenant key]? <;>
    simp only [applyRateLimitCheck, eventsOf, stored, slidingWindow, Option.getD_none, Option.getD_some, Option.map_some,
      Option.map_none, HashMap.get_insert, if_true, ge_iff_le] <;>
    split <;> exact ⟨rfl, rfl⟩

end RateLimits

namespace Store

variable [External] {s start : Store} {o : IterOrder} {c : Command} {now limit windowMs cost : Nat} {limiter : String}
  {events : List Applied}

-- The limiter is used with the sliding window and one limit and window only, and its clock does not go back.
def Windowed (limiter : String) (limit windowMs : Nat) (events : List Applied) (_ : Store) (c : Command) (now : Nat) :
    Prop :=
  ∀ key tenant algorithm limit' windowMs' refillPerSecond cost,
    c = .rateLimitCheck key tenant algorithm limit' windowMs' refillPerSecond cost →
    RateLimits.rateLimitStoreKey tenant key = limiter →
    algorithm = .slidingWindow ∧ limit' = limit ∧ windowMs' = windowMs ∧ 1 ≤ now ∧
    ∀ e ∈ events, (e.command.checkCost limiter).isSome → e.now ≤ now

theorem applyAt_unchecked (h : c.checkCost limiter = none) :
    (s.applyAt o c now).1.rateLimits.eventsOf limiter = s.rateLimits.eventsOf limiter := by
  have same : (s.prepare o c now).rateLimits = s.rateLimits := prepare_frame .rateLimits rfl
  by_cases part : c.part = .rateLimits
  case neg => rw [show (s.applyAt o c now).1.rateLimits = s.rateLimits from applyAt_frame .rateLimits rfl (Ne.symm part)]
  case pos =>
    cases c <;> try contradiction
    case rateLimitCheck key tenant algorithm limit windowMs refill cost =>
      have other : RateLimits.rateLimitStoreKey tenant key ≠ limiter := by simpa [Command.checkCost] using h
      exact same ▸ RateLimits.eventsOf_check algorithm refill other

theorem applyAt_check (windowed : Windowed limiter limit windowMs events s c now)
    (check : c.checkCost limiter = some cost) :
    let kept := (s.rateLimits.eventsOf limiter).dropWhile (· ≤ now - windowMs)
    if cost ≤ limit - kept.length
    then (s.applyAt o c now).2.output.flag "allowed" = some true ∧
      (s.applyAt o c now).1.rateLimits.eventsOf limiter = kept ++ List.replicate cost now
    else (s.applyAt o c now).2.output.flag "allowed" = some false ∧
      (s.applyAt o c now).1.rateLimits.eventsOf limiter = kept := by
  have unprepared : (s.prepare o c now).rateLimits = s.rateLimits := prepare_frame .rateLimits rfl
  obtain ⟨_, _, _, _, _, refill, _, rfl, same, rfl⟩ := Command.checkCost_eq_some check
  obtain ⟨rfl, rfl, rfl, _⟩ := windowed _ _ _ _ _ _ _ rfl same
  exact unprepared ▸ RateLimits.slidingWindow_check refill same

omit [External] in
theorem Windowed.time (windowed : Windowed limiter limit windowMs events s c now)
    (check : c.checkCost limiter = some cost) :
    1 ≤ now ∧ ∀ e ∈ events, (e.command.checkCost limiter).isSome → e.now ≤ now := by
  have ⟨_, _, _, _, _, _, _, command, same, _⟩ := Command.checkCost_eq_some check
  exact (windowed _ _ _ _ _ _ _ command same).2.2.2

-- The record keeps what it needs of everything that was spent.
theorem Abides.accounts (fresh : start.rateLimits[limiter]? = none)
    (run : Abides (Windowed limiter limit windowMs) start events s)
    (le : ∀ e ∈ events, (e.command.checkCost limiter).isSome → e.now ≤ now) :
    Accounts limit windowMs now (s.rateLimits.eventsOf limiter) (Applied.spentTimes limiter events) := by
  induction run generalizing now
  case start => simpa [RateLimits.eventsOf, fresh, Applied.spentTimes] using Accounts.empty
  case apply past s o c now' windowed _ ih =>
    simp only [List.mem_cons, forall_eq_or_imp] at le
    rw [Applied.spentTimes]
    cases check : c.checkCost limiter
    case none => simpa [applyAt_unchecked check, Applied.spends, check] using ih le.2
    case some cost =>
      have ⟨positive, earlier⟩ := windowed.time check
      have accounts := ih earlier
      have checked := applyAt_check (o := o) windowed check
      refine .later ?_ (le.1 (by simp [check]))
      dsimp only at checked
      rw [accounts.prune] at checked
      split at checked
      case isTrue fits =>
        have ⟨_, _, _, _, _, _, _, _, _, atLeastOne⟩ := Command.checkCost_eq_some check
        have fits : (live windowMs now' (Applied.spentTimes limiter past)).length + cost ≤ limit := by omega
        simpa [checked, Applied.spends, check] using accounts.spend positive fits
      case isFalse => simpa [checked, Applied.spends] using accounts.refuse

theorem sliding_window_bounds (fresh : start.rateLimits[limiter]? = none)
    (run : Abides (Windowed limiter limit windowMs) start events s) :
    (∀ t, Applied.spentFrom limiter windowMs events t ≤ limit) ∧
    ∀ o c now cost, Windowed limiter limit windowMs events s c now → c.checkCost limiter = some cost →
      (s.applyAt o c now).2.output.flag "allowed" = some false →
      (s.applyAt o c now).1.rateLimits.eventsOf limiter =
        (s.rateLimits.eventsOf limiter).filter (now < · + windowMs) ∧
      limit < Applied.spentFrom limiter windowMs events (now - windowMs + 1) + cost := by
  refine ⟨fun t => ?bound, fun o c now cost windowed check denied => ?denied⟩
  case bound =>
    have ⟨now, le⟩ : ∃ now, ∀ e ∈ events, e.now ≤ now :=
      ⟨(events.map (·.now)).sum, fun e mem => List.le_sum_of_mem (List.mem_map_of_mem mem)⟩
    rw [Applied.spentFrom_eq_inside]
    exact (run.accounts fresh fun e mem _ => le e mem).bound t
  case denied =>
    have accounts := run.accounts fresh (windowed.time check).2
    have checked := applyAt_check (o := o) windowed check
    dsimp only at checked
    rw [accounts.prune] at checked
    split at checked
    case isTrue => simp [checked] at denied
    case isFalse full =>
      refine ⟨checked.2.trans (accounts.live now (le_refl _)).symm, ?_⟩
      have := accounts.live_le_inside
      rw [Applied.spentFrom_eq_inside]
      omega

def checkAt (cost : Nat) : Command :=
  .rateLimitCheck "k" "t" .slidingWindow 3 10 none cost

omit [External] in
theorem checkAt_windowed (positive : 1 ≤ now) (later : ∀ e ∈ events, e.now ≤ now) :
    Windowed "t:k" 3 10 events s (checkAt cost) now := by
  rintro _ _ _ _ _ _ _ ⟨⟩ _
  exact ⟨rfl, rfl, rfl, positive, fun e mem _ => later e mem⟩

-- Two units are spent at once, two more are too many until the first ones have left the window.
omit [External] in
theorem sliding_window_bounds_ten :
    letI := External.fixed
    ∃ s events, Abides (Windowed "t:k" 3 10) .empty events s ∧
      events.map (fun e => (e.now, e.output.flag "allowed")) = [(11, some true), (5, some false), (1, some true)] ∧
      (∀ t, Applied.spentFrom "t:k" 10 events t ≤ 3) ∧
      (s.applyAt .sorted (checkAt 2) 12).1.rateLimits.eventsOf "t:k" =
        (s.rateLimits.eventsOf "t:k").filter (12 < · + 10) ∧
      3 < Applied.spentFrom "t:k" 10 events (12 - 10 + 1) + 2 := by
  let := External.fixed
  have run : Abides (Windowed "t:k" 3 10) .empty _ _ :=
    .apply .sorted (checkAt 2) 11 (checkAt_windowed (by decide) (by simp)) (
    .apply .sorted (checkAt 2) 5 (checkAt_windowed (by decide) (by simp)) (
    .apply .sorted (checkAt 2) 1 (checkAt_windowed (by decide) (by simp)) .start))
  have fresh : (empty : Store).rateLimits["t:k"]? = none := rfl
  have ⟨bound, denied⟩ := sliding_window_bounds fresh run
  refine ⟨_, _, run, by decide +kernel, bound, ?_⟩
  exact denied .sorted (checkAt 2) 12 2 (checkAt_windowed (by decide) (by simp)) rfl (by decide +kernel)

end Store
