import FiduciaNode.Http.RateLimits
import FiduciaNode.State.RateLimits
import FiduciaNode.Primitives.Result
import Mathlib.Data.Set.Function

-- The first delimiter ends the part that has none.
theorem List.append_cons_inj_of_delim {α : Type} {delim : α} {xs ys rest rest' : List α}
    (hx : delim ∉ xs) (hy : delim ∉ ys) :
    xs ++ delim :: rest = ys ++ delim :: rest' ↔ xs = ys ∧ rest = rest' := by
  induction xs generalizing ys
  case nil => cases ys <;> simp_all
  case cons x xs ih =>
    have ⟨ne, hx⟩ := not_or.mp (mt List.mem_cons.mpr hx)
    cases ys
    case nil => simp [Ne.symm ne]
    case cons y ys => simp [ih hx (List.not_mem_of_not_mem_cons hy), and_assoc]

namespace OrgScope

theorem ext_org {a b : OrgScope} (h : a.org = b.org) : a = b := by
  cases a
  cases b
  cases h
  rfl

variable [External] {a b : OrgScope} {key key' : String}

theorem scope_inj (soh : External.orgScopeDelim = '\u0001') :
    a.scope key = b.scope key' ↔ a = b ∧ key = key' := by
  rw [← String.toList_inj, toList_scope, toList_scope, List.cons_inj_right,
    List.append_cons_inj_of_delim (delim_notMem soh) (delim_notMem soh), String.toList_inj, String.toList_inj]
  exact and_congr_left fun _ => ⟨ext_org, congrArg org⟩

theorem unscope_eq_some_iff : a.unscope key' = some key ↔ a.scope key = key' := by
  rw [unscope, Option.map_eq_some_iff, ← String.toList_inj, toList_scope]
  constructor
  case mp =>
    rintro ⟨rest, h, rfl⟩
    simpa [orgScopePrefix] using List.isPrefixOf?_eq_some_iff_append_eq.mp h
  case mpr =>
    intro h
    refine ⟨key.toList, List.isPrefixOf?_eq_some_iff_append_eq.mpr ?_, String.ofList_toList⟩
    simpa [orgScopePrefix] using h

-- An organization finds the keys of its own, and no others.
theorem unscope_scope (soh : External.orgScopeDelim = '\u0001') :
    b.unscope (a.scope key) = some key' ↔ a = b ∧ key = key' := by
  rw [unscope_eq_some_iff, scope_inj soh, eq_comm, @eq_comm _ key']

end OrgScope

namespace Http.RateLimits

variable [External] {a b : OrgScope} {tenant key tenant' key' : String}

-- The limiter that a command checks, by its tenant and its key.
def limiter : Command → Option (String × String)
  | .rateLimitCheck key tenant .. => some (tenant, key)
  | _ => none

-- The limiters that the handlers let a request name.
def Admitted (limiter' : String × String) : Prop :=
  ∃ org tenant key, getLimit org tenant key = .ok limiter' ∨
    ∃ body c, check org tenant key body = .ok c ∧ limiter c = some limiter'

omit [External] in
theorem notMem_of_checkPathSegment {label value : String} {delim : Char} (control : isControl delim)
    (h : Validate.checkPathSegment label value = .ok ()) : delim ∉ value.toList := by
  simp only [Validate.checkPathSegment, Except.seq_eq_ok_iff, Except.ite_error_eq_ok_iff] at h
  intro mem
  exact h.2.1 (List.any_eq_true.mpr ⟨delim, mem, by simp [control]⟩)

-- The tenant that a request names has no delimiter.
theorem Admitted.names {limiter' : String × String} (soh : External.orgScopeDelim = '\u0001')
    (h : Admitted limiter') :
    ∃ (org : OrgScope) (tenant key : String), External.orgScopeDelim ∉ tenant.toList ∧
      limiter' = (org.scope tenant, org.scope key) := by
  have ⟨org, tenant, key, h⟩ := h
  have ⟨valid, same⟩ : Validate.rateLimit tenant key = .ok () ∧ limiter' = (org.scope tenant, org.scope key) := by
    rcases h with read | ⟨body, c, checked, names⟩
    case inl =>
      simp only [getLimit, Except.seq_eq_ok_iff] at read
      simp_all
    case inr =>
      simp only [check, Except.seq_eq_ok_iff] at checked
      have ⟨valid, _, command⟩ := checked
      cases command
      cases names
      exact ⟨valid, rfl⟩
  simp only [Validate.rateLimit, Except.seq_eq_ok_iff] at valid
  exact ⟨org, tenant, key, notMem_of_checkPathSegment (by rw [soh]; rfl) valid.1, same⟩

theorem toList_rateLimitStoreKey :
    (RateLimits.rateLimitStoreKey (a.scope tenant) (a.scope key)).toList =
      External.orgScopeDelim :: (a.org.toList ++ External.orgScopeDelim ::
        ((tenant.toList ++ [':']) ++ External.orgScopeDelim ::
          (a.org.toList ++ External.orgScopeDelim :: key.toList))) := by
  simp [RateLimits.rateLimitStoreKey, OrgScope.toList_scope]

theorem rateLimitStoreKey_injOn (soh : External.orgScopeDelim = '\u0001') :
    {limiter' | Admitted limiter'}.InjOn fun (tenant, key) => RateLimits.rateLimitStoreKey tenant key := by
  intro l admitted l' admitted' same
  have ⟨a, tenant, key, free, names⟩ := admitted.names soh
  have ⟨b, tenant', key', free', names'⟩ := admitted'.names soh
  subst names names'
  have colon {tenant : String} (h : External.orgScopeDelim ∉ tenant.toList) :
      External.orgScopeDelim ∉ tenant.toList ++ [':'] := by
    have ne : External.orgScopeDelim ≠ ':' := by simp [soh]
    simp [h, ne]
  have same := congrArg String.toList same
  simp only [toList_rateLimitStoreKey, List.cons_inj_right,
    List.append_cons_inj_of_delim (OrgScope.delim_notMem soh) (OrgScope.delim_notMem soh),
    List.append_cons_inj_of_delim (colon free) (colon free'), List.append_cancel_right_eq,
    String.toList_inj] at same
  obtain ⟨org, rfl, _, rfl⟩ := same
  cases OrgScope.ext_org org
  rfl

theorem tenants_isolated (soh : External.orgScopeDelim = '\u0001') :
    (∀ (a b : OrgScope) key key', a.scope key = b.scope key' → a.org = b.org ∧ key = key') ∧
    (∀ (a b : OrgScope) key, b.unscope (a.scope key) = if a.org = b.org then some key else none) ∧
    {limiter' | Admitted limiter'}.InjOn fun (tenant, key) => RateLimits.rateLimitStoreKey tenant key := by
  refine ⟨fun a b key key' h => ?scope, fun a b key => ?unscope, rateLimitStoreKey_injOn soh⟩
  case scope =>
    have ⟨same, keys⟩ := (OrgScope.scope_inj soh).mp h
    exact ⟨congrArg OrgScope.org same, keys⟩
  case unscope =>
    split
    case isTrue same => exact (OrgScope.unscope_scope soh).mpr ⟨OrgScope.ext_org same, rfl⟩
    case isFalse ne =>
      refine Option.eq_none_iff_forall_ne_some.mpr fun key' h => ne ?_
      exact congrArg OrgScope.org ((OrgScope.unscope_scope soh).mp h).1

def acme : OrgScope where
  org   := "acme"
  valid := by decide +kernel

def globex : OrgScope where
  org   := "globex"
  valid := by decide +kernel

-- A key with delimiters does not lead out of the organization, and a tenant with a colon does not lead to the
-- limiter of another tenant.
omit [External] in
theorem acme_isolated :
    letI := External.fixed
    globex.unscope (acme.scope "\u0001globex\u0001k") = none ∧
    acme.unscope (acme.scope "\u0001globex\u0001k") = some "\u0001globex\u0001k" ∧
    acme.scope "k" ≠ globex.scope "k" ∧
    Admitted (acme.scope "a:b", acme.scope "c") ∧ Admitted (acme.scope "a", acme.scope "b:c") ∧
    RateLimits.rateLimitStoreKey (acme.scope "a:b") (acme.scope "c") ≠
      RateLimits.rateLimitStoreKey (acme.scope "a") (acme.scope "b:c") := by
  let := External.fixed
  have ⟨scope, unscope, limiters⟩ := tenants_isolated rfl
  have admitted : Admitted (acme.scope "a:b", acme.scope "c") := ⟨acme, "a:b", "c", .inl (by rfl)⟩
  have admitted' : Admitted (acme.scope "a", acme.scope "b:c") := ⟨acme, "a", "b:c", .inl (by rfl)⟩
  refine ⟨unscope acme globex _, unscope acme acme _, fun same => ?keys, admitted, admitted', fun same => ?limiters⟩
  case keys => exact absurd (scope acme globex _ _ same).1 (by decide)
  case limiters =>
    have tenants := congrArg Prod.fst (limiters admitted admitted' same)
    exact absurd (scope acme acme _ _ tenants).2 (by decide)

end Http.RateLimits
