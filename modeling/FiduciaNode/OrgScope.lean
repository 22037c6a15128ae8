import FiduciaNode.Cron.Theorems.Text
import FiduciaNode.Validate

-- The organization of a request, which the middleware has validated.
structure OrgScope where
  org   : String
  valid : Validate.validOrg org

-- The format of the routing crate: the organization between two delimiters, and then the key.
def orgScopedKey [External] (org key : String) : String :=
  String.ofList (External.orgScopeDelim :: org.toList ++ External.orgScopeDelim :: key.toList)

def orgScopePrefix [External] (org : String) : String :=
  String.ofList (External.orgScopeDelim :: org.toList ++ [External.orgScopeDelim])

namespace OrgScope

variable [External]

def scope (o : OrgScope) (key : String) : String :=
  orgScopedKey o.org key

def scopeAll (o : OrgScope) (keys : List String) : List String :=
  keys.map o.scope

-- The key as the caller knows it, if it is one of the organization.
def unscope (o : OrgScope) (key : String) : Option String :=
  (orgScopePrefix o.org).toList.isPrefixOf? key.toList |>.map String.ofList

variable {o : OrgScope} {key : String}

theorem toList_scope :
    (o.scope key).toList =
      External.orgScopeDelim :: (o.org.toList ++ External.orgScopeDelim :: key.toList) := by
  simp [scope, orgScopedKey]

-- The delimiter is a control character, which no organization has.
theorem delim_notMem (soh : External.orgScopeDelim = '\u0001') : External.orgScopeDelim ∉ o.org.toList := by
  intro mem
  have valid := o.valid
  simp only [Validate.validOrg, Bool.and_eq_true, Bool.not_eq_true', List.any_eq_false] at valid
  exact valid.2 _ mem (by rw [soh]; decide)

end OrgScope
