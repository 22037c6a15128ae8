import FiduciaNode.Http.Address

-- The characters of an address.
def isAddressChar (c : Char) : Bool :=
  c.isDigit || ('a' ≤ c && c ≤ 'f') || ('A' ≤ c && c ≤ 'F') || c = ':' || c = '.'

-- What the libraries document: the text of an address is in lower case and is parsed as the address, only
-- such texts are parsed, and a URL has an IPv6 address as hexadecimal numbers in brackets.
class LawfulNet [Net] : Prop where
  display_char  : ∀ a, ∀ c ∈ (Net.display a).toList, isAddressChar c ∧ c.toLower = c
  parse_display : ∀ a, Net.parse (Net.display a) = some a
  parse_char    : ∀ s a, Net.parse s = some a → ∀ c ∈ s.toList, isAddressChar c
  ipv6Host_eq   : ∀ a, ∃ text : List Char, (Net.ipv6Host a).toList = '[' :: text ++ [']'] ∧
    ∀ c ∈ text, isAddressChar c ∧ c.toLower = c ∧ c ≠ '.'

namespace Ipv4Addr

-- The addresses that lead into the cluster.
def isInternal (a : Ipv4Addr) : Bool :=
  a.isLoopback || a = unspecified || a.isPrivate || a.isLinkLocal

end Ipv4Addr

namespace Ipv6Addr

-- A mapped address is the IPv4 address that it stands for.
def isInternal (a : Ipv6Addr) : Bool :=
  match a.toIpv4Mapped with
  | some mapped => mapped.isInternal
  | none => a.isLoopback || a = unspecified || a.isUniqueLocal || a.isUnicastLinkLocal

theorem mapped_public {a : Ipv6Addr} {mapped : Ipv4Addr} (h : a.toIpv4Mapped = some mapped) :
    (a.isLoopback || a.isUniqueLocal || a.isUnicastLinkLocal) = false := by
  simp only [toIpv4Mapped, Option.ite_none_right_eq_some] at h
  obtain ⟨⟨first, _, _, _, _, sixth⟩, _⟩ := h
  have loopback : a ≠ localhost := by
    rintro rfl
    exact absurd sixth (by decide)
  simp [isLoopback, isUniqueLocal, isUnicastLinkLocal, first, loopback]

end Ipv6Addr

namespace IpAddr

def isInternal : IpAddr → Bool
  | v4 a => a.isInternal
  | v6 a => a.isInternal

-- How an address is spelled: on its own, or as the host of a URL.
inductive Spelling
  | bare
  | host

def spell [Net] (a : IpAddr) : Spelling → String
  | .bare => Net.display a
  | .host =>
    match a with
    | v4 _ => Net.display a
    | v6 a => Net.ipv6Host a

-- The addresses that are recognized for what they are: not those that are unspecified, not those that
-- are mapped to internal ones, and no public IPv6 address in brackets.
def Recognized : Spelling → IpAddr → Prop
  | _, v4 a => a ≠ .unspecified
  | .bare, v6 a => a ≠ .unspecified ∧ ∀ mapped, a.toIpv4Mapped = some mapped → ¬mapped.isInternal
  | .host, v6 a => a.isInternal

end IpAddr

section Policy

variable [Net] [LawfulNet] {host : String} {a : IpAddr}

omit [Net] [LawfulNet] in
theorem toAsciiLowercase_eq_self (h : ∀ c ∈ host.toList, c.toLower = c) : toAsciiLowercase host = host := by
  rw [toAsciiLowercase, List.map_congr_left h, List.map_id', String.ofList_toList]

omit [Net] [LawfulNet] in
theorem not_localhost (h : 't' ∉ host.toList) : (host = "localhost" || endsWith host ".localhost") = false := by
  have name : host ≠ "localhost" := by
    rintro rfl
    exact h (by decide)
  have domain : ¬endsWith host ".localhost" := by
    intro suffix
    exact h ((List.isSuffixOf_iff_suffix.mp suffix).subset (by decide))
  simp [name, domain]

theorem display_allowed :
    cleartextInternalHostAllowed (Net.display a) =
      match a with
      | .v4 a => a.isLoopback || a.isPrivate || a.isLinkLocal
      | .v6 a => a.isLoopback || a.isUniqueLocal || a.isUnicastLinkLocal := by
  have chars := LawfulNet.display_char a
  have lower : toAsciiLowercase (Net.display a) = Net.display a :=
    toAsciiLowercase_eq_self fun c mem => (chars c mem).2
  have local' := not_localhost fun mem => absurd (chars 't' mem).1 (by decide)
  simp only [cleartextInternalHostAllowed, lower, local', LawfulNet.parse_display]
  cases a <;> rfl

-- Brackets are not part of an address, so what is in them is taken for a name without a domain.
theorem ipv6Host_allowed (a : Ipv6Addr) : cleartextInternalHostAllowed (Net.ipv6Host a) = true := by
  have ⟨text, spelled, chars⟩ := LawfulNet.ipv6Host_eq a
  have cases_mem {c : Char} (mem : c ∈ (Net.ipv6Host a).toList) : c = '[' ∨ c = ']' ∨ c ∈ text := by
    simp only [spelled, List.cons_append, List.mem_cons, List.mem_append, List.not_mem_nil, or_false] at mem
    tauto
  have lower : toAsciiLowercase (Net.ipv6Host a) = Net.ipv6Host a := by
    refine toAsciiLowercase_eq_self fun c mem => ?_
    rcases cases_mem mem with rfl | rfl | mem
    case inl | inr.inl => decide
    case inr.inr => exact (chars c mem).2.1
  have unparsed : Net.parse (Net.ipv6Host a) = none := by
    refine Option.eq_none_iff_forall_ne_some.mpr fun address h => ?_
    exact absurd (LawfulNet.parse_char _ _ h '[' (by simp [spelled])) (by decide)
  have undotted : '.' ∉ (Net.ipv6Host a).toList := by
    intro mem
    rcases cases_mem mem with h | h | mem
    case inl | inr.inl => exact absurd h (by decide)
    case inr.inr => exact (chars '.' mem).2.2 rfl
  have local' : 't' ∉ (Net.ipv6Host a).toList := by
    intro mem
    rcases cases_mem mem with h | h | mem
    case inl | inr.inl => exact absurd h (by decide)
    case inr.inr => exact absurd (chars 't' mem).1 (by decide)
  simp [cleartextInternalHostAllowed, lower, not_localhost local', unparsed, undotted]

theorem recognized_iff (spelling : IpAddr.Spelling) :
    cleartextInternalHostAllowed (a.spell spelling) = a.isInternal ↔ a.Recognized spelling := by
  cases a
  case v4 a =>
    have spelled : IpAddr.spell (.v4 a) spelling = Net.display (.v4 a) := by cases spelling <;> rfl
    have unspecified : a = .unspecified → (a.isLoopback || a.isPrivate || a.isLinkLocal) = false := by
      rintro rfl
      decide
    rw [spelled, display_allowed]
    by_cases h : a = .unspecified <;>
      simp_all [IpAddr.isInternal, IpAddr.Recognized, Ipv4Addr.isInternal]
  case v6 a =>
    cases spelling
    case host =>
      rw [IpAddr.spell, ipv6Host_allowed]
      exact eq_comm
    case bare =>
      rw [IpAddr.spell, display_allowed]
      cases mapped : a.toIpv4Mapped
      case some m =>
        have ne : a ≠ .unspecified := by
          rintro rfl
          contradiction
        simp [IpAddr.isInternal, IpAddr.Recognized, Ipv6Addr.isInternal, Ipv6Addr.mapped_public mapped, mapped, ne]
      case none =>
        have unspecified : a = .unspecified →
            (a.isLoopback || a.isUniqueLocal || a.isUnicastLinkLocal) = false := by
          rintro rfl
          decide
        by_cases h : a = .unspecified <;>
          simp_all [IpAddr.isInternal, IpAddr.Recognized, Ipv6Addr.isInternal]

-- A client is pinned only to addresses that the policy lets through.
omit [LawfulNet] in
theorem not_allowed_of_pinned {lookup : String → Nat → Option (List IpAddr)} {builds : Bool} {url : Url}
    {pinned : String × List IpAddr} (h : publicTargetClient lookup builds url = .ok pinned) (mem : a ∈ pinned.2) :
    cleartextInternalHostAllowed (Net.display a) = false := by
  simp only [publicTargetClient] at h
  repeat' split at h
  all_goals cases h
  case h_2.isFalse.isFalse.isTrue.refl allowed _ =>
    simp only [List.any_eq_true, not_exists, not_and, Bool.not_eq_true] at allowed
    exact allowed a mem

-- A vault is reached in clear text only at a host that the policy lets through.
omit [LawfulNet] in
theorem allowed_of_validated {raw host : String} {url : Url} (h : validateVaultAddress raw = .ok url)
    (http : url.scheme = "http") (named : url.hostStr = some host) : cleartextInternalHostAllowed host := by
  simp only [validateVaultAddress] at h
  split at h
  case h_1 => contradiction
  case h_2 url' _ =>
    split at h
    case h_1 => contradiction
    case h_2 host' named' =>
      split at h
      case isTrue => contradiction
      case isFalse refused =>
        cases h
        cases (named'.symm.trans named : some host' = some host)
        simp_all

theorem address_policy_iff :
    (∀ (a : IpAddr) spelling,
      cleartextInternalHostAllowed (a.spell spelling) = a.isInternal ↔ a.Recognized spelling) ∧
    (∀ lookup builds url host addresses, publicTargetClient lookup builds url = .ok (host, addresses) →
      ((∀ a ∈ addresses, ¬a.isInternal) ↔ ∀ a ∈ addresses, a.Recognized .bare)) ∧
    (∀ raw url a, validateVaultAddress raw = .ok url → url.scheme = "http" → url.host = some (.ip a) →
      (a.isInternal ↔ a.Recognized .host)) := by
  refine ⟨fun a => recognized_iff, fun lookup builds url host addresses h => ?_, fun raw url a h http named => ?_⟩
  case refine_1 =>
    refine forall₂_congr fun a mem => ?_
    have refused := not_allowed_of_pinned h mem
    rw [← recognized_iff .bare, IpAddr.spell, refused, Bool.not_eq_true, eq_comm]
  case refine_2 =>
    have spelled : url.hostStr = some (a.spell .host) := by
      rw [Url.hostStr, named]
      cases a <;> rfl
    rw [← recognized_iff .host, allowed_of_validated h http spelled, eq_comm]

end Policy

section Plain

-- The texts of addresses without the short forms of IPv6: four decimal numbers, or eight hexadecimal numbers
-- of four digits each.

def hexDigits (n : UInt16) : List Char :=
  [n.toNat / 4096, n.toNat / 256 % 16, n.toNat / 16 % 16, n.toNat % 16].map Nat.digitChar

def hexValue (c : Char) : Nat :=
  if c.isDigit then c.toNat - '0'.toNat else c.toNat - 'a'.toNat + 10

def parseHex (digits : List Char) : UInt16 :=
  .ofNat (digits.foldl (fun n c => n * 16 + hexValue c) 0)

def groups : IpAddr → Char × List (List Char)
  | .v4 a => ('.', a.octets.toList.map fun octet => Nat.toDigits 10 octet.toNat)
  | .v6 a => (':', a.segments.toList.map hexDigits)

def displayPlain (a : IpAddr) : String :=
  String.ofList ([(groups a).1].intercalate (groups a).2)

def parsePlain (s : String) : Option IpAddr :=
  if !s.toList.all isAddressChar then none else
    match s.toList.splitOn '.' with
    | [a, b, c, d] => some (.v4 { octets := #v[a, b, c, d].map fun digits => .ofNat (Nat.ofDigitChars 10 digits 0) })
    | _ =>
      match s.toList.splitOn ':' with
      | [a, b, c, d, e, f, g, h] => some (.v6 { segments := #v[a, b, c, d, e, f, g, h].map parseHex })
      | _ => none

theorem digitChar_spec : ∀ d < 16,
    let c := Nat.digitChar d
    hexValue c = d ∧ isAddressChar c ∧ c.toLower = c ∧ c ≠ '.' ∧ c ≠ ':' := by
  decide

theorem isDigit_spec {c : Char} (h : c.isDigit) : isAddressChar c ∧ c.toLower = c ∧ c ≠ '.' ∧ c ≠ ':' := by
  refine ⟨by simp [isAddressChar, h], ?_, ?_, ?_⟩
  case refine_1 =>
    refine Char.toLower_eq_of_not_isUpper ?_
    simp only [Char.isDigit, Char.isUpper, Bool.and_eq_true, decide_eq_true_eq, not_and] at h ⊢
    grind
  case refine_2 =>
    rintro rfl
    exact absurd h (by decide)
  case refine_3 =>
    rintro rfl
    exact absurd h (by decide)

theorem mem_hexDigits {n : UInt16} {c : Char} (h : c ∈ hexDigits n) : ∃ d < 16, c = Nat.digitChar d := by
  have bound := n.toNat_lt
  simp only [hexDigits, List.mem_map, List.mem_cons, List.not_mem_nil, or_false] at h
  have ⟨d, h, same⟩ := h
  exact ⟨d, by omega, same.symm⟩

theorem parseHex_hexDigits (n : UInt16) : parseHex (hexDigits n) = n := by
  have bound := n.toNat_lt
  have value (d : Nat) (h : d < 16) : hexValue (Nat.digitChar d) = d := (digitChar_spec d h).1
  have h₀ := value (n.toNat / 4096) (by omega)
  have h₁ := value (n.toNat / 256 % 16) (by omega)
  have h₂ := value (n.toNat / 16 % 16) (by omega)
  have h₃ := value (n.toNat % 16) (by omega)
  have sum : (((0 * 16 + n.toNat / 4096) * 16 + n.toNat / 256 % 16) * 16 + n.toNat / 16 % 16) * 16 +
      n.toNat % 16 = n.toNat := by omega
  simp only [parseHex, hexDigits, List.map_cons, List.map_nil, List.foldl_cons, List.foldl_nil, h₀, h₁, h₂, h₃,
    sum, UInt16.ofNat_toNat]

theorem mem_groups {a : IpAddr} {text : List Char} {c : Char} (mem : text ∈ (groups a).2) (h : c ∈ text) :
    isAddressChar c ∧ c.toLower = c ∧ c ≠ '.' ∧ c ≠ ':' := by
  cases a
  case v4 a =>
    have ⟨octet, _, same⟩ := List.mem_map.mp mem
    exact isDigit_spec (Nat.isDigit_of_mem_toDigits (by decide) (by decide) (same ▸ h))
  case v6 a =>
    have ⟨segment, _, same⟩ := List.mem_map.mp mem
    have ⟨d, bound, same⟩ := mem_hexDigits (same ▸ h)
    exact same ▸ (digitChar_spec d bound).2

theorem mem_intercalate {α : Type} {sep c : α} {texts : List (List α)} (h : c ∈ [sep].intercalate texts) :
    c = sep ∨ ∃ text ∈ texts, c ∈ text := by
  induction texts
  case nil => simp [List.intercalate] at h
  case cons text texts ih =>
    cases texts
    case nil => exact .inr (by simpa [List.intercalate] using h)
    case cons =>
      simp only [List.intercalate, List.intersperse_cons_cons, List.flatten_cons, List.mem_append,
        List.mem_singleton] at h ih
      rcases h with h | same | h
      case inl => exact .inr ⟨text, .head _, h⟩
      case inr.inl => exact .inl same
      case inr.inr =>
        refine (ih h).imp id ?_
        rintro ⟨text', mem, h⟩
        exact ⟨text', .tail _ mem, h⟩

theorem mem_displayPlain {a : IpAddr} {c : Char} (h : c ∈ (displayPlain a).toList) :
    c = (groups a).1 ∨ isAddressChar c ∧ c.toLower = c ∧ c ≠ '.' ∧ c ≠ ':' := by
  rw [displayPlain, String.toList_ofList] at h
  rcases mem_intercalate h with same | ⟨text, mem, h⟩
  case inl => exact .inl same
  case inr => exact .inr (mem_groups mem h)

theorem displayPlain_spec {a : IpAddr} {c : Char} (h : c ∈ (displayPlain a).toList) :
    isAddressChar c ∧ c.toLower = c := by
  rcases mem_displayPlain h with rfl | ⟨address, lower, _⟩
  case inl =>
    cases a
    case v4 => exact (by decide : isAddressChar '.' ∧ Char.toLower '.' = '.')
    case v6 => exact (by decide : isAddressChar ':' ∧ Char.toLower ':' = ':')
  case inr => exact ⟨address, lower⟩

theorem splitOn_displayPlain (a : IpAddr) : (displayPlain a).toList.splitOn (groups a).1 = (groups a).2 := by
  rw [displayPlain, String.toList_ofList]
  refine List.splitOn_intercalate _ (fun text mem h => ?_) ?_
  case refine_1 => cases a <;> simpa [groups] using mem_groups mem h
  case refine_2 => cases a <;> simp [groups]

theorem parsePlain_displayPlain (a : IpAddr) : parsePlain (displayPlain a) = some a := by
  have chars : (displayPlain a).toList.all isAddressChar := List.all_eq_true.mpr fun c h => (displayPlain_spec h).1
  have split := splitOn_displayPlain a
  simp only [parsePlain, chars, Bool.not_true]
  cases a
  case v4 a =>
    obtain ⟨octets⟩ := a
    have whole : octets = #v[octets[0], octets[1], octets[2], octets[3]] :=
      Vector.ext fun i h => by interval_cases i <;> rfl
    rw [whole] at split ⊢
    simp only [groups, Vector.toList_mk, List.map_cons, List.map_nil] at split
    simp [split, Nat.ofDigitChars_toDigits]
  case v6 a =>
    obtain ⟨segments⟩ := a
    have eight : segments = #v[segments[0], segments[1], segments[2], segments[3], segments[4], segments[5],
        segments[6], segments[7]] :=
      Vector.ext fun i h => by interval_cases i <;> rfl
    have undotted : '.' ∉ (displayPlain (.v6 ⟨segments⟩)).toList := by
      intro mem
      rcases mem_displayPlain mem with h | ⟨_, _, h, _⟩
      case inl => exact absurd h (by simp [groups])
      case inr => exact h rfl
    have whole : (displayPlain (.v6 ⟨segments⟩)).toList.splitOn '.' = [(displayPlain (.v6 ⟨segments⟩)).toList] := by
      have single : ['.'].intercalate [(displayPlain (.v6 ⟨segments⟩)).toList] = (displayPlain (.v6 ⟨segments⟩)).toList := by
        simp [List.intercalate]
      rw [← single, List.splitOn_intercalate _ (by simpa using undotted) (by simp), single]
    rw [eight] at split whole ⊢
    simp only [groups, Vector.toList_mk, List.map_cons, List.map_nil] at split
    simp [split, whole, parseHex_hexDigits]

def parseUrlPlain (s : String) : Option Url := do
  let rest ← "http://".toList.isPrefixOf? s.toList
  let address ← match rest with
    | '[' :: rest => parsePlain (String.ofList rest.dropLast)
    | _ => parsePlain (String.ofList rest)
  some {
    scheme := "http", username := "", password := none, host := some (.ip address), port := none, path := "/"
    query := none, fragment := none
  }

@[reducible]
def Net.plain : Net where
  display    := displayPlain
  parse      := parsePlain
  ipv6Host a := "[" ++ displayPlain (.v6 a) ++ "]"
  parseUrl   := parseUrlPlain

theorem Net.plain_lawful : @LawfulNet Net.plain := by
  let := Net.plain
  refine ⟨fun a c mem => displayPlain_spec mem, parsePlain_displayPlain, fun s a h => ?parse, fun a => ?host⟩
  case parse =>
    by_contra unfit
    have unfit : s.toList.all isAddressChar = false := by simpa using unfit
    have h : parsePlain s = some a := h
    simp [parsePlain, unfit] at h
  case host =>
    have spelled : ("[" ++ displayPlain (.v6 a) ++ "]").toList = '[' :: (displayPlain (.v6 a)).toList ++ [']'] := by
      simp
    refine ⟨_, spelled, fun c mem => ?_⟩
    rcases mem_displayPlain mem with same | ⟨address, lower, undotted, _⟩
    case inl => exact same ▸ (by decide : isAddressChar ':' ∧ Char.toLower ':' = ':' ∧ ':' ≠ '.')
    case inr => exact ⟨address, lower, undotted⟩

def ipv4 (a b c d : UInt8) : IpAddr :=
  .v4 { octets := #v[a, b, c, d] }

def ipv6 (first sixth high low : UInt16) : Ipv6Addr where
  segments := #v[first, 0, 0, 0, 0, sixth, high, low]

def site (scheme : String) (host : Host) : Url where
  scheme   := scheme
  username := ""
  password := none
  host     := some host
  port     := none
  path     := "/"
  query    := none
  fragment := none

-- Where a delivery goes if the name resolves to the address.
def pinned [Net] (a : IpAddr) : Option (List IpAddr) :=
  (publicTargetClient (fun _ _ => some [a]) true (site "https" (.domain "example.com"))).toOption.map (·.2)

-- Where a vault is reached in clear text.
def vault [Net] (raw : String) : Option (String × Option Host) :=
  (validateVaultAddress raw).toOption.map fun url => (url.scheme, url.host)

-- A vault is reached in clear text at a public IPv6 address, and deliveries are pinned to the unspecified
-- addresses and to a mapped loopback address.
theorem address_misjudged :
    letI := Net.plain
    let remote : IpAddr := .v6 (ipv6 0x2606 0 0 1)
    remote.isInternal = false ∧
    vault "http://[2606:0000:0000:0000:0000:0000:0000:0001]" = some ("http", some (.ip remote)) ∧
    ∀ a ∈ [ipv4 0 0 0 0, .v6 .unspecified, .v6 (ipv6 0 0xffff 0x7f00 1)],
      a.isInternal ∧ pinned a = some [a] := by
  decide +kernel

theorem addresses_judged :
    letI := Net.plain
    let sent := publicTargetClient (fun _ _ => some [ipv4 93 184 216 34]) true (site "https" (.domain "example.com"))
    cleartextInternalHostAllowed (IpAddr.spell (ipv4 10 0 0 1) .host) = true ∧
    sent = .ok ("example.com", [ipv4 93 184 216 34]) ∧ ∀ a ∈ [ipv4 93 184 216 34], ¬a.isInternal := by
  let := Net.plain
  have := Net.plain_lawful
  have ⟨policy, delivery, _⟩ := address_policy_iff
  have specified {a : Ipv4Addr} (h : a ≠ .unspecified) (spelling : IpAddr.Spelling) :
      IpAddr.Recognized spelling (.v4 a) := by
    cases spelling <;> exact h
  refine ⟨(policy (ipv4 10 0 0 1) .host).mpr (specified (by decide) _), ?sent,
    (delivery _ _ _ _ _ ?sent).mpr ?recognized⟩
  case sent => decide +kernel
  case recognized =>
    rintro _ (_ | ⟨_, ⟨⟩⟩)
    exact specified (by decide) _

end Plain
