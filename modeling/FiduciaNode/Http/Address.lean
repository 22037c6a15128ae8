import Mathlib

structure Ipv4Addr where
  octets : Vector UInt8 4
  deriving DecidableEq

structure Ipv6Addr where
  segments : Vector UInt16 8
  deriving DecidableEq

inductive IpAddr
  | v4 (address : Ipv4Addr)
  | v6 (address : Ipv6Addr)
  deriving DecidableEq

namespace Ipv4Addr

def unspecified : Ipv4Addr where
  octets := #v[0, 0, 0, 0]

def isLoopback (a : Ipv4Addr) : Bool :=
  a.octets[0] = 127

def isPrivate (a : Ipv4Addr) : Bool :=
  a.octets[0] = 10 || (a.octets[0] = 172 && a.octets[1] ≥ (16 : UInt8) && a.octets[1] ≤ 31) ||
  (a.octets[0] = 192 && a.octets[1] = 168)

def isLinkLocal (a : Ipv4Addr) : Bool :=
  a.octets[0] = 169 && a.octets[1] = 254

end Ipv4Addr

namespace Ipv6Addr

def unspecified : Ipv6Addr where
  segments := #v[0, 0, 0, 0, 0, 0, 0, 0]

def localhost : Ipv6Addr where
  segments := #v[0, 0, 0, 0, 0, 0, 0, 1]

def isLoopback (a : Ipv6Addr) : Bool :=
  a = localhost

def isUniqueLocal (a : Ipv6Addr) : Bool :=
  a.segments[0] &&& 0xfe00 = 0xfc00

def isUnicastLinkLocal (a : Ipv6Addr) : Bool :=
  a.segments[0] &&& 0xffc0 = 0xfe80

def toIpv4Mapped (a : Ipv6Addr) : Option Ipv4Addr :=
  if a.segments[0] = 0 ∧ a.segments[1] = 0 ∧ a.segments[2] = 0 ∧ a.segments[3] = 0 ∧ a.segments[4] = 0 ∧
      a.segments[5] = 0xffff then
    let (high, low) := (a.segments[6], a.segments[7])
    some { octets := #v[(high >>> 8).toUInt8, high.toUInt8, (low >>> 8).toUInt8, low.toUInt8] }
  else none

end Ipv6Addr

inductive Host
  | domain (name : String)
  | ip (address : IpAddr)
  deriving DecidableEq

structure Url where
  scheme   : String
  username : String
  password : Option String
  host     : Option Host
  port     : Option Nat
  path     : String
  query    : Option String
  fragment : Option String

-- The code from outside of the repository that reads and writes addresses: the text of an address and
-- its parser in the standard library, the text of an IPv6 address in a URL, and the parser of URLs.
class Net where
  display  : IpAddr → String
  parse    : String → Option IpAddr
  ipv6Host : Ipv6Addr → String
  parseUrl : String → Option Url

namespace Url

variable [Net]

def hostStr (url : Url) : Option String :=
  url.host.map fun
    | .domain name => name
    | .ip (.v4 a) => Net.display (.v4 a)
    | .ip (.v6 a) => Net.ipv6Host a

def portOrKnownDefault (url : Url) : Option Nat :=
  url.port <|> match url.scheme with
    | "http" | "ws" => some 80
    | "https" | "wss" => some 443
    | "ftp" => some 21
    | _ => none

end Url

def toAsciiLowercase (s : String) : String :=
  String.ofList (s.toList.map Char.toLower)

def endsWith (s suffix : String) : Bool :=
  suffix.toList.isSuffixOf s.toList

section Policy

variable [Net]

-- Whether the host is inside of the trust boundary of the cluster.
def cleartextInternalHostAllowed (host : String) : Bool :=
  let host := toAsciiLowercase host
  if host = "localhost" || endsWith host ".localhost" then true else
    match Net.parse host with
    | some (.v4 a) => a.isLoopback || a.isPrivate || a.isLinkLocal
    | some (.v6 a) => a.isLoopback || a.isUniqueLocal || a.isUnicastLinkLocal
    | none => !host.toList.contains '.' ||
      [".svc", ".svc.cluster.local", ".cluster.local", ".internal", ".local"].any (endsWith host)

def validateVaultAddress (raw : String) : Except String Url :=
  match Net.parseUrl raw with
  | none => .error "FIDUCIA_KV_VAULT_ADDR is not a valid URL"
  | some url =>
    match url.hostStr with
    | none => .error "FIDUCIA_KV_VAULT_ADDR must include a host"
    | some host =>
      if url.username ≠ "" || url.password.isSome || url.query.isSome || url.fragment.isSome ||
          !(url.path = "" || url.path = "/") || !(url.scheme = "http" || url.scheme = "https") ||
          (url.scheme = "http" && !cleartextInternalHostAllowed host) then
        .error ("Vault address must be HTTPS (or trusted internal HTTP) without credentials, path, " ++
          "query, or fragment")
      else .ok { url with path := "" }

-- The host and the addresses to which the client is pinned. `lookup` is what the name resolves to, and
-- `builds` whether the client can be built.
def publicTargetClient (lookup : String → Nat → Option (List IpAddr)) (builds : Bool) (url : Url) :
    Except String (String × List IpAddr) :=
  match url.hostStr with
  | none => .error "target_host_missing"
  | some host =>
    if cleartextInternalHostAllowed host then .error "target_host_not_allowed" else
      match url.portOrKnownDefault with
      | none => .error "target_port_missing"
      | some port =>
        match lookup host port with
        | none => .error "target_dns_failed"
        | some addresses =>
          if addresses = [] then .error "target_dns_empty"
          else if addresses.any fun a => cleartextInternalHostAllowed (Net.display a) then
            .error "target_resolved_host_not_allowed"
          else if builds then .ok (host, addresses)
          else .error "target_client_build_failed"

end Policy
