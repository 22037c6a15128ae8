import FiduciaNode.Http.Address
import FiduciaNode.OrgScope
import FiduciaNode.Primitives.Bytes

-- The protection of the values of the KV store at rest.

abbrev Bytes := List UInt8

abbrev AesKey := Vector UInt8 32

abbrev AesNonce := Vector UInt8 12

-- The code from outside of the repository: the cipher, the two alphabets of base64, the debug form of a text,
-- and the JSON parser.
class Crypto where
  encrypt   : AesKey → (nonce aad msg : Bytes) → Option Bytes
  decrypt   : AesKey → (nonce aad msg : Bytes) → Option Bytes
  encode    : Bytes → String
  decode    : String → Option Bytes
  encodeUrl : Bytes → String
  decodeUrl : String → Option Bytes
  debug     : String → String
  fromSlice : Bytes → Option Value
  fromStr   : String → Option (HashMap String String)

-- The path segments of a URL, after which others are added.
class UrlPath where
  pushSegments : Url → List String → Option Url

def stripPrefix (start text : String) : Option String :=
  (start.toList.isPrefixOf? text.toList).map String.ofList

def kvEnvelopeV1Prefix : String := "fcenc:v1:"

def kvEnvelopeV2Prefix : String := "fcenc:v2:"

def kvVaultEnvelopePrefix : String := "fcenc:vault:v1:"

def vaultResponseMaxBytes : Nat := 64 * 1024

structure KvProtection where
  atRest     : String
  provider   : Option String
  keyId      : Option String
  keyVersion : Option Nat
  deriving DecidableEq

def KvProtection.plaintext : KvProtection where
  atRest     := "plaintext"
  provider   := none
  keyId      := none
  keyVersion := none

structure UnsealedValue where
  value      : String
  protection : KvProtection
  deriving DecidableEq

def UnsealedValue.plaintext (value : String) : UnsealedValue where
  value
  protection := .plaintext

def isFiduciaEnvelope (value : String) : Bool :=
  "fcenc:".toList.isPrefixOf value.toList

def validateKeyId (keyId : String) : Except String Unit :=
  if keyId = "" || keyId.utf8ByteSize > 128 ||
      !keyId.toList.all (fun c => c.isAlphanum || c = '-' || c = '_' || c = '.') then
    .error "KV key ids must be 1-128 ASCII letters, numbers, '.', '_' or '-'"
  else .ok ()

def validateVaultSegment (name value : String) : Except String Unit :=
  if value = "" || value.utf8ByteSize > 128 ||
      !value.toList.all (fun c => c.isAlphanum || c = '-' || c = '_') then
    .error (name ++ " must be 1-128 ASCII letters, numbers, '_' or '-'")
  else .ok ()

def localAad (keyId storageKey : String) : String :=
  "fiducia-kv:v2:" ++ keyId ++ ":" ++ storageKey

def decodedPlaintext (plaintext : Bytes) (protection : KvProtection) : Except String UnsealedValue :=
  match String.fromBytes? plaintext with
  | none => .error "decrypted KV value is not UTF-8"
  | some value => .ok { value, protection }

-- The keys by their ids, among them the one that new values are sealed with.
structure LocalKeyring where
  activeKeyId : String
  keys        : HashMap String AesKey
  valid       : ∀ {keyId key}, keys[keyId]? = some key → validateKeyId keyId = .ok ()
  active      : keys.contains activeKeyId

section Decode

variable [Crypto]

def decodeCipherBlob (encoded : String) : Except String Bytes :=
  match Crypto.decode encoded with
  | none => .error "KV ciphertext is not valid base64"
  | some blob =>
    if blob.length < 12 + 16 then .error "KV ciphertext is too short for a nonce and authentication tag"
    else .ok blob

def decodeKey (keyId value : String) : Except String AesKey :=
  match Crypto.decode (String.ofList (Cron.trim value.toList)) with
  | none => .error ("KV key " ++ Crypto.debug keyId ++ " is not base64")
  | some bytes =>
    if h : bytes.length = 32 then .ok ⟨bytes.toArray, h⟩
    else .error ("KV key " ++ Crypto.debug keyId ++ " must decode to exactly 32 bytes")

end Decode

namespace LocalKeyring

variable [Crypto]

-- The keys that were read so far, all of them under valid ids.
abbrev Keys := { keys : HashMap String AesKey //
  ∀ {keyId key}, keys[keyId]? = some key → validateKeyId keyId = .ok () }

def insertKey (keys : Keys) (entry : String × String) : Except String Keys :=
  match valid : validateKeyId entry.1 with
  | .error e => .error e
  | .ok () => do
    let key ← decodeKey entry.1 entry.2
    .ok ⟨keys.1.insert entry.1 key, by
      intro keyId key' stored
      rw [HashMap.get_insert] at stored
      split at stored
      case isTrue same => exact same ▸ valid
      case isFalse => exact keys.2 stored⟩

def new (o : IterOrder) (activeKeyId : String) (encoded : HashMap String String) : Except String LocalKeyring := do
  validateKeyId activeKeyId
  if encoded.isEmpty then .error "FIDUCIA_KV_ENCRYPTION_KEYS must contain at least one key" else
    let keys ← (encoded.iter o).foldlM insertKey ⟨∅, by simp⟩
    if active : keys.1.contains activeKeyId then .ok { activeKeyId, keys := keys.1, valid := keys.2, active }
    else .error "FIDUCIA_KV_ENCRYPTION_ACTIVE_KEY_ID is not present in the keyring"

def «seal» (r : LocalKeyring) (nonce : AesNonce) (storageKey plaintext : String) : Except String String :=
  match r.keys[r.activeKeyId]? with
  | none => .error "active KV key disappeared"
  | some key =>
    let aad := localAad r.activeKeyId storageKey
    match Crypto.encrypt key nonce.toList (bytesOf aad) (bytesOf plaintext) with
    | none => .error "KV encryption failed"
    | some ciphertext =>
      let blob := nonce.toList ++ ciphertext
      .ok (kvEnvelopeV2Prefix ++ Crypto.encodeUrl (bytesOf r.activeKeyId) ++ ":" ++ Crypto.encode blob)

def unsealV2 (r : LocalKeyring) (storageKey rest : String) : Except String UnsealedValue :=
  match Cron.splitOnce ':' rest.toList with
  | none => .error "malformed fcenc:v2 KV envelope"
  | some (encodedKeyId, encodedBlob) =>
    match Crypto.decodeUrl (String.ofList encodedKeyId) with
    | none => .error "malformed fcenc:v2 key id"
    | some bytes =>
      match String.fromBytes? bytes with
      | none => .error "fcenc:v2 key id is not UTF-8"
      | some keyId =>
        match r.keys[keyId]? with
        | none => .error ("KV ciphertext references unavailable key id " ++ Crypto.debug keyId)
        | some key => do
          let blob ← decodeCipherBlob (String.ofList encodedBlob)
          match Crypto.decrypt key (blob.take 12) (bytesOf (localAad keyId storageKey)) (blob.drop 12) with
          | none => .error "KV ciphertext authentication failed"
          | some plaintext =>
            decodedPlaintext plaintext
              { atRest := "encrypted", provider := some "local_keyring", keyId := some keyId, keyVersion := none }

-- The first key of the iteration that opens the value, without associated data.
def unsealV1 (o : IterOrder) (r : LocalKeyring) (encodedBlob : String) : Except String UnsealedValue := do
  let blob ← decodeCipherBlob encodedBlob
  let opened := (r.keys.iter o).findSome? fun (keyId, key) =>
    (Crypto.decrypt key (blob.take 12) [] (blob.drop 12)).map (keyId, ·)
  match opened with
  | none => .error "legacy KV ciphertext did not authenticate with any configured key"
  | some (keyId, plaintext) =>
    decodedPlaintext plaintext
      { atRest := "encrypted", provider := some "local_keyring_legacy", keyId := some keyId, keyVersion := none }

def «unseal» (o : IterOrder) (r : LocalKeyring) (storageKey stored : String) : Except String UnsealedValue :=
  match stripPrefix kvEnvelopeV2Prefix stored with
  | some rest => r.unsealV2 storageKey rest
  | none =>
    match stripPrefix kvEnvelopeV1Prefix stored with
    | some encodedBlob => r.unsealV1 o encodedBlob
    | none =>
      if isFiduciaEnvelope stored then .error "KV ciphertext was created by a different protection provider"
      else .ok (.plaintext stored)

end LocalKeyring

structure VaultTransit where
  address        : Url
  mount          : String
  keyName        : String
  token          : String
  vaultNamespace : Option String

structure VaultRequest where
  url            : Url
  token          : String
  vaultNamespace : Option String
  body           : Value

-- The body comes in chunks, and a chunk that is missing is a failure of the connection.
structure VaultResponse where
  status        : Nat
  contentLength : Option Nat
  chunks        : List (Option Bytes)

-- What Vault answers to requests, if it can be reached.
abbrev VaultServer := VaultRequest → Option VaultResponse

namespace VaultTransit

variable [Crypto]

def readChunks (operation : String) : List (Option Bytes) → Bytes → Except String Bytes
  | [], body => .ok body
  | none :: _, _ => .error ("Vault Transit " ++ operation ++ " response failed")
  | some chunk :: chunks, body =>
    if body.length + chunk.length > vaultResponseMaxBytes then
      .error ("Vault Transit " ++ operation ++ " response exceeded " ++ vaultResponseMaxBytes.repr ++ " bytes")
    else readChunks operation chunks (body ++ chunk)

def boundedVaultJson (response : VaultResponse) (operation : String) : Except String Value :=
  if response.contentLength.any (· > vaultResponseMaxBytes) then
    .error ("Vault Transit " ++ operation ++ " response exceeded " ++ vaultResponseMaxBytes.repr ++ " bytes")
  else do
    let body ← readChunks operation response.chunks []
    match Crypto.fromSlice body with
    | none => .error ("Vault Transit " ++ operation ++ " response was not JSON")
    | some value => .ok value

variable [UrlPath]

omit [Crypto] in
def endpoint (v : VaultTransit) (operation : String) : Except String Url :=
  match UrlPath.pushSegments v.address ["v1", v.mount, operation, v.keyName] with
  | none => .error "Vault address cannot hold path segments"
  | some url => .ok url

def request (v : VaultTransit) (url : Url) (body : Value) : VaultRequest where
  url
  token          := v.token
  vaultNamespace := v.vaultNamespace
  body

-- The text in the answer to an operation.
def transit (v : VaultTransit) (server : VaultServer) (operation : String) (body : Value) (answer : String) :
    Except String String := do
  let url ← v.endpoint operation
  match server (v.request url body) with
  | none => .error ("Vault Transit " ++ operation ++ " request failed")
  | some response =>
    if ¬(200 ≤ response.status ∧ response.status < 300) then
      .error ("Vault Transit " ++ operation ++ " rejected with HTTP " ++ response.status.repr)
    else
      let reply ← boundedVaultJson response operation
      match (reply.field "data").bind (·.field answer) with
      | some (.string text) => .ok text
      | _ => .error ("Vault Transit " ++ operation ++ " omitted " ++ answer)

def encryptBody (storageKey plaintext : String) : Value :=
  json [("plaintext", Crypto.encode (bytesOf plaintext)), ("context", Crypto.encode (bytesOf storageKey))]

def decryptBody (storageKey ciphertext : String) : Value :=
  json [("ciphertext", ciphertext), ("context", Crypto.encode (bytesOf storageKey))]

def «seal» (v : VaultTransit) (server : VaultServer) (storageKey plaintext : String) : Except String String := do
  let ciphertext ← v.transit server "encrypt" (encryptBody storageKey plaintext) "ciphertext"
  .ok (kvVaultEnvelopePrefix ++ Crypto.encode (bytesOf ciphertext))

-- The version of the key stands after the first colon of the ciphertext.
def keyVersion (ciphertext : String) : Option Nat := do
  let part ← (ciphertext.toList.splitOn ':')[1]?
  let digits ← ['v'].isPrefixOf? part
  let digits := if digits.head? = some '+' then digits.tail else digits
  if digits = [] then none else
    let ds ← digits.mapM Cron.digit?
    let n := ds.foldl (fun acc d => 10 * acc + d) 0
    if n < 2 ^ 64 then some n else none

def unsealEnvelope (v : VaultTransit) (server : VaultServer) (storageKey encoded : String) : Except String UnsealedValue :=
  match Crypto.decode encoded with
  | none => .error "malformed Vault KV envelope"
  | some bytes =>
    match String.fromBytes? bytes with
    | none => .error "Vault KV envelope is not UTF-8"
    | some ciphertext => do
      let encodedPlaintext ← v.transit server "decrypt" (decryptBody storageKey ciphertext) "plaintext"
      match Crypto.decode encodedPlaintext with
      | none => .error "Vault Transit plaintext was not base64"
      | some plaintext =>
        decodedPlaintext plaintext {
          atRest := "encrypted", provider := some "vault_transit", keyId := some v.keyName
          keyVersion := keyVersion ciphertext
        }

def «unseal» (v : VaultTransit) (server : VaultServer) (storageKey stored : String) : Except String UnsealedValue :=
  match stripPrefix kvVaultEnvelopePrefix stored with
  | none =>
    if isFiduciaEnvelope stored then .error "KV ciphertext was created by a different protection provider"
    else .ok (.plaintext stored)
  | some encoded => v.unsealEnvelope server storageKey encoded

end VaultTransit

inductive KvCipher
  | keyring (r : LocalKeyring)
  | vault (v : VaultTransit)

namespace KvCipher

section Load

variable [Net] [Crypto]

def require (text : Option String) (message : String) : Except String String :=
  match text with
  | none => .error message
  | some value => .ok value

-- The backend that the variables of the environment select. `builds` is whether the client can be built.
def fromLookup (o : IterOrder) (builds : Bool) (lookup : String → Option String) : Except String (Option KvCipher) :=
  let vaultAddress := lookup "FIDUCIA_KV_VAULT_ADDR"
  let vaultToken := lookup "FIDUCIA_KV_VAULT_TOKEN"
  let vaultKey := lookup "FIDUCIA_KV_VAULT_KEY"
  let vaultMount := lookup "FIDUCIA_KV_VAULT_MOUNT"
  let vaultNamespace := lookup "FIDUCIA_KV_VAULT_NAMESPACE"
  let versionedKeys := lookup "FIDUCIA_KV_ENCRYPTION_KEYS"
  let activeKeyId := lookup "FIDUCIA_KV_ENCRYPTION_ACTIVE_KEY_ID"
  let legacyKey := lookup "FIDUCIA_KV_ENCRYPTION_KEY"
  let legacyKeyId := lookup "FIDUCIA_KV_ENCRYPTION_KEY_ID"
  let vaultPresent := [vaultAddress, vaultToken, vaultKey, vaultMount, vaultNamespace].any Option.isSome
  let versionedPresent := versionedKeys.isSome || activeKeyId.isSome
  let legacyPresent := legacyKey.isSome || legacyKeyId.isSome
  if vaultPresent && (versionedPresent || legacyPresent) then
    .error "configure exactly one KV protection backend: Vault Transit or a local keyring"
  else if vaultPresent then do
    let address ← require vaultAddress "FIDUCIA_KV_VAULT_ADDR is required for Vault Transit"
    let token ← require vaultToken "FIDUCIA_KV_VAULT_TOKEN is required for Vault Transit"
    let keyName ← require vaultKey "FIDUCIA_KV_VAULT_KEY is required for Vault Transit"
    let address ← validateVaultAddress address
    let mount := vaultMount.getD "transit"
    validateVaultSegment "FIDUCIA_KV_VAULT_MOUNT" mount
    validateVaultSegment "FIDUCIA_KV_VAULT_KEY" keyName
    if builds then .ok (some (.vault { address, mount, keyName, token, vaultNamespace }))
    else .error "could not construct Vault Transit client"
  else if versionedPresent && legacyPresent then
    .error "configure either FIDUCIA_KV_ENCRYPTION_KEYS or the legacy single key, not both"
  else if versionedPresent then do
    let raw ← require versionedKeys
      "FIDUCIA_KV_ENCRYPTION_KEYS is required with FIDUCIA_KV_ENCRYPTION_ACTIVE_KEY_ID"
    match Crypto.fromStr raw with
    | none => .error "FIDUCIA_KV_ENCRYPTION_KEYS must be a JSON object of key ids to base64 keys"
    | some encoded =>
      let activeKeyId ← require activeKeyId "FIDUCIA_KV_ENCRYPTION_ACTIVE_KEY_ID is required with the keyring"
      let r ← LocalKeyring.new o activeKeyId encoded
      .ok (some (.keyring r))
  else if !legacyPresent then .ok none
  else do
    let raw ← require legacyKey "FIDUCIA_KV_ENCRYPTION_KEY is required with FIDUCIA_KV_ENCRYPTION_KEY_ID"
    let keyId := legacyKeyId.getD "legacy"
    let r ← LocalKeyring.new o keyId ((∅ : HashMap String String).insert keyId raw)
    .ok (some (.keyring r))

end Load

variable [Crypto] [UrlPath]

-- What a call that seals or opens a value draws from outside.
def «seal» (nonce : AesNonce) (server : VaultServer) (storageKey plaintext : String) : KvCipher → Except String String
  | keyring r => r.seal nonce storageKey plaintext
  | vault v => v.seal server storageKey plaintext

def «unseal» (o : IterOrder) (server : VaultServer) (storageKey stored : String) : KvCipher → Except String UnsealedValue
  | keyring r => r.unseal o storageKey stored
  | vault v => v.unseal server storageKey stored

end KvCipher

namespace Http.Kv

variable [Crypto] [UrlPath]

def sealForWrite
    (cipher : Option KvCipher) (nonce : AesNonce) (server : VaultServer) (storageKey value : String)
    (plaintextOptOut : Bool) : Except String String :=
  match cipher with
  | some c => if plaintextOptOut then .ok value else c.seal nonce server storageKey value
  | none => .ok value

def unsealForRead (o : IterOrder) (cipher : Option KvCipher) (server : VaultServer) (storageKey value : String) :
    Except String UnsealedValue :=
  match cipher with
  | some c => c.unseal o server storageKey value
  | none =>
    if isFiduciaEnvelope value then
      .error "encrypted KV value is unreadable because no protection backend is configured"
    else .ok (.plaintext value)

-- The values under a prefix, with the keys of the caller. One value that cannot be read fails the listing.
def list [External] (o : IterOrder) (cipher : Option KvCipher) (server : VaultServer) (org : OrgScope) :
    List (String × String) → Except String (List (String × UnsealedValue))
  | [] => .ok []
  | (storageKey, stored) :: items =>
    match org.unscope storageKey with
    | none => list o cipher server org items
    | some unscoped => do
      let unsealed ← unsealForRead o cipher server storageKey stored
      let rows ← list o cipher server org items
      .ok ((unscoped, unsealed) :: rows)

end Http.Kv
