import FiduciaNode.Http.KvCipher
import FiduciaNode.Primitives.Result

-- What the libraries document: what is encrypted is decrypted to the same, and the tag makes it longer; base64
-- is decoded to what was encoded, no longer than its text, and the alphabet for URLs has no colon.
class LawfulCrypto [Crypto] : Prop where
  decrypt_encrypt  : ∀ {key nonce aad msg c}, Crypto.encrypt key nonce aad msg = some c →
    Crypto.decrypt key nonce aad c = some msg
  decrypt_length   : ∀ {key nonce aad msg c}, Crypto.decrypt key nonce aad c = some msg → msg.length + 16 ≤ c.length
  decode_encode    : ∀ bytes, Crypto.decode (Crypto.encode bytes) = some bytes
  decodeUrl_encode : ∀ bytes, Crypto.decodeUrl (Crypto.encodeUrl bytes) = some bytes
  decode_length    : ∀ {text bytes}, Crypto.decode text = some bytes → bytes.length ≤ (bytesOf text).length
  encodeUrl_colon  : ∀ bytes, ':' ∉ (Crypto.encodeUrl bytes).toList

section Text

variable {s t start rest : String}

theorem bytesOf_inj : bytesOf s = bytesOf t ↔ s = t :=
  String.toUTF8_toList_inj

theorem bytesOf_append (s t : String) : bytesOf (s ++ t) = bytesOf s ++ bytesOf t :=
  String.toUTF8_toList_append s t

theorem length_bytesOf (s : String) : (bytesOf s).length = s.utf8ByteSize := by
  rw [bytesOf, ByteArray.toList_eq]
  rfl

theorem fromBytes?_bytesOf (s : String) : String.fromBytes? (bytesOf s) = some s :=
  String.fromBytes?_toUTF8 s

theorem fromBytes?_eq_some_iff {bytes : Bytes} : String.fromBytes? bytes = some s ↔ bytes = bytesOf s :=
  String.fromBytes?_eq_some_iff

theorem stripPrefix_eq_some_iff : stripPrefix start s = some rest ↔ s = start ++ rest := by
  rw [stripPrefix, Option.map_eq_some_iff, ← String.toList_inj, String.toList_append]
  constructor
  case mp =>
    rintro ⟨text, h, rfl⟩
    simpa using (List.isPrefixOf?_eq_some_iff_append_eq.mp h).symm
  case mpr =>
    intro h
    exact ⟨rest.toList, List.isPrefixOf?_eq_some_iff_append_eq.mpr h.symm, String.ofList_toList⟩

theorem stripPrefix_append (start rest : String) : stripPrefix start (start ++ rest) = some rest :=
  stripPrefix_eq_some_iff.mpr rfl

theorem isPrefixOf_toList_iff : start.toList.isPrefixOf s.toList ↔ ∃ rest, s = start ++ rest := by
  rw [List.isPrefixOf_iff_prefix]
  constructor
  case mp =>
    intro ⟨rest, h⟩
    refine ⟨String.ofList rest, String.toList_inj.mp ?_⟩
    rw [String.toList_append, String.toList_ofList, h]
  case mpr =>
    rintro ⟨rest, rfl⟩
    exact ⟨rest.toList, (String.toList_append ..).symm⟩

theorem isFiduciaEnvelope_iff : isFiduciaEnvelope s ↔ ∃ rest, s = "fcenc:" ++ rest :=
  isPrefixOf_toList_iff

-- Each of the envelopes is one of the texts that no value is taken for.
theorem stripPrefix_isFiduciaEnvelope {kind : String} (envelope : start = "fcenc:" ++ kind)
    (stripped : stripPrefix start s = some rest) : isFiduciaEnvelope s := by
  rw [stripPrefix_eq_some_iff, envelope, String.append_assoc] at stripped
  exact isFiduciaEnvelope_iff.mpr ⟨_, stripped⟩

theorem stripPrefix_plaintext {kind : String} (envelope : start = "fcenc:" ++ kind)
    (plain : isFiduciaEnvelope s = false) : stripPrefix start s = none :=
  Option.eq_none_iff_forall_ne_some.mpr fun _ stripped =>
    absurd (stripPrefix_isFiduciaEnvelope envelope stripped) (Bool.eq_false_iff.mp plain)

theorem kvEnvelopeV1Prefix_eq : kvEnvelopeV1Prefix = "fcenc:" ++ "v1:" := by
  decide

theorem kvEnvelopeV2Prefix_eq : kvEnvelopeV2Prefix = "fcenc:" ++ "v2:" := by
  decide

theorem kvVaultEnvelopePrefix_eq : kvVaultEnvelopePrefix = "fcenc:" ++ "vault:v1:" := by
  decide

theorem value_ne_of_length {value : String} (short : (bytesOf value).length < (bytesOf rest).length)
    (stripped : stripPrefix start s = some rest) : value ≠ s := by
  rintro rfl
  rw [stripPrefix_eq_some_iff.mp stripped, bytesOf_append, List.length_append] at short
  omega

end Text

section Decode

theorem decodedPlaintext_eq_ok_iff {plaintext : Bytes} {protection : KvProtection} {u : UnsealedValue} :
    decodedPlaintext plaintext protection = .ok u ↔ plaintext = bytesOf u.value ∧ u.protection = protection := by
  rw [decodedPlaintext, ← fromBytes?_eq_some_iff]
  cases String.fromBytes? plaintext
  case none => simp
  case some value =>
    cases u
    simp [eq_comm]

variable [Crypto]

theorem decodeCipherBlob_eq_ok_iff {encoded : String} {blob : Bytes} :
    decodeCipherBlob encoded = .ok blob ↔ Crypto.decode encoded = some blob ∧ 12 + 16 ≤ blob.length := by
  rw [decodeCipherBlob]
  cases Crypto.decode encoded
  case none => simp
  case some blob' =>
    simp only [Except.ite_error_eq_ok_iff, Except.ok.injEq, Option.some.injEq, not_lt]
    constructor
    case mp => exact fun ⟨le, same⟩ => ⟨same, same ▸ le⟩
    case mpr => exact fun ⟨same, le⟩ => ⟨same ▸ le, same⟩

-- What is decrypted is shorter than the text of its envelope.
theorem decrypted_length [LawfulCrypto] {encoded : String} {blob : Bytes} {key : AesKey} {aad plaintext : Bytes}
    (decoded : decodeCipherBlob encoded = .ok blob)
    (decrypted : Crypto.decrypt key (blob.take 12) aad (blob.drop 12) = some plaintext) :
    plaintext.length < (bytesOf encoded).length := by
  have ⟨decoded, _⟩ := decodeCipherBlob_eq_ok_iff.mp decoded
  have := LawfulCrypto.decode_length decoded
  have := LawfulCrypto.decrypt_length decrypted
  rw [List.length_drop] at this
  omega

end Decode

namespace LocalKeyring

variable [Crypto] {r r' : LocalKeyring} {o : IterOrder} {nonce : AesNonce} {storageKey storageKey' value stored rest : String}
  {u : UnsealedValue}

-- The envelope of a sealed value.
theorem seal_ok (sealed : r.seal nonce storageKey value = .ok stored) :
    ∃ key ciphertext, r.keys[r.activeKeyId]? = some key ∧
      Crypto.encrypt key nonce.toList (bytesOf (localAad r.activeKeyId storageKey)) (bytesOf value) = some ciphertext ∧
      stored = kvEnvelopeV2Prefix ++ Crypto.encodeUrl (bytesOf r.activeKeyId) ++ ":" ++
        Crypto.encode (nonce.toList ++ ciphertext) := by
  simp only [LocalKeyring.seal] at sealed
  split at sealed
  case h_1 => cases sealed
  case h_2 key stored' =>
    split at sealed
    case h_1 => cases sealed
    case h_2 ciphertext encrypted =>
      cases sealed
      exact ⟨key, ciphertext, stored', encrypted, rfl⟩

theorem unsealV2_length [LawfulCrypto] (h : r.unsealV2 storageKey rest = .ok u) :
    (bytesOf u.value).length < (bytesOf rest).length := by
  simp only [unsealV2] at h
  split at h
  case h_1 => cases h
  case h_2 encodedKeyId encodedBlob parts =>
    split at h
    case h_1 => cases h
    case h_2 =>
      split at h
      case h_1 => cases h
      case h_2 =>
        split at h
        case h_1 => cases h
        case h_2 =>
          have ⟨blob, decoded, h⟩ := Except.bind_eq_ok_iff.mp h
          split at h
          case h_1 => cases h
          case h_2 decrypted =>
            have ⟨plaintext, _⟩ := decodedPlaintext_eq_ok_iff.mp h
            have short := decrypted_length decoded decrypted
            have whole : rest = String.ofList encodedKeyId ++ ":" ++ String.ofList encodedBlob := by
              rw [← String.toList_inj, Cron.splitOnce_eq_some parts]
              simp
            rw [whole, bytesOf_append, List.length_append, ← plaintext]
            omega

theorem unsealV1_length [LawfulCrypto] (h : r.unsealV1 o rest = .ok u) :
    (bytesOf u.value).length < (bytesOf rest).length := by
  have ⟨blob, decoded, h⟩ := Except.bind_eq_ok_iff.mp h
  dsimp only at h
  split at h
  case h_1 => cases h
  case h_2 opened =>
    have ⟨_, _, decrypted⟩ := List.exists_of_findSome?_eq_some opened
    have ⟨_, decrypted, same⟩ := Option.map_eq_some_iff.mp decrypted
    cases same
    have ⟨plaintext, _⟩ := decodedPlaintext_eq_ok_iff.mp h
    exact plaintext ▸ decrypted_length decoded decrypted

-- A text that looks like an envelope is never read as itself.
theorem unseal_envelope [LawfulCrypto] (envelope : isFiduciaEnvelope value)
    (h : r.unseal o storageKey value = .ok u) : u.value ≠ value := by
  simp only [LocalKeyring.unseal, envelope, ↓reduceIte] at h
  split at h
  case h_1 rest stripped => exact value_ne_of_length (unsealV2_length h) stripped
  case h_2 =>
    split at h
    case h_1 encodedBlob stripped => exact value_ne_of_length (unsealV1_length h) stripped
    case h_2 => cases h

-- A text that does not is read as itself.
theorem unseal_plaintext (plain : isFiduciaEnvelope value = false) :
    r.unseal o storageKey value = .ok (.plaintext value) := by
  rw [LocalKeyring.unseal, stripPrefix_plaintext kvEnvelopeV2Prefix_eq plain,
    stripPrefix_plaintext kvEnvelopeV1Prefix_eq plain]
  simp only [plain, Bool.false_eq_true, ↓reduceIte]

-- What another keyring makes of an envelope: it looks for the key under the id of the envelope.
theorem unseal_sealed [LawfulCrypto] {keyId : String} {ciphertext : Bytes} (long : 16 ≤ ciphertext.length) :
    r.unseal o storageKey (kvEnvelopeV2Prefix ++ Crypto.encodeUrl (bytesOf keyId) ++ ":" ++
        Crypto.encode (nonce.toList ++ ciphertext)) = .ok u ↔
      ∃ key plaintext, r.keys[keyId]? = some key ∧
        Crypto.decrypt key nonce.toList (bytesOf (localAad keyId storageKey)) ciphertext = some plaintext ∧
        plaintext = bytesOf u.value ∧ u.protection = {
          atRest := "encrypted", provider := some "local_keyring", keyId := some keyId, keyVersion := none
        } := by
  have parts (encodedKeyId encodedBlob : String) (colon : ':' ∉ encodedKeyId.toList) :
      Cron.splitOnce ':' (encodedKeyId ++ (":" ++ encodedBlob)).toList =
        some (encodedKeyId.toList, encodedBlob.toList) := by
    rw [String.toList_append, String.toList_append]
    exact Cron.splitOnce_append colon
  have blob : decodeCipherBlob (Crypto.encode (nonce.toList ++ ciphertext)) = .ok (nonce.toList ++ ciphertext) := by
    refine decodeCipherBlob_eq_ok_iff.mpr ⟨LawfulCrypto.decode_encode _, ?_⟩
    simp only [List.length_append, Vector.length_toList]
    omega
  have nonce12 : nonce.toList.length = 12 := Vector.length_toList
  rw [LocalKeyring.unseal, String.append_assoc, String.append_assoc, stripPrefix_append]
  simp only [unsealV2, parts _ _ (LawfulCrypto.encodeUrl_colon _), String.ofList_toList, LawfulCrypto.decodeUrl_encode,
    fromBytes?_bytesOf, blob]
  cases r.keys[keyId]?
  case none => simp
  case some key =>
    simp only [Option.some.injEq, bind, Except.bind, List.take_left' nonce12, List.drop_left' nonce12]
    cases decrypted : Crypto.decrypt key nonce.toList (bytesOf (localAad keyId storageKey)) ciphertext
    case none => simp [decrypted]
    case some plaintext => simp [decrypted, decodedPlaintext_eq_ok_iff]

theorem seal_length [LawfulCrypto] {key : AesKey} {nonce aad msg ciphertext : Bytes}
    (encrypted : Crypto.encrypt key nonce aad msg = some ciphertext) : 16 ≤ ciphertext.length := by
  have := LawfulCrypto.decrypt_length (LawfulCrypto.decrypt_encrypt encrypted)
  omega

theorem unseal_seal [LawfulCrypto] (sealed : r.seal nonce storageKey value = .ok stored) :
    ∃ u, r.unseal o storageKey stored = .ok u ∧ u.value = value := by
  have ⟨key, ciphertext, held, encrypted, envelope⟩ := seal_ok sealed
  have opened := (unseal_sealed (u := ⟨value, _⟩) (o := o) (seal_length encrypted)).mpr
    ⟨key, bytesOf value, held, LawfulCrypto.decrypt_encrypt encrypted, rfl, rfl⟩
  exact ⟨_, envelope ▸ opened, rfl⟩

end LocalKeyring

namespace VaultResponse

def size (r : VaultResponse) : Nat :=
  r.chunks.reduceOption.flatten.length

def Fits (r : VaultResponse) : Prop :=
  r.size ≤ vaultResponseMaxBytes ∧ ∀ length ∈ r.contentLength, length ≤ vaultResponseMaxBytes

-- The response is a success that arrives whole, with the text as its answer.
structure Carries [Crypto] (r : VaultResponse) (answer text : String) : Prop where
  success : 200 ≤ r.status ∧ r.status < 300
  arrived : none ∉ r.chunks
  body    : ∃ v, Crypto.fromSlice r.chunks.reduceOption.flatten = some v ∧
    (v.field "data").bind (·.field answer) = some (.string text)

end VaultResponse

namespace VaultTransit

theorem readChunks_eq_ok_iff {operation : String} {chunks : List (Option Bytes)} {body whole : Bytes}
    (short : body.length ≤ vaultResponseMaxBytes) :
    readChunks operation chunks body = .ok whole ↔ none ∉ chunks ∧ whole = body ++ chunks.reduceOption.flatten ∧
      whole.length ≤ vaultResponseMaxBytes := by
  induction chunks generalizing body
  case nil =>
    simp only [readChunks, Except.ok.injEq]
    constructor
    case mp =>
      rintro rfl
      simpa using short
    case mpr =>
      rintro ⟨_, same, _⟩
      simpa using same.symm
  case cons chunk chunks ih =>
    cases chunk
    case none => simp [readChunks]
    case some chunk =>
      rw [readChunks, Except.ite_error_eq_ok_iff]
      by_cases le : body.length + chunk.length ≤ vaultResponseMaxBytes
      case pos =>
        rw [and_iff_right (by omega), ih (by simpa using le)]
        simp
      case neg =>
        refine iff_of_false (fun h => h.1 (by omega)) fun ⟨_, same, bound⟩ => le ?_
        rw [same] at bound
        simp only [List.reduceOption_cons_of_some, List.flatten_cons, List.length_append] at bound
        omega

variable [Crypto] {v : VaultTransit} {operation answer text : String} {body : Value} {server : VaultServer}
  {response : VaultResponse}

theorem boundedVaultJson_eq_ok_iff {value : Value} :
    boundedVaultJson response operation = .ok value ↔ response.Fits ∧ none ∉ response.chunks ∧
      Crypto.fromSlice response.chunks.reduceOption.flatten = some value := by
  have read (whole : Bytes) : readChunks operation response.chunks [] = .ok whole ↔
      none ∉ response.chunks ∧ whole = response.chunks.reduceOption.flatten ∧ whole.length ≤ vaultResponseMaxBytes :=
    readChunks_eq_ok_iff (Nat.zero_le _)
  have declared : ¬response.contentLength.any (· > vaultResponseMaxBytes) ↔
      ∀ length ∈ response.contentLength, length ≤ vaultResponseMaxBytes := by
    cases response.contentLength <;> simp
  rw [boundedVaultJson, Except.ite_error_eq_ok_iff, Except.bind_eq_ok_iff, declared]
  constructor
  case mp =>
    intro ⟨declared, whole, chunks, parsed⟩
    obtain ⟨arrived, rfl, short⟩ := (read whole).mp chunks
    split at parsed
    case h_1 => cases parsed
    case h_2 parsed' =>
      cases parsed
      exact ⟨⟨short, declared⟩, arrived, parsed'⟩
  case mpr =>
    intro ⟨⟨short, declared⟩, arrived, parsed⟩
    refine ⟨declared, _, (read _).mpr ⟨arrived, rfl, short⟩, ?_⟩
    rw [parsed]

variable [UrlPath]

theorem transit_eq_ok_iff :
    v.transit server operation body answer = .ok text ↔ ∃ url response, v.endpoint operation = .ok url ∧
      server (v.request url body) = some response ∧ response.Carries answer text ∧ response.Fits := by
  rw [transit, Except.bind_eq_ok_iff]
  constructor
  case mp =>
    intro ⟨url, reached, h⟩
    split at h
    case h_1 => cases h
    case h_2 response answered =>
      have ⟨success, h⟩ := Except.ite_error_eq_ok_iff.mp h
      have ⟨reply, bounded, h⟩ := Except.bind_eq_ok_iff.mp h
      have ⟨fits, arrived, parsed⟩ := boundedVaultJson_eq_ok_iff.mp bounded
      split at h
      case h_1 field =>
        cases h
        exact ⟨url, response, reached, answered, ⟨not_not.mp success, arrived, reply, parsed, field⟩, fits⟩
      case h_2 => cases h
  case mpr =>
    intro ⟨url, response, reached, answered, ⟨success, arrived, reply, parsed, field⟩, fits⟩
    refine ⟨url, reached, ?_⟩
    rw [answered]
    refine Except.ite_error_eq_ok_iff.mpr ⟨not_not.mpr success, Except.bind_eq_ok_iff.mpr ⟨reply, ?_, ?_⟩⟩
    case refine_1 => exact boundedVaultJson_eq_ok_iff.mpr ⟨fits, arrived, parsed⟩
    case refine_2 => rw [field]

-- What Vault documents: a ciphertext that it made is decrypted to its plaintext, in a response that is no longer
-- than the one that it came in, and a ciphertext is longer than what is decrypted from it.
structure Faithful (v : VaultTransit) (sealing reading : VaultServer) : Prop where
  decrypts : ∀ {url : Url} {response : VaultResponse} {storageKey value ciphertext : String},
    v.endpoint "encrypt" = .ok url → sealing (v.request url (encryptBody storageKey value)) = some response →
    response.Carries "ciphertext" ciphertext →
    ∃ url' response', v.endpoint "decrypt" = .ok url' ∧
      reading (v.request url' (decryptBody storageKey ciphertext)) = some response' ∧
      response'.Carries "plaintext" (Crypto.encode (bytesOf value)) ∧ response'.size ≤ response.size ∧
      ∀ length ∈ response'.contentLength, length = response'.size
  shorter  : ∀ {url : Url} {response : VaultResponse} {storageKey ciphertext text : String} {plaintext : Bytes},
    v.endpoint "decrypt" = .ok url → reading (v.request url (decryptBody storageKey ciphertext)) = some response →
    response.Carries "plaintext" text → Crypto.decode text = some plaintext →
    plaintext.length < (bytesOf ciphertext).length

variable [LawfulCrypto] {sealing reading : VaultServer} {storageKey value stored : String} {u : UnsealedValue}

theorem unseal_seal (faithful : v.Faithful sealing reading) (sealed : v.seal sealing storageKey value = .ok stored) :
    ∃ u, v.unseal reading storageKey stored = .ok u ∧ u.value = value := by
  have ⟨ciphertext, encrypted, envelope⟩ := Except.bind_eq_ok_iff.mp sealed
  have ⟨url, response, reached, answered, carries, fits⟩ := transit_eq_ok_iff.mp encrypted
  have ⟨url', response', reached', answered', carries', shorter, honest⟩ := faithful.decrypts reached answered carries
  have short : response'.size ≤ vaultResponseMaxBytes := shorter.trans fits.1
  have fits' : response'.Fits := ⟨short, fun length declared => (honest length declared).le.trans short⟩
  have decrypted := transit_eq_ok_iff.mpr ⟨url', response', reached', answered', carries', fits'⟩
  have opened (protection : KvProtection) : decodedPlaintext (bytesOf value) protection = .ok ⟨value, protection⟩ :=
    decodedPlaintext_eq_ok_iff.mpr ⟨rfl, rfl⟩
  cases envelope
  rw [VaultTransit.unseal, stripPrefix_append]
  simp only [unsealEnvelope, LawfulCrypto.decode_encode, fromBytes?_bytesOf, decrypted, bind, Except.bind, opened]
  exact ⟨_, rfl, rfl⟩

-- As with a keyring, a text that looks like an envelope is never read as itself.
theorem unseal_envelope (faithful : v.Faithful sealing reading) (envelope : isFiduciaEnvelope value)
    (h : v.unseal reading storageKey value = .ok u) : u.value ≠ value := by
  simp only [VaultTransit.unseal, envelope, ↓reduceIte] at h
  split at h
  case h_1 => cases h
  case h_2 encoded stripped =>
    simp only [unsealEnvelope] at h
    split at h
    case h_1 => cases h
    case h_2 bytes decoded =>
      split at h
      case h_1 => cases h
      case h_2 ciphertext text =>
        have ⟨encodedPlaintext, decrypted, h⟩ := Except.bind_eq_ok_iff.mp h
        have ⟨url, response, reached, answered, carries, _⟩ := transit_eq_ok_iff.mp decrypted
        split at h
        case h_1 => cases h
        case h_2 plaintext decoded' =>
          have shorter := faithful.shorter reached answered carries decoded'
          have length := LawfulCrypto.decode_length decoded
          rw [fromBytes?_eq_some_iff.mp text] at length
          rw [(decodedPlaintext_eq_ok_iff.mp h).1] at shorter
          exact value_ne_of_length (shorter.trans_le length) stripped

omit [LawfulCrypto] in
theorem unseal_plaintext (plain : isFiduciaEnvelope value = false) :
    v.unseal reading storageKey value = .ok (.plaintext value) := by
  rw [VaultTransit.unseal, stripPrefix_plaintext kvVaultEnvelopePrefix_eq plain]
  simp only [plain, Bool.false_eq_true, ↓reduceIte]

end VaultTransit
