import FiduciaNode.Http.Theorems.KvCipher

-- A cipher that is ideal as well: what was encrypted opens with the same key and associated data only.
class IdealCrypto [Crypto] : Prop extends LawfulCrypto where
  authentic : ∀ {key key' nonce aad aad' msg msg' c}, Crypto.encrypt key nonce aad msg = some c →
    Crypto.decrypt key' nonce aad' c = some msg' → key' = key ∧ aad' = aad

section Plain

-- The characters that stand for bytes.
def isPlainChar (c : Char) : Bool :=
  256 ≤ c.toNat && c.toNat < 512

def encodePlain (bytes : Bytes) : String :=
  String.ofList (bytes.map fun b => Char.ofNat (256 + b.toNat))

def decodePlain (text : String) : Option Bytes :=
  if text.toList.all isPlainChar then some (text.toList.map fun c => UInt8.ofNat (c.toNat - 256)) else none

theorem toNat_plainChar (b : UInt8) : (Char.ofNat (256 + b.toNat)).toNat = 256 + b.toNat := by
  have : b.toNat < 256 := b.toNat_lt
  rw [Char.toNat_ofNat, if_pos (.inl (by omega))]

theorem isPlainChar_plainChar (b : UInt8) : isPlainChar (Char.ofNat (256 + b.toNat)) := by
  have : b.toNat < 256 := b.toNat_lt
  simp only [isPlainChar, toNat_plainChar, Bool.and_eq_true, decide_eq_true_eq]
  omega

theorem decodePlain_encodePlain (bytes : Bytes) : decodePlain (encodePlain bytes) = some bytes := by
  have plain : (encodePlain bytes).toList.all isPlainChar := by
    simp only [encodePlain, String.toList_ofList, List.all_map, List.all_eq_true]
    exact fun b _ => isPlainChar_plainChar b
  have decoded (b : UInt8) : UInt8.ofNat ((Char.ofNat (256 + b.toNat)).toNat - 256) = b := by
    rw [toNat_plainChar, Nat.add_sub_cancel_left, UInt8.ofNat_toNat]
  rw [decodePlain, if_pos plain]
  simp [encodePlain, Function.comp_def, decoded]

theorem length_le_utf8Len (chars : List Char) : chars.length ≤ String.utf8Len chars := by
  induction chars
  case nil => rfl
  case cons c chars ih =>
    rw [List.length_cons, String.utf8Len_cons]
    exact Nat.add_le_add ih c.utf8Size_pos

theorem decodePlain_length {text : String} {bytes : Bytes} (h : decodePlain text = some bytes) :
    bytes.length ≤ (bytesOf text).length := by
  have chars : text.toList.length ≤ (bytesOf text).length := by
    rw [length_bytesOf, ← String.ofList_toList (s := text), String.utf8ByteSize_ofList, String.toList_ofList]
    exact length_le_utf8Len text.toList
  rw [decodePlain, Option.ite_none_right_eq_some] at h
  simpa [← Option.some.inj h.2] using chars

theorem colon_notMem_encodePlain (bytes : Bytes) : ':' ∉ (encodePlain bytes).toList := by
  intro mem
  simp only [encodePlain, String.toList_ofList, List.mem_map] at mem
  have ⟨b, _, same⟩ := mem
  exact absurd (same ▸ isPlainChar_plainChar b) (by decide)

-- The associated data so that its end can be told.
def frame : Bytes → Bytes
  | [] => [0]
  | b :: bytes => 1 :: b :: frame bytes

theorem frame_append_inj {a b x y : Bytes} : frame a ++ x = frame b ++ y ↔ a = b ∧ x = y := by
  induction a generalizing b
  case nil => cases b <;> simp [frame]
  case cons _ _ ih => cases b <;> simp [frame, ih, and_assoc]

-- A text as the answer of Vault.
def parseReply (bytes : Bytes) : Option Value :=
  (String.fromBytes? bytes).map fun text => json [("data", json [("ciphertext", text), ("plaintext", text)])]

theorem parseReply_bytesOf (text : String) :
    parseReply (bytesOf text) = some (json [("data", json [("ciphertext", text), ("plaintext", text)])]) := by
  rw [parseReply, fromBytes?_bytesOf]
  rfl

@[reducible]
def Crypto.plain : Crypto where
  encrypt key _ aad msg := some (key.toList ++ frame aad ++ msg)
  decrypt key _ aad c := (key.toList ++ frame aad).isPrefixOf? c
  encode := encodePlain
  decode := decodePlain
  encodeUrl := encodePlain
  decodeUrl := decodePlain
  debug text := text
  fromSlice := parseReply
  fromStr _ := none

theorem Crypto.plain_ideal : @IdealCrypto Crypto.plain := by
  let := Crypto.plain
  have decrypts {key : AesKey} {nonce aad msg c : Bytes} :
      Crypto.decrypt key nonce aad c = some msg ↔ key.toList ++ frame aad ++ msg = c :=
    List.isPrefixOf?_eq_some_iff_append_eq
  have encrypts {key : AesKey} {nonce aad msg c : Bytes} :
      Crypto.encrypt key nonce aad msg = some c ↔ key.toList ++ frame aad ++ msg = c :=
    Option.some_inj
  refine {
    decrypt_encrypt := fun h => decrypts.mpr (encrypts.mp h), decrypt_length := fun h => ?length
    decode_encode := decodePlain_encodePlain, decodeUrl_encode := decodePlain_encodePlain
    decode_length := decodePlain_length, encodeUrl_colon := colon_notMem_encodePlain, authentic := fun h h' => ?authentic
  }
  case length =>
    rw [← decrypts.mp h]
    simp only [List.length_append, Vector.length_toList]
    omega
  case authentic key key' nonce aad aad' msg msg' c =>
    have same := (decrypts.mp h').trans (encrypts.mp h).symm
    rw [List.append_assoc, List.append_assoc] at same
    have ⟨keys, rest⟩ := List.append_inj same (by simp)
    exact ⟨Vector.toList_inj.mp keys, (frame_append_inj.mp rest).1⟩

-- A keyring of two keys, each of them one byte that is repeated.
def ringOf (activeKeyId spareKeyId : String) (active spare : UInt8)
    (valid : validateKeyId activeKeyId = .ok () ∧ validateKeyId spareKeyId = .ok ()) : LocalKeyring where
  activeKeyId
  keys   := (∅ : HashMap String AesKey).insert spareKeyId (.replicate 32 spare)
    |>.insert activeKeyId (.replicate 32 active)
  valid  := by
    intro keyId key stored
    simp only [HashMap.get_insert] at stored
    split at stored
    case isTrue same => exact same ▸ valid.1
    case isFalse =>
      split at stored
      case isTrue same => exact same ▸ valid.2
      case isFalse => simp at stored
  active := by simp

def VaultTransit.plain : VaultTransit where
  address        := {
    scheme := "http", username := "", password := none, host := some (.domain "localhost"), port := none, path := ""
    query := none, fragment := none
  }
  mount          := "transit"
  keyName        := "kv"
  token          := "t"
  vaultNamespace := none

@[reducible]
def UrlPath.plain : UrlPath where
  pushSegments url _ := some url

def VaultResponse.plain (text : String) : VaultResponse where
  status        := 200
  contentLength := none
  chunks        := [some (bytesOf text)]

-- A server whose ciphertexts are plaintexts with a mark.
def VaultServer.plain : VaultServer := fun request =>
  match request.body.field "plaintext", request.body.field "ciphertext" with
  | some (.string text), _ => some (.plain ("vault:v1:" ++ text))
  | none, some (.string text) => (stripPrefix "vault:v1:" text).map .plain
  | _, _ => none

theorem VaultResponse.plain_carries {text text' answer : String} (h : answer = "ciphertext" ∨ answer = "plaintext") :
    letI := Crypto.plain
    (VaultResponse.plain text).Carries answer text' ↔ text' = text := by
  let := Crypto.plain
  have parsed : Crypto.fromSlice (VaultResponse.plain text).chunks.reduceOption.flatten =
      some (json [("data", json [("ciphertext", text), ("plaintext", text)])]) := by
    have whole : (VaultResponse.plain text).chunks.reduceOption.flatten = bytesOf text := by simp [VaultResponse.plain]
    rw [whole]
    exact parseReply_bytesOf text
  have field : ((json [("data", json [("ciphertext", text), ("plaintext", text)])]).field "data").bind
      (·.field answer) = some (.string text) := by
    rcases h with rfl | rfl <;> rfl
  constructor
  case mp =>
    intro ⟨_, _, v, parsed', field'⟩
    cases parsed.symm.trans parsed'
    cases field.symm.trans field'
    rfl
  case mpr =>
    rintro rfl
    exact ⟨by simp [VaultResponse.plain], by simp [VaultResponse.plain], _, parsed, field⟩

theorem encodePlain_length (bytes : Bytes) : (bytesOf (encodePlain bytes)).length ≤ 4 * bytes.length := by
  rw [length_bytesOf, encodePlain, String.utf8ByteSize_ofList]
  induction bytes
  case nil => rfl
  case cons b bytes ih =>
    rw [List.map_cons, String.utf8Len_cons, List.length_cons]
    have := Char.utf8Size_le_four (Char.ofNat (256 + b.toNat))
    omega

-- A value that is short enough is sealed.
theorem VaultServer.plain_seals (v : VaultTransit) (storageKey : String) {value : String}
    (short : (bytesOf value).length ≤ 1024) :
    letI := Crypto.plain
    letI := UrlPath.plain
    ∃ stored, v.seal .plain storageKey value = .ok stored := by
  let := Crypto.plain
  let := UrlPath.plain
  have mark : (bytesOf "vault:v1:").length = 9 := by rw [length_bytesOf]; decide
  have length := encodePlain_length (bytesOf value)
  have fits : (VaultResponse.plain ("vault:v1:" ++ encodePlain (bytesOf value))).Fits := by
    refine ⟨?_, by simp [VaultResponse.plain]⟩
    simp only [VaultResponse.size, VaultResponse.plain, List.reduceOption_cons_of_some, List.reduceOption_nil,
      List.flatten_cons, List.flatten_nil, List.append_nil, bytesOf_append, List.length_append, vaultResponseMaxBytes]
    omega
  have encrypted : v.transit .plain "encrypt" (VaultTransit.encryptBody storageKey value) "ciphertext" =
      .ok ("vault:v1:" ++ encodePlain (bytesOf value)) :=
    VaultTransit.transit_eq_ok_iff.mpr
      ⟨v.address, _, rfl, rfl, (VaultResponse.plain_carries (.inl rfl)).mpr rfl, fits⟩
  exact ⟨_, Except.bind_eq_ok_iff.mpr ⟨_, encrypted, rfl⟩⟩

theorem VaultServer.plain_faithful (v : VaultTransit) :
    @VaultTransit.Faithful Crypto.plain UrlPath.plain v .plain .plain := by
  let := Crypto.plain
  let := UrlPath.plain
  have := Crypto.plain_ideal
  constructor
  case decrypts =>
    intro url response storageKey value ciphertext _ answered carries
    cases answered
    cases (VaultResponse.plain_carries (.inl rfl)).mp carries
    refine ⟨v.address, .plain (Crypto.encode (bytesOf value)), rfl, ?_, ?_, ?_, by simp [VaultResponse.plain]⟩
    case refine_1 => exact congrArg (Option.map _) (stripPrefix_append _ _)
    case refine_2 => exact (VaultResponse.plain_carries (.inr rfl)).mpr rfl
    case refine_3 => simp [VaultResponse.plain, VaultResponse.size, bytesOf_append]
  case shorter =>
    intro url response storageKey ciphertext text plaintext _ answered carries decoded
    have ⟨rest, stripped, same⟩ := Option.map_eq_some_iff.mp answered
    cases same
    cases (VaultResponse.plain_carries (.inr rfl)).mp carries
    have := LawfulCrypto.decode_length decoded
    rw [stripPrefix_eq_some_iff.mp stripped, bytesOf_append, List.length_append]
    have mark : 0 < (bytesOf "vault:v1:").length := by rw [length_bytesOf]; decide
    omega

end Plain

namespace LocalKeyring

variable [Crypto] {r r' : LocalKeyring} {o : IterOrder} {nonce : AesNonce} {storageKey storageKey' value stored : String}
  {u : UnsealedValue}

omit [Crypto] in
theorem localAad_inj {keyId : String} : localAad keyId storageKey = localAad keyId storageKey' ↔ storageKey = storageKey' :=
  String.append_right_inj _

-- An envelope opens at its own storage key, with any keyring that holds its key under its id.
theorem envelope_opens_iff [IdealCrypto] (sealed : r.seal nonce storageKey value = .ok stored) :
    ((∃ u, r'.unseal o storageKey' stored = .ok u) ↔
      storageKey' = storageKey ∧ r'.keys[r.activeKeyId]? = r.keys[r.activeKeyId]?) ∧
    ∀ u, r'.unseal o storageKey' stored = .ok u → u.value = value := by
  have ⟨key, ciphertext, held, encrypted, envelope⟩ := seal_ok sealed
  have decrypted := LawfulCrypto.decrypt_encrypt encrypted
  cases envelope
  simp only [unseal_sealed (seal_length encrypted), held]
  refine ⟨⟨?mp, ?mpr⟩, ?value⟩
  case mp =>
    intro ⟨u, key', plaintext, held', opened, _⟩
    have ⟨same, aad⟩ := IdealCrypto.authentic encrypted opened
    exact ⟨localAad_inj.mp (bytesOf_inj.mp aad), same ▸ held'⟩
  case mpr =>
    rintro ⟨rfl, held'⟩
    exact ⟨⟨value, _⟩, key, bytesOf value, held', decrypted, rfl, rfl⟩
  case value =>
    intro u ⟨key', plaintext, held', opened, text, _⟩
    have ⟨same, aad⟩ := IdealCrypto.authentic encrypted opened
    rw [same, aad, decrypted] at opened
    exact bytesOf_inj.mp (text ▸ (Option.some.inj opened).symm)

end LocalKeyring

-- After a rotation the envelope still opens, but not at another key.
theorem rotated_keyring_opens :
    letI := Crypto.plain
    let r := ringOf "k1" "k0" 1 0 (by decide)
    let r' := ringOf "k2" "k1" 2 1 (by decide)
    ∃ stored, r.seal (.replicate 12 0) "a" "on" = .ok stored ∧
      (∃ u, r'.unseal .sorted "a" stored = .ok u ∧ u.value = "on") ∧
      ¬∃ u, r'.unseal .sorted "b" stored = .ok u := by
  let := Crypto.plain
  have := Crypto.plain_ideal
  intro r r'
  have held : r.keys[r.activeKeyId]? = some (.replicate 32 1) := by decide +kernel
  have held' : r'.keys[r.activeKeyId]? = some (.replicate 32 1) := by decide +kernel
  have ⟨stored, sealed⟩ : ∃ stored, r.seal (.replicate 12 0) "a" "on" = .ok stored := by
    simp only [LocalKeyring.seal, held]
    exact ⟨_, rfl⟩
  have opens (storageKey : String) : (∃ u, r'.unseal .sorted storageKey stored = .ok u) ↔
      storageKey = "a" ∧ r'.keys[r.activeKeyId]? = r.keys[r.activeKeyId]? :=
    (LocalKeyring.envelope_opens_iff sealed).1
  obtain ⟨u, opened⟩ := (opens "a").mpr ⟨rfl, held'.trans held.symm⟩
  refine ⟨stored, sealed, ⟨u, opened, (LocalKeyring.envelope_opens_iff sealed).2 u opened⟩, fun opened => ?_⟩
  exact absurd ((opens "b").mp opened).1 (by decide)

namespace KvCipher

variable [Crypto] [UrlPath] [LawfulCrypto] {c : KvCipher} {o : IterOrder} {nonce : AesNonce}
  {sealing reading : VaultServer} {storageKey value stored : String} {u : UnsealedValue}

-- Vault is as it documents, if it is the backend.
def Faithful (c : KvCipher) (sealing reading : VaultServer) : Prop :=
  ∀ v, c = vault v → v.Faithful sealing reading

theorem unseal_seal (faithful : c.Faithful sealing reading) (sealed : c.seal nonce sealing storageKey value = .ok stored) :
    ∃ u, c.unseal o reading storageKey stored = .ok u ∧ u.value = value := by
  cases c
  case keyring r => exact r.unseal_seal sealed
  case vault v => exact v.unseal_seal (faithful v rfl) sealed

theorem unseal_envelope (faithful : c.Faithful sealing reading) (envelope : isFiduciaEnvelope value)
    (h : c.unseal o reading storageKey value = .ok u) : u.value ≠ value := by
  cases c
  case keyring r => exact r.unseal_envelope envelope h
  case vault v => exact v.unseal_envelope (faithful v rfl) envelope h

omit [LawfulCrypto] in
theorem unseal_plaintext (plain : isFiduciaEnvelope value = false) :
    c.unseal o reading storageKey value = .ok (.plaintext value) := by
  cases c
  case keyring r => exact r.unseal_plaintext plain
  case vault v => exact v.unseal_plaintext plain

section Load

variable [Net] {builds : Bool} {lookup : String → Option String}

-- The variables of the environment that are about the protection.
def settings : List String := [
  "FIDUCIA_KV_VAULT_ADDR", "FIDUCIA_KV_VAULT_TOKEN", "FIDUCIA_KV_VAULT_KEY", "FIDUCIA_KV_VAULT_MOUNT",
  "FIDUCIA_KV_VAULT_NAMESPACE", "FIDUCIA_KV_ENCRYPTION_KEYS", "FIDUCIA_KV_ENCRYPTION_ACTIVE_KEY_ID",
  "FIDUCIA_KV_ENCRYPTION_KEY", "FIDUCIA_KV_ENCRYPTION_KEY_ID"
]

end Load

end KvCipher

namespace Http.Kv

variable [Crypto] [UrlPath] [LawfulCrypto] {cipher : Option KvCipher} {o : IterOrder} {nonce : AesNonce}
  {sealing reading : VaultServer} {storageKey value stored : String} {plaintextOptOut : Bool}

-- A text that is stored as it is, is read as itself unless it looks like an envelope.
theorem stored_readable_iff (faithful : ∀ c ∈ cipher, c.Faithful sealing reading) :
    (∃ u, unsealForRead o cipher reading storageKey value = .ok u ∧ u.value = value) ↔
      isFiduciaEnvelope value = false := by
  cases envelope : isFiduciaEnvelope value
  case false =>
    refine iff_of_true ⟨.plaintext value, ?_, rfl⟩ rfl
    cases cipher
    case none => simp [unsealForRead, envelope]
    case some c => exact c.unseal_plaintext envelope
  case true =>
    refine iff_of_false ?_ Bool.true_eq_false.mp
    rintro ⟨u, read, same⟩
    cases cipher
    case none => simp [unsealForRead, envelope] at read
    case some c => exact c.unseal_envelope (faithful c rfl) envelope read same

-- A value that was written is read back unchanged if it was sealed, or does not look like an envelope.
theorem written_readable_iff (faithful : ∀ c ∈ cipher, c.Faithful sealing reading)
    (written : sealForWrite cipher nonce sealing storageKey value plaintextOptOut = .ok stored) :
    (∃ u, unsealForRead o cipher reading storageKey stored = .ok u ∧ u.value = value) ↔
      cipher.isSome ∧ plaintextOptOut = false ∨ isFiduciaEnvelope value = false := by
  cases cipher
  case none =>
    cases written
    rw [stored_readable_iff faithful]
    simp
  case some c =>
    cases plaintextOptOut
    case true =>
      cases written
      rw [stored_readable_iff faithful]
      simp
    case false => exact iff_of_true (c.unseal_seal (faithful c rfl) written) (.inl ⟨rfl, rfl⟩)

-- A value that is stored as it is, with no backend or on request, cannot be read if it looks like an envelope.
omit [Crypto] [UrlPath] [LawfulCrypto] in
theorem envelope_like_unreadable :
    letI := Crypto.plain
    letI := UrlPath.plain
    let cipher := some (KvCipher.keyring (ringOf "k1" "k0" 1 0 (by decide)))
    sealForWrite none (.replicate 12 0) .plain "a" "fcenc:on" false = .ok "fcenc:on" ∧
    unsealForRead .sorted none .plain "a" "fcenc:on" =
      .error "encrypted KV value is unreadable because no protection backend is configured" ∧
    sealForWrite cipher (.replicate 12 0) .plain "a" "fcenc:on" true = .ok "fcenc:on" ∧
    unsealForRead .sorted cipher .plain "a" "fcenc:on" =
      .error "KV ciphertext was created by a different protection provider" :=
  ⟨rfl, rfl, rfl, rfl⟩

omit [Crypto] [UrlPath] [LawfulCrypto] in
theorem vault_value_readable :
    letI := Crypto.plain
    letI := UrlPath.plain
    let cipher := some (KvCipher.vault .plain)
    ∃ stored, sealForWrite cipher (.replicate 12 0) .plain "a" "fcenc:on" false = .ok stored ∧
      ∃ u, unsealForRead .sorted cipher .plain "a" stored = .ok u ∧ u.value = "fcenc:on" := by
  let := Crypto.plain
  let := UrlPath.plain
  have := Crypto.plain_ideal
  intro cipher
  have short : (bytesOf "fcenc:on").length ≤ 8 := by rw [length_bytesOf]; decide
  have ⟨stored, sealed⟩ := VaultServer.plain_seals .plain "a" (short.trans (by decide))
  have written : sealForWrite cipher (.replicate 12 0) .plain "a" "fcenc:on" false = .ok stored := sealed
  have faithful : ∀ c ∈ cipher, c.Faithful .plain .plain := fun _ _ v _ => VaultServer.plain_faithful v
  exact ⟨stored, written, (written_readable_iff faithful written).mpr (.inl ⟨rfl, rfl⟩)⟩

end Http.Kv

