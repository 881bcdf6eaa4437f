import Engramia.Credentials.Store

/-!
The backends that seal a tenant's key for the database: AES-GCM under a master key of the process,
and Vault's Transit engine. Both bind what they seal to the tenant, the provider and the purpose of
the row, in one text of which the last two parts have no colon.

The cipher and the engine are parameters. Of them it is assumed that what was sealed opens under
what it was bound to, and under nothing else.
-/
namespace Engramia.Credentials

abbrev Bytes := List UInt8

section Definitions

/-- `str.encode()` -/
def encodeUtf8 (s : String) : Bytes := s.toByteArray.data.toList

def decodeUtf8 (bytes : Bytes) : Option String := String.fromUTF8? ⟨⟨bytes⟩⟩

def isAscii (bytes : Bytes) : Bool := bytes.all (· < 128)

/-- `bytes.decode("ascii")` -/
def decodeAscii (bytes : Bytes) : Option String :=
  if isAscii bytes then decodeUtf8 bytes else none

def Purpose.text : Purpose → String
  | .llm => "llm"
  | .embedding => "embedding"
  | .both => "both"

/-- `_aad_for` and `_context_for`, which are the same. -/
def aadFor (tenantId : String) (provider : Provider) (purpose : Purpose) : Bytes :=
  encodeUtf8 (tenantId ++ ":" ++ provider.text ++ ":" ++ purpose.text)

structure EncryptedBlob where
  ciphertext : Bytes
  nonce : Bytes
  authTag : Bytes
  keyVersion : ℕ
deriving DecidableEq

/-- A blob with the marker of the backend that sealed it. -/
structure Envelope where
  backend : String
  blob : EncryptedBlob
deriving DecidableEq

inductive BackendError where
  | valueError (message : String)
  | unicodeError
  | decryptionError
  | vaultBackendError
deriving DecidableEq

/-- `cryptography`'s AES-GCM under a key. Nothing comes out on an `InvalidTag`. -/
structure AesGcm where
  encrypt : (nonce data aad : Bytes) → Bytes
  decrypt : (nonce data aad : Bytes) → Option Bytes

/-- Vault's Transit engine under a derived key. It draws its own randomness, and says with which
version of the key it sealed. -/
structure Transit where
  encryptData : (draw plaintext context : Bytes) → String × ℕ
  decryptData : (ciphertext : String) → (context : Bytes) → Option Bytes

structure AESGCMCipher where
  aesgcm : AesGcm
  keyVersion : ℕ

/-- `AESGCMCipher.encrypt`, with the nonce that is drawn. -/
def AESGCMCipher.encrypt (cipher : AESGCMCipher) (nonce : Bytes) (plaintext : String)
    (aad : Bytes) : Except BackendError (Bytes × Bytes × Bytes) :=
  if plaintext = "" then .error (.valueError "plaintext must be non-empty")
  else if aad = [] then
    .error (.valueError "aad must be non-empty (use tenant_id:provider:purpose)")
  else
    let ctWithTag := cipher.aesgcm.encrypt nonce (encodeUtf8 plaintext) aad
    .ok (ctWithTag.take (ctWithTag.length - 16), nonce, ctWithTag.drop (ctWithTag.length - 16))

def AESGCMCipher.decrypt (cipher : AESGCMCipher) (ciphertext nonce authTag aad : Bytes) :
    Except BackendError String :=
  if nonce.length ≠ 12 then
    .error (.valueError ("nonce must be 12 bytes, got " ++ toString nonce.length))
  else if authTag.length ≠ 16 then
    .error (.valueError ("auth_tag must be 16 bytes, got " ++ toString authTag.length))
  else if aad = [] then .error (.valueError "aad must be non-empty")
  else
    match cipher.aesgcm.decrypt nonce (ciphertext ++ authTag) aad with
    | none => .error .decryptionError
    | some plaintext =>
        match decodeUtf8 plaintext with
        | none => .error .unicodeError
        | some plaintext => .ok plaintext

/-- `LocalAESGCMBackend.encrypt` -/
def localEncrypt (cipher : AESGCMCipher) (draw : Bytes) (tenantId : String) (provider : Provider)
    (purpose : Purpose) (plaintext : String) : Except BackendError EncryptedBlob :=
  match cipher.encrypt draw plaintext (aadFor tenantId provider purpose) with
  | .error e => .error e
  | .ok (ciphertext, nonce, authTag) =>
      .ok
        { ciphertext := ciphertext, nonce := nonce, authTag := authTag
          keyVersion := cipher.keyVersion }

def localDecrypt (cipher : AESGCMCipher) (tenantId : String) (provider : Provider)
    (purpose : Purpose) (blob : EncryptedBlob) : Except BackendError String :=
  cipher.decrypt blob.ciphertext blob.nonce blob.authTag (aadFor tenantId provider purpose)

/-- `VaultTransitBackend.encrypt`. Any failure of the call is a `VaultBackendError`. -/
def vaultEncrypt (transit : Transit) (up : Bool) (draw : Bytes) (tenantId : String)
    (provider : Provider) (purpose : Purpose) (plaintext : String) :
    Except BackendError EncryptedBlob :=
  if up then
    let (ciphertext, keyVersion) :=
      transit.encryptData draw (encodeUtf8 plaintext) (aadFor tenantId provider purpose)
    if isAscii (encodeUtf8 ciphertext) then
      .ok
        { ciphertext := encodeUtf8 ciphertext, nonce := [], authTag := []
          keyVersion := keyVersion }
    else .error .unicodeError
  else .error .vaultBackendError

/-- `VaultTransitBackend.decrypt`. A context that does not match is a failure of the call like
any other. -/
def vaultDecrypt (transit : Transit) (up : Bool) (tenantId : String) (provider : Provider)
    (purpose : Purpose) (blob : EncryptedBlob) : Except BackendError String :=
  match decodeAscii blob.ciphertext with
  | none => .error .unicodeError
  | some ciphertext =>
      if up then
        match transit.decryptData ciphertext (aadFor tenantId provider purpose) with
        | none => .error .vaultBackendError
        | some plaintext =>
            match decodeUtf8 plaintext with
            | none => .error .unicodeError
            | some plaintext => .ok plaintext
      else .error .vaultBackendError

/-- The backends of a process, by their markers. -/
structure Backends where
  localBackend : Option AESGCMCipher
  vaultBackend : Option Transit

/-- `_decrypt`: the backend that the row names. -/
def Backends.decrypt (backends : Backends) (up : Bool) (tenantId : String) (provider : Provider)
    (purpose : Purpose) (envelope : Envelope) : Except BackendError String :=
  if envelope.backend = "local" then
    match backends.localBackend with
    | none => .error .decryptionError
    | some cipher => localDecrypt cipher tenantId provider purpose envelope.blob
  else if envelope.backend = "vault" then
    match backends.vaultBackend with
    | none => .error .decryptionError
    | some transit => vaultDecrypt transit up tenantId provider purpose envelope.blob
  else .error .decryptionError

/-- The encryption by one of the backends, for the columns of a row. -/
def Backends.encrypt (backends : Backends) (up : Bool) (backend : String) (draw : Bytes)
    (tenantId : String) (provider : Provider) (purpose : Purpose) (plaintext : String) :
    Except BackendError Envelope :=
  let blob : Except BackendError EncryptedBlob :=
    if backend = "local" then
      match backends.localBackend with
      | none => .error .decryptionError
      | some cipher => localEncrypt cipher draw tenantId provider purpose plaintext
    else if backend = "vault" then
      match backends.vaultBackend with
      | none => .error .decryptionError
      | some transit => vaultEncrypt transit up draw tenantId provider purpose plaintext
    else .error .decryptionError
  blob.map fun blob => ⟨backend, blob⟩

/-- What is sealed opens under what it is bound to, and under nothing else. -/
structure AesGcm.Authentic (aesgcm : AesGcm) : Prop where
  opens : ∀ nonce data aad, aesgcm.decrypt nonce (aesgcm.encrypt nonce data aad) aad = some data
  bound : ∀ nonce data aad aad' out,
    aesgcm.decrypt nonce (aesgcm.encrypt nonce data aad) aad' = some out → aad' = aad
  tagged : ∀ nonce data aad, 16 ≤ (aesgcm.encrypt nonce data aad).length

structure Transit.Authentic (transit : Transit) : Prop where
  opens : ∀ draw data context,
    transit.decryptData (transit.encryptData draw data context).1 context = some data
  bound : ∀ draw data context context' out,
    transit.decryptData (transit.encryptData draw data context).1 context' = some out →
      context' = context

structure Backends.Authentic (backends : Backends) : Prop where
  localCipher : ∀ cipher ∈ backends.localBackend, cipher.aesgcm.Authentic
  vaultEngine : ∀ transit ∈ backends.vaultBackend, transit.Authentic

/-- Two envelopes that open alike. The version of the key is only recorded. -/
def Envelope.SameSeal (a b : Envelope) : Prop :=
  a.backend = b.backend ∧ a.blob.ciphertext = b.blob.ciphertext ∧ a.blob.nonce = b.blob.nonce ∧
    a.blob.authTag = b.blob.authTag

end Definitions

section Texts

theorem encodeUtf8_inj {s t : String} (h : encodeUtf8 s = encodeUtf8 t) : s = t := by
  apply String.toByteArray_inj.mp
  apply ByteArray.ext
  exact Array.toList_inj.mp h

theorem decodeUtf8_encodeUtf8 (s : String) : decodeUtf8 (encodeUtf8 s) = some s :=
  dif_pos s.isValidUTF8

theorem decodeAscii_encodeUtf8 {s : String} (h : isAscii (encodeUtf8 s) = true) :
    decodeAscii (encodeUtf8 s) = some s := by
  rw [decodeAscii, if_pos h, decodeUtf8_encodeUtf8]

theorem last_field_inj {α : Type} {sep : α} {a a' b b' : List α} (hb : sep ∉ b) (hb' : sep ∉ b')
    (h : a ++ sep :: b = a' ++ sep :: b') : a = a' ∧ b = b' := by
  cases List.append_eq_append_iff.mp h with
  | inl hlong =>
      obtain ⟨extra, ha, hrest⟩ := hlong
      cases extra with
      | nil =>
          rw [List.append_nil] at ha
          exact ⟨ha.symm, (List.cons.inj hrest).2⟩
      | cons x extra =>
          apply absurd _ hb
          rw [(List.cons.inj hrest).2]
          exact List.mem_append_right _ List.mem_cons_self
  | inr hshort =>
      obtain ⟨extra, ha, hrest⟩ := hshort
      cases extra with
      | nil =>
          rw [List.append_nil] at ha
          exact ⟨ha, (List.cons.inj hrest).2.symm⟩
      | cons x extra =>
          apply absurd _ hb'
          rw [(List.cons.inj hrest).2]
          exact List.mem_append_right _ List.mem_cons_self

theorem Provider.text_inj {p p' : Provider} (h : p.text.toList = p'.text.toList) : p = p' := by
  cases p <;> cases p' <;> first | rfl | exact absurd h (by decide)

theorem Purpose.text_inj {p p' : Purpose} (h : p.text.toList = p'.text.toList) : p = p' := by
  cases p <;> cases p' <;> first | rfl | exact absurd h (by decide)

theorem Provider.text_colon (p : Provider) : ':' ∉ p.text.toList := by
  cases p <;> decide

theorem Purpose.text_colon (p : Purpose) : ':' ∉ p.text.toList := by
  cases p <;> decide

theorem aadFor_inj {t t' : String} {p p' : Provider} {u u' : Purpose}
    (h : aadFor t p u = aadFor t' p' u') : t = t' ∧ p = p' ∧ u = u' := by
  have htext := congrArg String.toList (encodeUtf8_inj h)
  have hcolon : ":".toList = [':'] := rfl
  simp only [String.toList_append, hcolon, List.append_assoc, List.singleton_append] at htext
  have hpurpose : (t.toList ++ ':' :: p.text.toList) ++ ':' :: u.text.toList =
      (t'.toList ++ ':' :: p'.text.toList) ++ ':' :: u'.text.toList := by
    simpa using htext
  obtain ⟨hfront, hu⟩ := last_field_inj u.text_colon u'.text_colon hpurpose
  obtain ⟨ht, hp⟩ := last_field_inj p.text_colon p'.text_colon hfront
  exact ⟨String.toList_inj.mp ht, Provider.text_inj hp, Purpose.text_inj hu⟩

theorem aadFor_ne_nil (t : String) (p : Provider) (u : Purpose) : aadFor t p u ≠ [] := by
  intro h
  have hempty : encodeUtf8 (t ++ ":" ++ p.text ++ ":" ++ u.text) = encodeUtf8 "" := h
  have htext := congrArg String.toList (encodeUtf8_inj hempty)
  simp at htext

end Texts

section Opening
variable {backends : Backends} {up up' : Bool} {backend : String} {draw : Bytes}
  {t t' : String} {p p' : Provider} {u u' : Purpose} {key key' : String}
  {envelope envelope' : Envelope}

theorem aes_encrypt_ok {cipher : AESGCMCipher} {aad ciphertext nonce authTag : Bytes}
    (h : cipher.encrypt draw key aad = .ok (ciphertext, nonce, authTag)) :
    key ≠ "" ∧ nonce = draw ∧
      ciphertext ++ authTag = cipher.aesgcm.encrypt draw (encodeUtf8 key) aad ∧
      authTag = (cipher.aesgcm.encrypt draw (encodeUtf8 key) aad).drop
        ((cipher.aesgcm.encrypt draw (encodeUtf8 key) aad).length - 16) := by
  rw [AESGCMCipher.encrypt] at h
  split at h
  case isTrue => cases h
  case isFalse hkey =>
      split at h
      case isTrue => cases h
      case isFalse =>
          simp only [Except.ok.injEq, Prod.mk.injEq] at h
          obtain ⟨rfl, rfl, rfl⟩ := h
          exact ⟨hkey, rfl, List.take_append_drop _ _, rfl⟩

theorem aes_decrypt_ok {cipher : AESGCMCipher} {ciphertext nonce authTag aad : Bytes}
    (h : cipher.decrypt ciphertext nonce authTag aad = .ok key) :
    ∃ plaintext, cipher.aesgcm.decrypt nonce (ciphertext ++ authTag) aad = some plaintext ∧
      decodeUtf8 plaintext = some key := by
  rw [AESGCMCipher.decrypt] at h
  split at h
  case isTrue => cases h
  split at h
  case isTrue => cases h
  split at h
  case isTrue => cases h
  cases hopen : cipher.aesgcm.decrypt nonce (ciphertext ++ authTag) aad with
  | none =>
      rw [hopen] at h
      cases h
  | some plaintext =>
      refine ⟨plaintext, rfl, ?_⟩
      cases hdecode : decodeUtf8 plaintext with
      | none => simp [hopen, hdecode] at h
      | some text => simpa [hopen, hdecode] using h

theorem localDecrypt_sealed {cipher : AESGCMCipher} (hcipher : cipher.aesgcm.Authentic)
    {blob blob' : EncryptedBlob} (hsealed : localEncrypt cipher draw t p u key = .ok blob)
    (hciphertext : blob'.ciphertext = blob.ciphertext) (hnonce : blob'.nonce = blob.nonce)
    (htag : blob'.authTag = blob.authTag)
    (hopen : localDecrypt cipher t' p' u' blob' = .ok key') :
    (t' = t ∧ p' = p ∧ u' = u) ∧ key' = key := by
  rw [localEncrypt] at hsealed
  split at hsealed
  case h_1 => cases hsealed
  case h_2 ciphertext nonce authTag hencrypt =>
      rw [← Except.ok.inj hsealed] at hciphertext hnonce htag
      obtain ⟨_, hdraw, hjoined, _⟩ := aes_encrypt_ok hencrypt
      obtain ⟨plaintext, hplain, hdecode⟩ := aes_decrypt_ok hopen
      rw [hciphertext, hnonce, htag, hjoined, hdraw] at hplain
      have haad := hcipher.bound _ _ _ _ _ hplain
      rw [haad, hcipher.opens] at hplain
      rw [← Option.some.inj hplain, decodeUtf8_encodeUtf8] at hdecode
      exact ⟨aadFor_inj haad, (Option.some.inj hdecode).symm⟩

theorem vaultDecrypt_sealed {transit : Transit} (htransit : transit.Authentic)
    {blob blob' : EncryptedBlob} (hsealed : vaultEncrypt transit up draw t p u key = .ok blob)
    (hciphertext : blob'.ciphertext = blob.ciphertext)
    (hopen : vaultDecrypt transit up' t' p' u' blob' = .ok key') :
    (t' = t ∧ p' = p ∧ u' = u) ∧ key' = key := by
  rw [vaultEncrypt] at hsealed
  split at hsealed
  case isFalse => cases hsealed
  case isTrue =>
      dsimp only at hsealed
      split at hsealed
      case isFalse => cases hsealed
      case isTrue hascii =>
          rw [← Except.ok.inj hsealed] at hciphertext
          rw [vaultDecrypt, hciphertext, decodeAscii_encodeUtf8 hascii] at hopen
          dsimp only at hopen
          split at hopen
          case isFalse => cases hopen
          case isTrue =>
              cases hplain : transit.decryptData
                  (transit.encryptData draw (encodeUtf8 key) (aadFor t p u)).1
                  (aadFor t' p' u') with
              | none => simp [hplain] at hopen
              | some plaintext =>
                  have haad := htransit.bound _ _ _ _ _ hplain
                  rw [haad, htransit.opens] at hplain
                  rw [haad, htransit.opens] at hopen
                  simp only [decodeUtf8_encodeUtf8] at hopen
                  exact ⟨aadFor_inj haad, (Except.ok.inj hopen).symm⟩

theorem encrypt_cases (h : backends.encrypt up backend draw t p u key = .ok envelope) :
    (∃ cipher ∈ backends.localBackend, envelope.backend = "local" ∧
      localEncrypt cipher draw t p u key = .ok envelope.blob) ∨
    (∃ transit ∈ backends.vaultBackend, envelope.backend = "vault" ∧
      vaultEncrypt transit up draw t p u key = .ok envelope.blob) := by
  rw [Backends.encrypt] at h
  by_cases hlocal : backend = "local"
  · simp only [if_pos hlocal] at h
    cases hcipher : backends.localBackend with
    | none => simp [hcipher, Except.map] at h
    | some cipher =>
        cases hencrypt : localEncrypt cipher draw t p u key with
        | error e => simp [hcipher, hencrypt, Except.map] at h
        | ok blob =>
            simp only [hcipher, hencrypt, Except.map, Except.ok.injEq] at h
            rw [← h]
            exact .inl ⟨cipher, rfl, hlocal, hencrypt⟩
  · by_cases hvault : backend = "vault"
    · simp only [if_neg hlocal, if_pos hvault] at h
      cases htransit : backends.vaultBackend with
      | none => simp [htransit, Except.map] at h
      | some transit =>
          cases hencrypt : vaultEncrypt transit up draw t p u key with
          | error e => simp [htransit, hencrypt, Except.map] at h
          | ok blob =>
              simp only [htransit, hencrypt, Except.map, Except.ok.injEq] at h
              rw [← h]
              exact .inr ⟨transit, rfl, hvault, hencrypt⟩
    · simp [hlocal, hvault, Except.map] at h

theorem decrypt_local {cipher : AESGCMCipher} (hcipher : cipher ∈ backends.localBackend)
    (hbackend : envelope.backend = "local") :
    backends.decrypt up t p u envelope = localDecrypt cipher t p u envelope.blob := by
  simp [Backends.decrypt, hbackend, Option.mem_def.mp hcipher]

theorem decrypt_vault {transit : Transit} (htransit : transit ∈ backends.vaultBackend)
    (hbackend : envelope.backend = "vault") :
    backends.decrypt up t p u envelope = vaultDecrypt transit up t p u envelope.blob := by
  simp [Backends.decrypt, hbackend, Option.mem_def.mp htransit]

theorem decrypt_sealed (hbackends : backends.Authentic)
    (hsealed : backends.encrypt up backend draw t p u key = .ok envelope)
    (hsame : envelope'.SameSeal envelope)
    (hopen : backends.decrypt up' t' p' u' envelope' = .ok key') :
    (t' = t ∧ p' = p ∧ u' = u) ∧ key' = key := by
  obtain ⟨hbackend, hciphertext, hnonce, htag⟩ := hsame
  cases encrypt_cases hsealed with
  | inl hlocal =>
      obtain ⟨cipher, hcipher, hmarker, hencrypt⟩ := hlocal
      rw [decrypt_local hcipher (hbackend.trans hmarker)] at hopen
      exact localDecrypt_sealed (hbackends.localCipher cipher hcipher) hencrypt hciphertext
        hnonce htag hopen
  | inr hvault =>
      obtain ⟨transit, htransit, hmarker, hencrypt⟩ := hvault
      rw [decrypt_vault htransit (hbackend.trans hmarker)] at hopen
      exact vaultDecrypt_sealed (hbackends.vaultEngine transit htransit) hencrypt hciphertext hopen

theorem decrypt_encrypt (hbackends : backends.Authentic) (hdraw : draw.length = 12)
    (hsealed : backends.encrypt up backend draw t p u key = .ok envelope) :
    backends.decrypt true t p u envelope = .ok key := by
  cases encrypt_cases hsealed with
  | inl hlocal =>
      obtain ⟨cipher, hcipher, hmarker, hencrypt⟩ := hlocal
      have hauthentic := hbackends.localCipher cipher hcipher
      rw [localEncrypt] at hencrypt
      split at hencrypt
      case h_1 => cases hencrypt
      case h_2 ciphertext nonce authTag haes =>
          obtain ⟨_, hnonce, hjoined, htag⟩ := aes_encrypt_ok haes
          have hlength := hauthentic.tagged draw (encodeUtf8 key) (aadFor t p u)
          have htagged : authTag.length = 16 := by
            rw [htag, List.length_drop]
            omega
          rw [decrypt_local hcipher hmarker, ← Except.ok.inj hencrypt]
          simp [localDecrypt, AESGCMCipher.decrypt, hnonce, hdraw, htagged, aadFor_ne_nil,
            hjoined, hauthentic.opens, decodeUtf8_encodeUtf8]
  | inr hvault =>
      obtain ⟨transit, htransit, hmarker, hencrypt⟩ := hvault
      rw [vaultEncrypt] at hencrypt
      split at hencrypt
      case isFalse => cases hencrypt
      case isTrue =>
          dsimp only at hencrypt
          split at hencrypt
          case isFalse => cases hencrypt
          case isTrue hascii =>
              rw [decrypt_vault htransit hmarker, ← Except.ok.inj hencrypt]
              simp [vaultDecrypt, decodeAscii_encodeUtf8 hascii,
                (hbackends.vaultEngine transit htransit).opens, decodeUtf8_encodeUtf8]

end Opening

end Engramia.Credentials
