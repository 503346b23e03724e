import EvnxCrypto.Api

/-!
# Why a call is turned down

The calls that seal and those that derive from a password fail for no other reason
than that a crate refuses what it is given: a text too long for the cipher, a public
key that is weak or malformed, a password Argon2 does not take.
-/
namespace EvnxCrypto
open Effect ByteString AuthenticatedEncryption

variable {B : Type}

theorem Aead.not_fits_of_none {A : Aead B} {k n a m : List B} (h : A.encrypt k n a m = none) :
    A.fits m.length a.length = false := by
  rw [← A.encrypt_isSome k n a m, h]
  rfl

/-- The cipher has no room for a 32-byte secret. -/
def Crates.SecretTooLong (P : Crates B) : Prop :=
  (P.aead .xchacha20Poly1305).fits VAULT_KEY_LEN 0 = false

/-- A recipient whose X25519 key contributes nothing to some secret, or whose ML-KEM key
is malformed. -/
def Crates.RefusesKeys (P : Crates B) (recipient : UserPublicKeys B) : Prop :=
  (∃ secret, P.wasContributory (P.diffieHellman secret recipient.x25519.bytes) = false) ∨
    P.mlkemKeyIsValid recipient.mlkem.bytes = false

variable [Byte B]

/-- The reason behind an error. -/
def Api.RefusedFor (P : Crates B) : {β : Type} → Api B β → CryptoError → Prop
  | _, .deriveMasterKey password salt, e =>
      EvnxCrypto.deriveMasterKey P password salt = .err e
  | _, .deriveSrpPassword password srpSalt, e =>
      EvnxCrypto.deriveSrpPassword P password srpSalt = .err e
  | _, .encryptVault plaintext _ aad, e =>
      e = .encryption ∧ (P.aead .aes256Gcm).fits plaintext.length aad.length = false
  | _, .wrapVaultKeyWithMasterKey .., e => e = .keyWrap ∧ P.SecretTooLong
  | _, .encryptPrivateKey .., e => e = .keyWrap ∧ P.SecretTooLong
  | _, .wrapVaultKeyForUser _ recipient, e =>
      (e = .keyWrap ∧ P.SecretTooLong) ∨ (e = .invalidPublicKey ∧ P.RefusesKeys recipient)
  | _, _, _ => True

variable {P : Crates B} {S : SrpClient B}

omit [Byte B] in
theorem secretTooLong_of_none {k n : List B} {secret : List.Vector B 32}
    (h : (P.aead .xchacha20Poly1305).encrypt k n [] secret.toList = none) : P.SecretTooLong := by
  have hfits := Aead.not_fits_of_none h
  rwa [List.Vector.toList_length] at hfits

theorem encryptVault_refused {plaintext aad : List B} {vk : VaultKey B} {w : World P}
    {e : CryptoError} (h : (encryptVault P plaintext vk aad w).1 = .err e) :
    Api.RefusedFor P (.encryptVault plaintext vk aad) e := by
  rcases Option.eq_none_or_eq_some ((P.aead .aes256Gcm).encrypt vk.expose.toList
    (w.next .nonce NONCE_LEN).toList aad plaintext) with hnone | ⟨ct, hsome⟩
  · rw [encryptVault_of_none hnone] at h
    cases h
    exact ⟨rfl, Aead.not_fits_of_none hnone⟩
  · rw [encryptVault_of_some hsome] at h
    cases h

theorem wrapVaultKeyForUser_refused {vk : VaultKey B} {recipient : UserPublicKeys B}
    {w : World P} {e : CryptoError} (h : (wrapVaultKeyForUser P vk recipient w).1 = .err e) :
    Api.RefusedFor P (.wrapVaultKeyForUser vk recipient) e := by
  cases hc : P.wasContributory (P.diffieHellman w.wrapCoins.ephSecret recipient.x25519.bytes) with
  | false =>
      rw [wrapVaultKeyForUser_of_weak hc] at h
      cases h
      exact .inr ⟨rfl, .inl ⟨_, hc⟩⟩
  | true =>
      cases hv : P.mlkemKeyIsValid recipient.mlkem.bytes with
      | false =>
          rw [wrapVaultKeyForUser_of_invalid hc hv] at h
          cases h
          exact .inr ⟨rfl, .inr hv⟩
      | true =>
          rcases Option.eq_none_or_eq_some ((P.aead .xchacha20Poly1305).encrypt
            (P.hybridKey (P.senderIkm recipient w.wrapCoins)).toList w.wrapCoins.nonce.toList []
            vk.expose.toList) with hnone | ⟨ct, hsome⟩
          · rw [wrapVaultKeyForUser_of_none ⟨hc, hv⟩ hnone] at h
            cases h
            exact .inl ⟨rfl, secretTooLong_of_none hnone⟩
          · rw [wrapVaultKeyForUser_of_some ⟨hc, hv⟩ hsome] at h
            cases h

theorem encryptPrivateKey_refused {kp : UserKeypair B} {mk : MasterKey B} {w : World P}
    {e : CryptoError} (h : (encryptPrivateKey P kp mk w).1 = .err e) :
    Api.RefusedFor P (.encryptPrivateKey kp mk) e := by
  rcases Option.eq_none_or_eq_some ((P.aead .xchacha20Poly1305).encrypt (P.sealSubkey mk).toList
    (w.next .nonce XCHACHA_NONCE_LEN).toList [] kp.ed25519PrivateSeed.toList) with hnone | ⟨ct, hs⟩
  · rw [encryptPrivateKey_of_none hnone] at h
    cases h
    exact ⟨rfl, secretTooLong_of_none hnone⟩
  · rw [encryptPrivateKey_of_some hs] at h
    cases h

theorem wrapVaultKeyWithMasterKey_refused {vk : VaultKey B} {mk : MasterKey B} {w : World P}
    {e : CryptoError} (h : (wrapVaultKeyWithMasterKey P vk mk w).1 = .err e) :
    Api.RefusedFor P (.wrapVaultKeyWithMasterKey vk mk) e := by
  rcases Option.eq_none_or_eq_some ((P.aead .xchacha20Poly1305).encrypt (P.wrapSubkey mk).toList
    (w.next .nonce XCHACHA_NONCE_LEN).toList [] vk.expose.toList) with hnone | ⟨ct, hs⟩
  · rw [wrapVaultKeyWithMasterKey_of_none hnone] at h
    cases h
    exact ⟨rfl, secretTooLong_of_none hnone⟩
  · rw [wrapVaultKeyWithMasterKey_of_some hs] at h
    cases h

theorem Api.call_refused [DecidableEq B] {β : Type} {call : Api B β} {w : World P}
    {e : CryptoError} (h : (Api.call P S β call w).1 = .err e) : call.RefusedFor P e := by
  cases call with
  | deriveMasterKey password salt => exact h
  | deriveSrpPassword password srpSalt => exact h
  | encryptVault plaintext vk aad => exact encryptVault_refused h
  | wrapVaultKeyWithMasterKey vk mk => exact wrapVaultKeyWithMasterKey_refused h
  | encryptPrivateKey kp mk => exact encryptPrivateKey_refused h
  | wrapVaultKeyForUser vk recipient => exact wrapVaultKeyForUser_refused h
  | _ => exact trivial

/-- A wrap for the keys of a key pair is turned down. -/
def Crates.WrapRefused (P : Crates B) (e : CryptoError) : Prop :=
  (e = .keyWrap ∧ P.SecretTooLong) ∨
    (e = .invalidPublicKey ∧ ∃ seed, P.RefusesKeys (P.keypairOf seed).publicKeys)

/-- A registration is turned down: its password cannot be derived from, or its seed
cannot be sealed. -/
def Crates.RegistrationRefused (P : Crates B) (password : List B) (e : CryptoError) : Prop :=
  (e = .keyWrap ∧ P.SecretTooLong) ∨
    ∃ salt, deriveMasterKey P password salt = .err e ∨ deriveSrpPassword P password salt = .err e

end EvnxCrypto
