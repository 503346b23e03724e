import EvnxCrypto.Kdf

/-!
# Vault encryption and key wrapping under the master key

Each function is followed by one equation or equivalence that says what it
returns and what it does to the world; later modules cite that and do not unfold
the function.
-/
namespace EvnxCrypto
open Effect ByteString AuthenticatedEncryption

abbrev VAULT_KEY_LEN : ℕ := 32
abbrev NONCE_LEN : ℕ := 12
abbrev XCHACHA_NONCE_LEN : ℕ := 24

variable {B : Type}

def HKDF_INFO_VAULT_KEY_WRAP_MK [Byte B] : List B := asBytes "evnx-vault-key-wrap-mk-v1"

@[ext] structure VaultKey (B : Type) where
  expose : List.Vector B VAULT_KEY_LEN
  deriving DecidableEq

structure EncryptedBlob (B : Type) where
  nonce : List.Vector B NONCE_LEN
  ciphertext : List B
  deriving DecidableEq

/-- The digest of the ciphertext, spelled in hexadecimal by `toHex`. -/
def blobHash {T : Type} (P : Crates B) (toHex : List B → T) (ciphertext : List B) : T :=
  toHex (P.blake3Hash ciphertext).toList

/-- The length of the id is cast to 16 bits, so it wraps from 65536 bytes on. -/
def vaultAad [Byte B] (vaultId : String) (version : UInt32) : List B :=
  let id := utf8 vaultId
  let length := UInt16.ofNat id.length
  asBytes "evnx" ++ lits (bigEndian 2 length.toNat) ++ lits id ++
    lits (bigEndian 4 version.toNat)

section
variable (P : Crates B)

def VaultKey.generate : Prog P (VaultKey B) := do
  let key ← fillBytes .vaultKey VAULT_KEY_LEN
  pure ⟨key⟩

def encryptVault (plaintext : List B) (vaultKey : VaultKey B) (aad : List B) :
    Prog P (EncryptedBlob B) := do
  let key ← Run.lift (copyFromSlice AEAD_KEY_LEN vaultKey.expose.toList)
  let nonceBytes ← fillBytes .nonce NONCE_LEN
  let nonce ← Run.lift (copyFromSlice NONCE_LEN nonceBytes.toList)
  let sealed ← aeadEncrypt .aes256Gcm key.toList nonce.toList aad plaintext
  let ciphertext ← Run.lift (.okOr .encryption sealed)
  pure { nonce := nonceBytes, ciphertext }

def decryptVault (blob : EncryptedBlob B) (vaultKey : VaultKey B) (aad : List B) :
    Prog P (List B) := do
  let key ← Run.lift (copyFromSlice AEAD_KEY_LEN vaultKey.expose.toList)
  let nonce ← Run.lift (copyFromSlice NONCE_LEN blob.nonce.toList)
  let opened ← aeadDecrypt .aes256Gcm key.toList nonce.toList aad blob.ciphertext
  Run.lift (.okOr .decryption opened)

def reencryptVault (blob : EncryptedBlob B) (oldKey newKey : VaultKey B) (aad : List B) :
    Prog P (EncryptedBlob B) := do
  let plaintext ← decryptVault P blob oldKey aad
  encryptVault P plaintext newKey aad

variable [Byte B]

def wrapVaultKeyWithMasterKey (vaultKey : VaultKey B) (masterKey : MasterKey B) :
    Prog P (List B) := do
  let subkey ← hkdfSubkey P masterKey.expose.toList HKDF_INFO_VAULT_KEY_WRAP_MK
  let cipher ← Run.lift (.okOr .keyWrap (newFromSlice subkey.toList))
  let nonceBytes ← fillBytes .nonce XCHACHA_NONCE_LEN
  let nonce ← Run.lift (copyFromSlice XCHACHA_NONCE_LEN nonceBytes.toList)
  let sealed ← aeadEncrypt .xchacha20Poly1305 cipher.toList nonce.toList [] vaultKey.expose.toList
  let ciphertext ← Run.lift (.okOr .keyWrap sealed)
  pure (nonceBytes.toList ++ ciphertext)

def unwrapVaultKeyWithMasterKey (wrapped : List B) (masterKey : MasterKey B) :
    Prog P (VaultKey B) := do
  if wrapped.length < XCHACHA_NONCE_LEN + VAULT_KEY_LEN then
    Run.fail (.invalidInput "wrapped key too short")
  else
    let subkey ← hkdfSubkey P masterKey.expose.toList HKDF_INFO_VAULT_KEY_WRAP_MK
    let cipher ← Run.lift (.okOr .keyUnwrap (newFromSlice subkey.toList))
    let head ← Run.lift (sliceTo wrapped XCHACHA_NONCE_LEN)
    let nonce ← Run.lift (copyFromSlice XCHACHA_NONCE_LEN head)
    let tail ← Run.lift (sliceFrom wrapped XCHACHA_NONCE_LEN)
    let opened ← aeadDecrypt .xchacha20Poly1305 cipher.toList nonce.toList [] tail
    let plaintext ← Run.lift (.okOr .keyUnwrap opened)
    if plaintext.length ≠ VAULT_KEY_LEN then
      Run.fail (.invalidInput "decrypted key wrong length")
    else
      let key ← Run.lift (copyFromSlice VAULT_KEY_LEN plaintext)
      pure ⟨key⟩

end

/-! ## What each call returns and does to the world -/

section Specifications
variable {P : Crates B}

/-- The check both unwrapping functions make on what the cipher returned. -/
def openedKey (message : String) : Option (List B) → Result (VaultKey B)
  | none => .err .keyUnwrap
  | some plaintext =>
      if h : plaintext.length = VAULT_KEY_LEN then .ok ⟨asArray plaintext h⟩
      else .err (.invalidInput message)

theorem openedKey_eq_ok {message : String} {opened : Option (List B)} {vk : VaultKey B} :
    openedKey message opened = .ok vk ↔ opened = some vk.expose.toList := by
  cases opened with
  | none => simp [openedKey]
  | some plaintext =>
      rw [openedKey, Option.some.injEq]
      constructor
      · intro h
        split at h
        · cases h
          rfl
        · cases h
      · intro h
        subst h
        exact dif_pos vk.expose.toList_length

/-- Both unwrapping functions end in this check, each with its own message. -/
theorem openedKey_apply (message : String) (opened : Option (List B)) (w : World P) :
    (do
      let plaintext ← Run.lift (.okOr .keyUnwrap opened)
      if plaintext.length ≠ VAULT_KEY_LEN then
        Run.fail (.invalidInput message)
      else
        let key ← Run.lift (copyFromSlice VAULT_KEY_LEN plaintext)
        pure ⟨key⟩ : Prog P (VaultKey B)) w = (openedKey message opened, w) := by
  cases opened with
  | none => rfl
  | some plaintext =>
      simp only [Outcome.okOr_some, Run.lift_ok_bind, openedKey]
      by_cases hlen : plaintext.length = VAULT_KEY_LEN
      · rw [if_neg (not_not.mpr hlen), copyFromSlice_of_length hlen, dif_pos hlen]
        rfl
      · rw [if_pos hlen, dif_neg hlen]
        rfl

theorem VaultKey.generate_apply (w : World P) :
    VaultKey.generate P w =
      (.ok ⟨w.next .vaultKey VAULT_KEY_LEN⟩, w.draw .vaultKey VAULT_KEY_LEN) :=
  rfl

/-- Past the draw of its nonce a vault is one sealing. -/
theorem encryptVault_apply (plaintext : List B) (vaultKey : VaultKey B) (aad : List B)
    (w : World P) :
    encryptVault P plaintext vaultKey aad w =
      (do
        let sealed ← aeadEncrypt .aes256Gcm vaultKey.expose.toList
          (w.next .nonce NONCE_LEN).toList aad plaintext
        let ciphertext ← Run.lift (.okOr .encryption sealed)
        pure ⟨w.next .nonce NONCE_LEN, ciphertext⟩ : Prog P _) (w.draw .nonce NONCE_LEN) := by
  unfold encryptVault
  simp only [AEAD_KEY_LEN, copyFromSlice_toList, Run.lift_ok_bind]
  rw [Run.bind_of_ok (fillBytes_apply .nonce NONCE_LEN w)]

theorem encryptVault_of_some {plaintext aad ct : List B} {vaultKey : VaultKey B} {w : World P}
    (h : (P.aead .aes256Gcm).encrypt vaultKey.expose.toList (w.next .nonce NONCE_LEN).toList
      aad plaintext = some ct) :
    encryptVault P plaintext vaultKey aad w =
      (.ok ⟨w.next .nonce NONCE_LEN, ct⟩,
        (w.draw .nonce NONCE_LEN).record .aes256Gcm h) := by
  rw [encryptVault_apply]
  exact seal_of_some _ _ _ h

theorem encryptVault_of_none {plaintext aad : List B} {vaultKey : VaultKey B} {w : World P}
    (h : (P.aead .aes256Gcm).encrypt vaultKey.expose.toList (w.next .nonce NONCE_LEN).toList
      aad plaintext = none) :
    encryptVault P plaintext vaultKey aad w =
      (.err .encryption, (w.draw .nonce NONCE_LEN).refuse .aes256Gcm vaultKey.expose.toList
        (w.next .nonce NONCE_LEN).toList) := by
  rw [encryptVault_apply]
  exact seal_of_none _ _ _ h

/-- Sealing draws a nonce, and fails only where the cipher does. -/
theorem encryptVault_cases (plaintext : List B) (vaultKey : VaultKey B) (aad : List B)
    (w : World P) :
    (∃ ct, ∃ henc : (P.aead .aes256Gcm).encrypt vaultKey.expose.toList
        (w.next .nonce NONCE_LEN).toList aad plaintext = some ct,
      encryptVault P plaintext vaultKey aad w =
        (.ok ⟨w.next .nonce NONCE_LEN, ct⟩,
          (w.draw .nonce NONCE_LEN).record .aes256Gcm henc)) ∨
    encryptVault P plaintext vaultKey aad w =
      (.err .encryption, (w.draw .nonce NONCE_LEN).refuse .aes256Gcm vaultKey.expose.toList
        (w.next .nonce NONCE_LEN).toList) := by
  rcases Option.eq_none_or_eq_some ((P.aead .aes256Gcm).encrypt vaultKey.expose.toList
    (w.next .nonce NONCE_LEN).toList aad plaintext) with henc | ⟨ct, henc⟩
  · exact .inr (encryptVault_of_none henc)
  · exact .inl ⟨ct, henc, encryptVault_of_some henc⟩

/-- A blob returned by sealing carries the nonce it was sealed with, and the
sealing is the one entry added to the record. -/
theorem encryptVault_eq_ok {plaintext aad : List B} {vaultKey : VaultKey B} {w w' : World P}
    {blob : EncryptedBlob B} :
    encryptVault P plaintext vaultKey aad w = (.ok blob, w') ↔
      blob.nonce = w.next .nonce NONCE_LEN ∧
      ∃ h : (P.aead .aes256Gcm).encrypt vaultKey.expose.toList blob.nonce.toList aad plaintext =
          some blob.ciphertext,
        w' = (w.draw .nonce NONCE_LEN).record .aes256Gcm h := by
  constructor
  · intro hok
    rcases encryptVault_cases plaintext vaultKey aad w with ⟨ct, henc, heq⟩ | heq
    · rw [heq] at hok
      cases hok
      exact ⟨rfl, henc, rfl⟩
    · rw [heq] at hok
      cases hok
  · intro hok
    rcases blob with ⟨nonce, ct⟩
    rcases hok with ⟨rfl, h, rfl⟩
    exact encryptVault_of_some h

theorem encryptVault_extends (plaintext : List B) (vaultKey : VaultKey B) (aad : List B)
    (w : World P) : w.Extends (encryptVault P plaintext vaultKey aad w).2 := by
  have hdraw := w.extends_draw .nonce NONCE_LEN
  rcases encryptVault_cases plaintext vaultKey aad w with ⟨ct, henc, heq⟩ | heq
  · rw [heq]
    exact hdraw.trans (World.extends_record _ henc)
  · rw [heq]
    exact hdraw.trans (World.extends_refuse _ _ _ _)

theorem encryptVault_inOrder {w : World P} (h : w.InOrder) (plaintext : List B)
    (vaultKey : VaultKey B) (aad : List B) :
    (encryptVault P plaintext vaultKey aad w).2.InOrder := by
  have hdraw : (w.draw .nonce NONCE_LEN).InOrder := h.draw _ (by decide)
  rcases encryptVault_cases plaintext vaultKey aad w with ⟨ct, henc, heq⟩ | heq
  · rw [heq]
    exact hdraw
  · rw [heq]
    exact hdraw

theorem encryptVault_ok_extends {plaintext aad : List B} {vaultKey : VaultKey B}
    {blob : EncryptedBlob B} {w w' : World P}
    (h : encryptVault P plaintext vaultKey aad w = (.ok blob, w')) : w.Extends w' := by
  have hext := encryptVault_extends plaintext vaultKey aad w
  rwa [h] at hext

/-- Opening leaves the world as it was, whatever it returns. -/
theorem decryptVault_apply (blob : EncryptedBlob B) (vaultKey : VaultKey B) (aad : List B)
    (w : World P) :
    decryptVault P blob vaultKey aad w =
      (.okOr .decryption ((P.aead .aes256Gcm).decrypt (w.history .aes256Gcm).sealings
        vaultKey.expose.toList blob.nonce.toList aad blob.ciphertext), w) := by
  unfold decryptVault
  simp only [AEAD_KEY_LEN, copyFromSlice_toList, Run.lift_ok_bind]
  rw [Run.bind_of_ok (aeadDecrypt_apply ..)]
  rfl

theorem reencryptVault_of_some {blob : EncryptedBlob B} {oldKey newKey : VaultKey B}
    {aad plaintext : List B} {w : World P}
    (h : (P.aead .aes256Gcm).decrypt (w.history .aes256Gcm).sealings oldKey.expose.toList
      blob.nonce.toList aad blob.ciphertext = some plaintext) :
    reencryptVault P blob oldKey newKey aad w = encryptVault P plaintext newKey aad w := by
  have hopen := decryptVault_apply blob oldKey aad w
  rw [h, Outcome.okOr_some] at hopen
  unfold reencryptVault
  rw [Run.bind_of_ok hopen]

/-- Where the old key does not open the blob, nothing is drawn and nothing sealed. -/
theorem reencryptVault_of_none {blob : EncryptedBlob B} {oldKey newKey : VaultKey B}
    {aad : List B} {w : World P}
    (h : (P.aead .aes256Gcm).decrypt (w.history .aes256Gcm).sealings oldKey.expose.toList
      blob.nonce.toList aad blob.ciphertext = none) :
    reencryptVault P blob oldKey newKey aad w = (.err .decryption, w) := by
  have hopen := decryptVault_apply blob oldKey aad w
  rw [h, Outcome.okOr_none] at hopen
  unfold reencryptVault
  rw [Run.bind_of_err hopen]

theorem reencryptVault_eq_ok {blob fresh : EncryptedBlob B} {oldKey newKey : VaultKey B}
    {aad : List B} {w w' : World P} :
    reencryptVault P blob oldKey newKey aad w = (.ok fresh, w') ↔
      ∃ plaintext, (P.aead .aes256Gcm).decrypt (w.history .aes256Gcm).sealings
          oldKey.expose.toList blob.nonce.toList aad blob.ciphertext = some plaintext ∧
        encryptVault P plaintext newKey aad w = (.ok fresh, w') := by
  rcases Option.eq_none_or_eq_some ((P.aead .aes256Gcm).decrypt
    (w.history .aes256Gcm).sealings oldKey.expose.toList blob.nonce.toList aad
    blob.ciphertext) with h | ⟨plaintext, h⟩
  · rw [reencryptVault_of_none h, h]
    simp
  · rw [reencryptVault_of_some h, h]
    simp

variable [Byte B]

/-- The world once the wrapping subkey of a master key has been derived. -/
abbrev World.wrapSubkey (w : World P) (masterKey : MasterKey B) : World P :=
  w.subkey masterKey.expose.toList HKDF_INFO_VAULT_KEY_WRAP_MK

abbrev Crates.wrapSubkey (P : Crates B) (masterKey : MasterKey B) : List.Vector B 32 :=
  P.subkey masterKey.expose.toList HKDF_INFO_VAULT_KEY_WRAP_MK

theorem wrapVaultKeyWithMasterKey_apply (vaultKey : VaultKey B) (masterKey : MasterKey B)
    (w : World P) :
    wrapVaultKeyWithMasterKey P vaultKey masterKey w =
      (do
        let sealed ← aeadEncrypt .xchacha20Poly1305 (P.wrapSubkey masterKey).toList
          (w.next .nonce XCHACHA_NONCE_LEN).toList [] vaultKey.expose.toList
        let ciphertext ← Run.lift (.okOr .keyWrap sealed)
        pure ((w.next .nonce XCHACHA_NONCE_LEN).toList ++ ciphertext) : Prog P _)
        ((w.wrapSubkey masterKey).draw .nonce XCHACHA_NONCE_LEN) := by
  unfold wrapVaultKeyWithMasterKey
  rw [Run.bind_of_ok (hkdfSubkey_apply ..)]
  simp only [newFromSlice_toList, Outcome.okOr_some, Run.lift_ok_bind]
  rw [Run.bind_of_ok (fillBytes_apply .nonce XCHACHA_NONCE_LEN _)]
  simp only [World.subkey_next, copyFromSlice_toList, Run.lift_ok_bind]

theorem wrapVaultKeyWithMasterKey_of_some {vaultKey : VaultKey B} {masterKey : MasterKey B}
    {w : World P} {ct : List B}
    (h : (P.aead .xchacha20Poly1305).encrypt (P.wrapSubkey masterKey).toList
      (w.next .nonce XCHACHA_NONCE_LEN).toList [] vaultKey.expose.toList = some ct) :
    wrapVaultKeyWithMasterKey P vaultKey masterKey w =
      (.ok ((w.next .nonce XCHACHA_NONCE_LEN).toList ++ ct),
        ((w.wrapSubkey masterKey).draw .nonce XCHACHA_NONCE_LEN).record .xchacha20Poly1305
          h) := by
  rw [wrapVaultKeyWithMasterKey_apply]
  exact seal_of_some _ _ _ h

theorem wrapVaultKeyWithMasterKey_of_none {vaultKey : VaultKey B} {masterKey : MasterKey B}
    {w : World P}
    (h : (P.aead .xchacha20Poly1305).encrypt (P.wrapSubkey masterKey).toList
      (w.next .nonce XCHACHA_NONCE_LEN).toList [] vaultKey.expose.toList = none) :
    wrapVaultKeyWithMasterKey P vaultKey masterKey w =
      (.err .keyWrap, ((w.wrapSubkey masterKey).draw .nonce XCHACHA_NONCE_LEN).refuse
        .xchacha20Poly1305 (P.wrapSubkey masterKey).toList
        (w.next .nonce XCHACHA_NONCE_LEN).toList) := by
  rw [wrapVaultKeyWithMasterKey_apply]
  exact seal_of_none _ _ _ h

theorem wrapVaultKeyWithMasterKey_cases (vaultKey : VaultKey B) (masterKey : MasterKey B)
    (w : World P) :
    (∃ ct, ∃ henc : (P.aead .xchacha20Poly1305).encrypt (P.wrapSubkey masterKey).toList
        (w.next .nonce XCHACHA_NONCE_LEN).toList [] vaultKey.expose.toList = some ct,
      wrapVaultKeyWithMasterKey P vaultKey masterKey w =
        (.ok ((w.next .nonce XCHACHA_NONCE_LEN).toList ++ ct),
          ((w.wrapSubkey masterKey).draw .nonce XCHACHA_NONCE_LEN).record .xchacha20Poly1305
            henc)) ∨
    wrapVaultKeyWithMasterKey P vaultKey masterKey w =
      (.err .keyWrap, ((w.wrapSubkey masterKey).draw .nonce XCHACHA_NONCE_LEN).refuse
        .xchacha20Poly1305 (P.wrapSubkey masterKey).toList
        (w.next .nonce XCHACHA_NONCE_LEN).toList) := by
  rcases Option.eq_none_or_eq_some ((P.aead .xchacha20Poly1305).encrypt
    (P.wrapSubkey masterKey).toList (w.next .nonce XCHACHA_NONCE_LEN).toList []
    vaultKey.expose.toList) with henc | ⟨ct, henc⟩
  · exact .inr (wrapVaultKeyWithMasterKey_of_none henc)
  · exact .inl ⟨ct, henc, wrapVaultKeyWithMasterKey_of_some henc⟩

theorem wrapVaultKeyWithMasterKey_eq_ok {vaultKey : VaultKey B} {masterKey : MasterKey B}
    {w w' : World P} {wrapped : List B} :
    wrapVaultKeyWithMasterKey P vaultKey masterKey w = (.ok wrapped, w') ↔
      ∃ ct, wrapped = (w.next .nonce XCHACHA_NONCE_LEN).toList ++ ct ∧
      ∃ h : (P.aead .xchacha20Poly1305).encrypt (P.wrapSubkey masterKey).toList
          (w.next .nonce XCHACHA_NONCE_LEN).toList [] vaultKey.expose.toList = some ct,
        w' = ((w.wrapSubkey masterKey).draw .nonce XCHACHA_NONCE_LEN).record
          .xchacha20Poly1305 h := by
  constructor
  · intro hok
    rcases wrapVaultKeyWithMasterKey_cases vaultKey masterKey w with ⟨ct, henc, heq⟩ | heq
    · rw [heq] at hok
      cases hok
      exact ⟨ct, rfl, henc, rfl⟩
    · rw [heq] at hok
      cases hok
  · intro hok
    obtain ⟨ct, rfl, h, rfl⟩ := hok
    exact wrapVaultKeyWithMasterKey_of_some h

theorem wrapVaultKeyWithMasterKey_extends {vaultKey : VaultKey B} {masterKey : MasterKey B}
    {w w' : World P} {wrapped : List B}
    (h : wrapVaultKeyWithMasterKey P vaultKey masterKey w = (.ok wrapped, w')) :
    w.Extends w' := by
  obtain ⟨ct, -, henc, rfl⟩ := wrapVaultKeyWithMasterKey_eq_ok.mp h
  exact ((w.extends_subkey _ _).trans (World.extends_draw _ _ _)).trans
    (World.extends_record _ henc)

theorem unwrapVaultKeyWithMasterKey_short {wrapped : List B} (masterKey : MasterKey B)
    (w : World P) (h : wrapped.length < XCHACHA_NONCE_LEN + VAULT_KEY_LEN) :
    unwrapVaultKeyWithMasterKey P wrapped masterKey w =
      (.err (.invalidInput "wrapped key too short"), w) := by
  unfold unwrapVaultKeyWithMasterKey
  rw [if_pos h]
  rfl

theorem unwrapVaultKeyWithMasterKey_apply {wrapped : List B} (masterKey : MasterKey B)
    (w : World P) (h : XCHACHA_NONCE_LEN + VAULT_KEY_LEN ≤ wrapped.length) :
    unwrapVaultKeyWithMasterKey P wrapped masterKey w =
      (openedKey "decrypted key wrong length"
        ((P.aead .xchacha20Poly1305).decrypt (w.history .xchacha20Poly1305).sealings
          (P.wrapSubkey masterKey).toList (wrapped.take XCHACHA_NONCE_LEN) []
          (wrapped.drop XCHACHA_NONCE_LEN)), w.wrapSubkey masterKey) := by
  have hnonce : XCHACHA_NONCE_LEN ≤ wrapped.length := le_trans (Nat.le_add_right _ _) h
  have htake : (wrapped.take XCHACHA_NONCE_LEN).length = XCHACHA_NONCE_LEN := by
    simp [hnonce]
  unfold unwrapVaultKeyWithMasterKey
  rw [if_neg (not_lt.mpr h), Run.bind_of_ok (hkdfSubkey_apply ..)]
  simp only [newFromSlice_toList, Outcome.okOr_some, Run.lift_ok_bind, sliceTo_of_le hnonce,
    copyFromSlice_of_length htake, sliceFrom_of_le hnonce]
  rw [Run.bind_of_ok (aeadDecrypt_apply ..)]
  simp only [World.subkey_history, asArray_toList]
  exact openedKey_apply ..

/-- A key comes out only of a blob that opens to exactly its bytes. -/
theorem unwrapVaultKeyWithMasterKey_eq_ok {wrapped : List B} {masterKey : MasterKey B}
    {w w' : World P} {vk : VaultKey B} :
    unwrapVaultKeyWithMasterKey P wrapped masterKey w = (.ok vk, w') ↔
      XCHACHA_NONCE_LEN + VAULT_KEY_LEN ≤ wrapped.length ∧ w' = w.wrapSubkey masterKey ∧
      (P.aead .xchacha20Poly1305).decrypt (w.history .xchacha20Poly1305).sealings
        (P.wrapSubkey masterKey).toList (wrapped.take XCHACHA_NONCE_LEN) []
        (wrapped.drop XCHACHA_NONCE_LEN) = some vk.expose.toList := by
  by_cases h : wrapped.length < XCHACHA_NONCE_LEN + VAULT_KEY_LEN
  · rw [unwrapVaultKeyWithMasterKey_short masterKey w h]
    simp only [Prod.mk.injEq, reduceCtorEq, false_and, false_iff, not_and]
    intro hle
    omega
  · have hle := not_lt.mp h
    rw [unwrapVaultKeyWithMasterKey_apply masterKey w hle, Prod.mk.injEq, openedKey_eq_ok]
    constructor
    · intro hok
      exact ⟨hle, hok.2.symm, hok.1⟩
    · intro hok
      exact ⟨hok.2.2, hok.2.1.symm⟩

end Specifications
end EvnxCrypto
