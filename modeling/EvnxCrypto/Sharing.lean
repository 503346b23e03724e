import EvnxCrypto.Keypair

/-!
# Sharing a vault key with another user

A wrap is sealed under a key mixed from an X25519 secret, an ML-KEM secret and
the transcript. What the sender draws for one wrap is collected in `WrapCoins`;
`Crates.senderIkm` and `Crates.recipientIkm` are what the two sides mix, each
from the data it has.
-/
namespace EvnxCrypto
open Effect ByteString AuthenticatedEncryption

abbrev MLKEM768_CIPHERTEXT_LEN : ℕ := 1088
abbrev MLKEM_SHARED_SECRET_LEN : ℕ := 32

variable {B : Type}

def HKDF_INFO_VAULT_KEY_WRAP [Byte B] : List B := asBytes "evnx-vault-key-wrap-v2"

@[ext] structure WrappedVaultKey (B : Type) where
  ephPubKey : List.Vector B X25519_PUBLIC_LEN
  mlkemCiphertext : List B
  encryptedVaultKey : List B
  deriving DecidableEq

section
variable (P : Crates B)

def UserKeypair.mlkemDecapsulate (keypair : UserKeypair B) (ciphertext : List B) :
    Result (List.Vector B MLKEM_SHARED_SECRET_LEN) := do
  let shared ← .okOr (.invalidInput
      s!"ML-KEM-768 ciphertext must be {MLKEM768_CIPHERTEXT_LEN} bytes, got {ciphertext.length}")
    (P.decapsulateSlice keypair.mlkemDecap ciphertext)
  copyFromSlice MLKEM_SHARED_SECRET_LEN shared.toList

/-- `EncapsulationKey768::new`. -/
def newEncapsulationKey (encoded : List.Vector B MLKEM768_PUBLIC_LEN) :
    Option (List.Vector B MLKEM768_PUBLIC_LEN) :=
  if P.mlkemKeyIsValid encoded then some encoded else none

def mlkemEncapsulate (recipientPub : MlKem768PublicKey B) :
    Prog P (List B × List.Vector B MLKEM_SHARED_SECRET_LEN) := do
  let encoded ← Run.lift (.okOr .invalidPublicKey
    (tryIntoArray MLKEM768_PUBLIC_LEN recipientPub.bytes.toList))
  let ek ← Run.lift (.okOr .invalidPublicKey (newEncapsulationKey P encoded))
  let m ← fillBytes .encapsulation 32
  let (ciphertext, shared) := P.encapsulateDeterministic ek m
  let secret ← Run.lift (copyFromSlice MLKEM_SHARED_SECRET_LEN shared.toList)
  pure (ciphertext.toList, secret)

/-- The input of the combiner, in the fixed order both sides use. -/
def hybridIkm (ssMlkem ssX25519 : List.Vector B 32) (mlkemCiphertext : List B)
    (ephPub recipientX25519Pub : List.Vector B X25519_PUBLIC_LEN) : List B :=
  ssMlkem.toList ++ ssX25519.toList ++ mlkemCiphertext ++ ephPub.toList ++
    recipientX25519Pub.toList

variable [Byte B]

def hybridWrapKey (ssMlkem ssX25519 : List.Vector B 32) (mlkemCiphertext : List B)
    (ephPub recipientX25519Pub : List.Vector B X25519_PUBLIC_LEN) :
    Prog P (List.Vector B 32) :=
  hkdfSubkey P (hybridIkm ssMlkem ssX25519 mlkemCiphertext ephPub recipientX25519Pub)
    HKDF_INFO_VAULT_KEY_WRAP

def wrapVaultKeyForUser (vaultKey : VaultKey B) (recipient : UserPublicKeys B) :
    Prog P (WrappedVaultKey B) := do
  let ephSecret ← fillBytes .ephemeralSecret 32
  let ephPub := P.x25519PublicKey ephSecret
  let sharedSecret := P.diffieHellman ephSecret recipient.x25519.bytes
  if !P.wasContributory sharedSecret then
    Run.fail .invalidPublicKey
  else
    let (mlkemCiphertext, ssMlkem) ← mlkemEncapsulate P recipient.mlkem
    let wrapKey ←
      hybridWrapKey P ssMlkem sharedSecret mlkemCiphertext ephPub recipient.x25519.bytes
    let (cipher, nonceBytes, nonce) ← newXchachaCipher P wrapKey []
    let sealed ← aeadEncrypt .xchacha20Poly1305 cipher.toList nonce.toList []
      vaultKey.expose.toList
    let ciphertext ← Run.lift (.okOr .keyWrap sealed)
    pure {
      ephPubKey := ephPub
      mlkemCiphertext
      encryptedVaultKey := nonceBytes.toList ++ ciphertext }

def unwrapVaultKey (wrapped : WrappedVaultKey B) (keypair : UserKeypair B) :
    Prog P (VaultKey B) := do
  let myStatic := P.x25519StaticSecret keypair.x25519Private
  let sharedSecret := P.diffieHellman myStatic wrapped.ephPubKey
  if !P.wasContributory sharedSecret then
    Run.fail .invalidPublicKey
  else
    let ssMlkem ← Run.lift (keypair.mlkemDecapsulate P wrapped.mlkemCiphertext)
    let wrapKey ← hybridWrapKey P ssMlkem sharedSecret wrapped.mlkemCiphertext
      wrapped.ephPubKey keypair.x25519Public.bytes
    if wrapped.encryptedVaultKey.length < XCHACHA_NONCE_LEN then
      Run.fail (.invalidInput "wrapped vault key too short")
    else
      let head ← Run.lift (sliceTo wrapped.encryptedVaultKey XCHACHA_NONCE_LEN)
      let nonceBytes ← Run.lift (.okOr (.invalidInput "nonce extraction failed")
        (tryIntoArray XCHACHA_NONCE_LEN head))
      let ciphertext ← Run.lift (sliceFrom wrapped.encryptedVaultKey XCHACHA_NONCE_LEN)
      let (cipher, _, nonce) ← newXchachaCipherFromNonce P wrapKey nonceBytes []
      let opened ← aeadDecrypt .xchacha20Poly1305 cipher.toList nonce.toList [] ciphertext
      let vaultKeyBytes ← Run.lift (.okOr .keyUnwrap opened)
      if vaultKeyBytes.length ≠ 32 then
        Run.fail (.invalidInput "decrypted vault key wrong length")
      else
        let key ← Run.lift (copyFromSlice 32 vaultKeyBytes)
        pure ⟨key⟩

end

/-! ## What each call returns and does to the world -/

section Specifications
variable {P : Crates B}

theorem hybridIkm_inj {s s' x x' : List.Vector B 32} {c c' : List B}
    {e e' r r' : List.Vector B X25519_PUBLIC_LEN}
    (h : hybridIkm s x c e r = hybridIkm s' x' c' e' r') :
    s = s' ∧ x = x' ∧ c = c' ∧ e = e' ∧ r = r' := by
  unfold hybridIkm at h
  obtain ⟨h, hr⟩ := List.append_inj' h (by simp)
  obtain ⟨hsecrets, hc, he⟩ := append_middle_inj (by simp) (by simp) h
  obtain ⟨hs, hx⟩ := List.append_inj hsecrets (by simp)
  exact ⟨toList_injective hs, toList_injective hx, hc, toList_injective he, toList_injective hr⟩

theorem mlkemEncapsulate_of_valid {recipientPub : MlKem768PublicKey B} {w : World P}
    (h : P.mlkemKeyIsValid recipientPub.bytes = true) :
    mlkemEncapsulate P recipientPub w =
      (.ok ((P.encapsulateDeterministic recipientPub.bytes (w.next .encapsulation 32)).1.toList,
        (P.encapsulateDeterministic recipientPub.bytes (w.next .encapsulation 32)).2),
        w.draw .encapsulation 32) := by
  unfold mlkemEncapsulate
  simp only [tryIntoArray_toList, Outcome.okOr_some, Run.lift_ok_bind, newEncapsulationKey]
  rw [if_pos h]
  simp only [Outcome.okOr_some, Run.lift_ok_bind]
  rw [Run.bind_of_ok (fillBytes_apply .encapsulation 32 w)]
  simp only [copyFromSlice_toList, Run.lift_ok_bind, Run.pure_apply]

theorem mlkemEncapsulate_of_invalid {recipientPub : MlKem768PublicKey B} {w : World P}
    (h : P.mlkemKeyIsValid recipientPub.bytes = false) :
    mlkemEncapsulate P recipientPub w = (.err .invalidPublicKey, w) := by
  unfold mlkemEncapsulate
  simp only [tryIntoArray_toList, Outcome.okOr_some, Run.lift_ok_bind, newEncapsulationKey, h]
  rfl

theorem mlkemDecapsulate_of_some {keypair : UserKeypair B} {ct : List B}
    {ss : List.Vector B 32} (h : P.decapsulateSlice keypair.mlkemDecap ct = some ss) :
    keypair.mlkemDecapsulate P ct = .ok ss := by
  unfold UserKeypair.mlkemDecapsulate
  rw [h, Outcome.okOr_some, Outcome.ok_bind, copyFromSlice_toList]

theorem mlkemDecapsulate_of_none {keypair : UserKeypair B} {ct : List B}
    (h : P.decapsulateSlice keypair.mlkemDecap ct = none) :
    keypair.mlkemDecapsulate P ct = .err (.invalidInput
      s!"ML-KEM-768 ciphertext must be {MLKEM768_CIPHERTEXT_LEN} bytes, got {ct.length}") := by
  unfold UserKeypair.mlkemDecapsulate
  rw [h, Outcome.okOr_none, Outcome.err_bind]

/-- What a sender draws for one wrap. -/
structure WrapCoins (B : Type) where
  ephSecret : List.Vector B 32
  m : List.Vector B 32
  nonce : List.Vector B XCHACHA_NONCE_LEN

/-- The next coins of the generator, in the order of the draws. -/
def World.wrapCoins (w : World P) : WrapCoins B where
  ephSecret := w.next .ephemeralSecret 32
  m := (w.draw .ephemeralSecret 32).next .encapsulation 32
  nonce := ((w.draw .ephemeralSecret 32).draw .encapsulation 32).next .nonce XCHACHA_NONCE_LEN

/-- The mixed input on the sender's side. -/
def Crates.senderIkm (P : Crates B) (recipient : UserPublicKeys B) (coins : WrapCoins B) :
    List B :=
  let kem := P.encapsulateDeterministic recipient.mlkem.bytes coins.m
  hybridIkm kem.2 (P.diffieHellman coins.ephSecret recipient.x25519.bytes) kem.1.toList
    (P.x25519PublicKey coins.ephSecret) recipient.x25519.bytes

/-- The mixed input on the recipient's side, once `ss` has been decapsulated. -/
def Crates.recipientIkm (P : Crates B) (keypair : UserKeypair B) (wrapped : WrappedVaultKey B)
    (ss : List.Vector B 32) : List B :=
  hybridIkm ss (P.diffieHellman (P.x25519StaticSecret keypair.x25519Private) wrapped.ephPubKey)
    wrapped.mlkemCiphertext wrapped.ephPubKey keypair.x25519Public.bytes

/-- The wrap as a function of its coins and of what the cipher returned. -/
def Crates.wrapOf (P : Crates B) (recipient : UserPublicKeys B) (coins : WrapCoins B)
    (ct : List B) : WrappedVaultKey B where
  ephPubKey := P.x25519PublicKey coins.ephSecret
  mlkemCiphertext := (P.encapsulateDeterministic recipient.mlkem.bytes coins.m).1.toList
  encryptedVaultKey := coins.nonce.toList ++ ct

/-- The recipient's keys pass both of the sender's checks. -/
structure Crates.Accepts (P : Crates B) (recipient : UserPublicKeys B) (coins : WrapCoins B) :
    Prop where
  contributory :
    P.wasContributory (P.diffieHellman coins.ephSecret recipient.x25519.bytes) = true
  valid : P.mlkemKeyIsValid recipient.mlkem.bytes = true

variable [Byte B]

abbrev Crates.hybridKey (P : Crates B) (ikm : List B) : List.Vector B 32 :=
  P.subkey ikm HKDF_INFO_VAULT_KEY_WRAP

/-- The world when a sender is about to seal. -/
def World.wrapReady (w : World P) (recipient : UserPublicKeys B) : World P :=
  (((w.draw .ephemeralSecret 32).draw .encapsulation 32).subkey
    (P.senderIkm recipient w.wrapCoins) HKDF_INFO_VAULT_KEY_WRAP).draw .nonce XCHACHA_NONCE_LEN

theorem World.extends_wrapReady (w : World P) (recipient : UserPublicKeys B) :
    w.Extends (w.wrapReady recipient) :=
  (((w.extends_draw _ _).trans (World.extends_draw _ _ _)).trans
    (World.extends_subkey _ _ _)).trans (World.extends_draw _ _ _)

section
variable {vaultKey : VaultKey B} {recipient : UserPublicKeys B} {w w' : World P}

theorem wrapVaultKeyForUser_of_weak
    (h : P.wasContributory (P.diffieHellman w.wrapCoins.ephSecret recipient.x25519.bytes) =
      false) :
    wrapVaultKeyForUser P vaultKey recipient w =
      (.err .invalidPublicKey, w.draw .ephemeralSecret 32) := by
  have hcheck : (!P.wasContributory
      (P.diffieHellman (w.next .ephemeralSecret 32) recipient.x25519.bytes)) = true := by
    rw [Bool.not_eq_true']
    exact h
  unfold wrapVaultKeyForUser
  rw [Run.bind_of_ok (fillBytes_apply .ephemeralSecret 32 w), if_pos hcheck]
  rfl

theorem wrapVaultKeyForUser_of_invalid
    (h : P.wasContributory (P.diffieHellman w.wrapCoins.ephSecret recipient.x25519.bytes) = true)
    (hinvalid : P.mlkemKeyIsValid recipient.mlkem.bytes = false) :
    wrapVaultKeyForUser P vaultKey recipient w =
      (.err .invalidPublicKey, w.draw .ephemeralSecret 32) := by
  have hcheck : ¬ (!P.wasContributory
      (P.diffieHellman (w.next .ephemeralSecret 32) recipient.x25519.bytes)) = true := by
    rw [Bool.not_eq_true', Bool.not_eq_false]
    exact h
  unfold wrapVaultKeyForUser
  rw [Run.bind_of_ok (fillBytes_apply .ephemeralSecret 32 w), if_neg hcheck]
  rw [Run.bind_of_err (mlkemEncapsulate_of_invalid hinvalid)]

/-- Past both checks a wrap comes down to one sealing. -/
theorem wrapVaultKeyForUser_apply (h : P.Accepts recipient w.wrapCoins) :
    wrapVaultKeyForUser P vaultKey recipient w =
      (do
        let sealed ← aeadEncrypt .xchacha20Poly1305
          (P.hybridKey (P.senderIkm recipient w.wrapCoins)).toList w.wrapCoins.nonce.toList []
          vaultKey.expose.toList
        let ciphertext ← Run.lift (.okOr .keyWrap sealed)
        pure (P.wrapOf recipient w.wrapCoins ciphertext) : Prog P _) (w.wrapReady recipient) := by
  have hcheck : ¬ (!P.wasContributory
      (P.diffieHellman (w.next .ephemeralSecret 32) recipient.x25519.bytes)) = true := by
    rw [Bool.not_eq_true', Bool.not_eq_false]
    exact h.contributory
  unfold wrapVaultKeyForUser
  rw [Run.bind_of_ok (fillBytes_apply .ephemeralSecret 32 w), if_neg hcheck]
  rw [Run.bind_of_ok (mlkemEncapsulate_of_valid h.valid)]
  unfold hybridWrapKey
  rw [Run.bind_of_ok (hkdfSubkey_apply ..)]
  rw [Run.bind_of_ok (newXchachaCipher_of_ok (purposeKey_raw ..))]
  rfl

theorem wrapVaultKeyForUser_of_some {ct : List B} (h : P.Accepts recipient w.wrapCoins)
    (henc : (P.aead .xchacha20Poly1305).encrypt
      (P.hybridKey (P.senderIkm recipient w.wrapCoins)).toList w.wrapCoins.nonce.toList []
      vaultKey.expose.toList = some ct) :
    wrapVaultKeyForUser P vaultKey recipient w =
      (.ok (P.wrapOf recipient w.wrapCoins ct),
        (w.wrapReady recipient).record .xchacha20Poly1305 henc) := by
  rw [wrapVaultKeyForUser_apply h]
  exact seal_of_some _ _ _ henc

theorem wrapVaultKeyForUser_of_none (h : P.Accepts recipient w.wrapCoins)
    (henc : (P.aead .xchacha20Poly1305).encrypt
      (P.hybridKey (P.senderIkm recipient w.wrapCoins)).toList w.wrapCoins.nonce.toList []
      vaultKey.expose.toList = none) :
    wrapVaultKeyForUser P vaultKey recipient w =
      (.err .keyWrap, (w.wrapReady recipient).refuse .xchacha20Poly1305
        (P.hybridKey (P.senderIkm recipient w.wrapCoins)).toList w.wrapCoins.nonce.toList) := by
  rw [wrapVaultKeyForUser_apply h]
  exact seal_of_none _ _ _ henc

/-- A wrap is sealed, or turned down by the cipher, or fails on a check before
anything is given to the cipher. -/
theorem wrapVaultKeyForUser_cases :
    (∃ ct, ∃ henc : (P.aead .xchacha20Poly1305).encrypt
        (P.hybridKey (P.senderIkm recipient w.wrapCoins)).toList w.wrapCoins.nonce.toList []
        vaultKey.expose.toList = some ct,
      P.Accepts recipient w.wrapCoins ∧
      wrapVaultKeyForUser P vaultKey recipient w =
        (.ok (P.wrapOf recipient w.wrapCoins ct),
          (w.wrapReady recipient).record .xchacha20Poly1305 henc)) ∨
    wrapVaultKeyForUser P vaultKey recipient w =
      (.err .keyWrap, (w.wrapReady recipient).refuse .xchacha20Poly1305
        (P.hybridKey (P.senderIkm recipient w.wrapCoins)).toList w.wrapCoins.nonce.toList) ∨
    wrapVaultKeyForUser P vaultKey recipient w =
      (.err .invalidPublicKey, w.draw .ephemeralSecret 32) := by
  cases hc : P.wasContributory (P.diffieHellman w.wrapCoins.ephSecret recipient.x25519.bytes) with
  | false => exact .inr (.inr (wrapVaultKeyForUser_of_weak hc))
  | true =>
      cases hv : P.mlkemKeyIsValid recipient.mlkem.bytes with
      | false => exact .inr (.inr (wrapVaultKeyForUser_of_invalid hc hv))
      | true =>
          rcases Option.eq_none_or_eq_some ((P.aead .xchacha20Poly1305).encrypt
            (P.hybridKey (P.senderIkm recipient w.wrapCoins)).toList w.wrapCoins.nonce.toList []
            vaultKey.expose.toList) with henc | ⟨ct, henc⟩
          · exact .inr (.inl (wrapVaultKeyForUser_of_none ⟨hc, hv⟩ henc))
          · exact .inl ⟨ct, henc, ⟨hc, hv⟩, wrapVaultKeyForUser_of_some ⟨hc, hv⟩ henc⟩

theorem wrapVaultKeyForUser_eq_ok {wrapped : WrappedVaultKey B} :
    wrapVaultKeyForUser P vaultKey recipient w = (.ok wrapped, w') ↔
      P.Accepts recipient w.wrapCoins ∧
      ∃ ct, ∃ henc : (P.aead .xchacha20Poly1305).encrypt
          (P.hybridKey (P.senderIkm recipient w.wrapCoins)).toList w.wrapCoins.nonce.toList []
          vaultKey.expose.toList = some ct,
        wrapped = P.wrapOf recipient w.wrapCoins ct ∧
        w' = (w.wrapReady recipient).record .xchacha20Poly1305 henc := by
  constructor
  · intro hok
    rcases wrapVaultKeyForUser_cases (P := P) (w := w) with ⟨ct, henc, hacc, heq⟩ | heq | heq
    · rw [heq] at hok
      cases hok
      exact ⟨hacc, ct, henc, rfl, rfl⟩
    · rw [heq] at hok
      cases hok
    · rw [heq] at hok
      cases hok
  · intro hok
    obtain ⟨hacc, ct, henc, rfl, rfl⟩ := hok
    exact wrapVaultKeyForUser_of_some hacc henc

theorem wrapVaultKeyForUser_extends {wrapped : WrappedVaultKey B}
    (h : wrapVaultKeyForUser P vaultKey recipient w = (.ok wrapped, w')) : w.Extends w' := by
  obtain ⟨-, ct, henc, -, rfl⟩ := wrapVaultKeyForUser_eq_ok.mp h
  exact (w.extends_wrapReady recipient).trans (World.extends_record _ henc)

end

section
variable {wrapped : WrappedVaultKey B} {keypair : UserKeypair B} {w w' : World P}

theorem unwrapVaultKey_of_weak
    (h : P.wasContributory (P.diffieHellman (P.x25519StaticSecret keypair.x25519Private)
      wrapped.ephPubKey) = false) :
    unwrapVaultKey P wrapped keypair w = (.err .invalidPublicKey, w) := by
  unfold unwrapVaultKey
  simp only [h, Bool.not_false, if_true]
  rfl

theorem unwrapVaultKey_of_not_decapsulated
    (h : P.wasContributory (P.diffieHellman (P.x25519StaticSecret keypair.x25519Private)
      wrapped.ephPubKey) = true)
    (hkem : P.decapsulateSlice keypair.mlkemDecap wrapped.mlkemCiphertext = none) :
    unwrapVaultKey P wrapped keypair w =
      (.err (.invalidInput
        s!"ML-KEM-768 ciphertext must be {MLKEM768_CIPHERTEXT_LEN} bytes, got {
          wrapped.mlkemCiphertext.length}"), w) := by
  unfold unwrapVaultKey
  simp only [h, Bool.not_true, Bool.false_eq_true, if_false, mlkemDecapsulate_of_none hkem]
  rfl

/-- What is left once both secrets are there: the mix, the lengths, one opening. -/
theorem unwrapVaultKey_of_secrets {ss : List.Vector B 32}
    (h : P.wasContributory (P.diffieHellman (P.x25519StaticSecret keypair.x25519Private)
      wrapped.ephPubKey) = true)
    (hkem : P.decapsulateSlice keypair.mlkemDecap wrapped.mlkemCiphertext = some ss) :
    unwrapVaultKey P wrapped keypair w =
      (if wrapped.encryptedVaultKey.length < XCHACHA_NONCE_LEN then
          .err (.invalidInput "wrapped vault key too short")
        else openedKey "decrypted vault key wrong length"
          ((P.aead .xchacha20Poly1305).decrypt (w.history .xchacha20Poly1305).sealings
            (P.hybridKey (P.recipientIkm keypair wrapped ss)).toList
            (wrapped.encryptedVaultKey.take XCHACHA_NONCE_LEN) []
            (wrapped.encryptedVaultKey.drop XCHACHA_NONCE_LEN)),
        w.subkey (P.recipientIkm keypair wrapped ss) HKDF_INFO_VAULT_KEY_WRAP) := by
  unfold unwrapVaultKey hybridWrapKey
  simp only [h, Bool.not_true, Bool.false_eq_true, if_false, mlkemDecapsulate_of_some hkem,
    Run.lift_ok_bind]
  rw [Run.bind_of_ok (hkdfSubkey_apply ..)]
  by_cases hshort : wrapped.encryptedVaultKey.length < XCHACHA_NONCE_LEN
  · rw [if_pos hshort, if_pos hshort]
    rfl
  · have hle := not_lt.mp hshort
    have htake : (wrapped.encryptedVaultKey.take XCHACHA_NONCE_LEN).length =
        XCHACHA_NONCE_LEN := by
      simp [hle]
    rw [if_neg hshort, if_neg hshort]
    simp only [sliceTo_of_le hle, sliceFrom_of_le hle, tryIntoArray_of_length htake,
      Outcome.okOr_some, Run.lift_ok_bind]
    rw [Run.bind_of_ok (newXchachaCipherFromNonce_of_ok _ (purposeKey_raw ..))]
    rw [Run.bind_of_ok (aeadDecrypt_apply ..)]
    simp only [World.subkey_history, asArray_toList]
    change _ = (openedKey _ ((P.aead .xchacha20Poly1305).decrypt _
      (P.subkey (P.recipientIkm keypair wrapped ss) HKDF_INFO_VAULT_KEY_WRAP).toList _ _ _), _)
    unfold Crates.recipientIkm
    exact openedKey_apply ..

/-- A key comes out only of a blob that opens under the recipient's mix. -/
theorem unwrapVaultKey_eq_ok {vk : VaultKey B} :
    unwrapVaultKey P wrapped keypair w = (.ok vk, w') ↔
      P.wasContributory (P.diffieHellman (P.x25519StaticSecret keypair.x25519Private)
        wrapped.ephPubKey) = true ∧
      ∃ ss, P.decapsulateSlice keypair.mlkemDecap wrapped.mlkemCiphertext = some ss ∧
        XCHACHA_NONCE_LEN ≤ wrapped.encryptedVaultKey.length ∧
        w' = w.subkey (P.recipientIkm keypair wrapped ss) HKDF_INFO_VAULT_KEY_WRAP ∧
        (P.aead .xchacha20Poly1305).decrypt (w.history .xchacha20Poly1305).sealings
          (P.hybridKey (P.recipientIkm keypair wrapped ss)).toList
          (wrapped.encryptedVaultKey.take XCHACHA_NONCE_LEN) []
          (wrapped.encryptedVaultKey.drop XCHACHA_NONCE_LEN) = some vk.expose.toList := by
  constructor
  · intro hok
    cases hc : P.wasContributory (P.diffieHellman (P.x25519StaticSecret keypair.x25519Private)
        wrapped.ephPubKey) with
    | false =>
        rw [unwrapVaultKey_of_weak hc] at hok
        cases hok
    | true =>
        cases hkem : P.decapsulateSlice keypair.mlkemDecap wrapped.mlkemCiphertext with
        | none =>
            rw [unwrapVaultKey_of_not_decapsulated hc hkem] at hok
            cases hok
        | some ss =>
            rw [unwrapVaultKey_of_secrets hc hkem, Prod.mk.injEq] at hok
            by_cases hshort : wrapped.encryptedVaultKey.length < XCHACHA_NONCE_LEN
            · rw [if_pos hshort] at hok
              cases hok.1
            · rw [if_neg hshort, openedKey_eq_ok] at hok
              exact ⟨rfl, ss, rfl, not_lt.mp hshort, hok.2.symm, hok.1⟩
  · intro hok
    obtain ⟨hc, ss, hkem, hle, rfl, hdec⟩ := hok
    rw [unwrapVaultKey_of_secrets hc hkem, if_neg (not_lt.mpr hle), hdec]
    rw [openedKey_eq_ok.mpr rfl]

end
end Specifications
end EvnxCrypto
