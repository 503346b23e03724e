import EvnxCrypto.Vault

/-!
# User keypairs

Every key of a user descends from one Ed25519 seed. `Crates.keypairOf` is that
descent as a function; the three constructors of the source are written out in
full and shown to compute it. The two private keys use different HKDF tags.
-/
namespace EvnxCrypto
open Effect ByteString AuthenticatedEncryption

abbrev ED25519_PRIVATE_LEN : ℕ := 32
abbrev X25519_PRIVATE_LEN : ℕ := 32
abbrev X25519_PUBLIC_LEN : ℕ := 32
abbrev MLKEM_SEED_LEN : ℕ := 64
abbrev MLKEM768_PUBLIC_LEN : ℕ := 1184

variable {B : Type}

section
variable [Byte B]

def HKDF_INFO_PRIVATE_KEY_ENC : List B := asBytes "evnx-private-key-enc-v1"
def HKDF_INFO_X25519_DERIVE : List B := asBytes "evnx-x25519-from-ed25519-v1"
def HKDF_INFO_MLKEM_DERIVE : List B := asBytes "evnx/mlkem768/v1"

end

structure Ed25519PublicKey (B : Type) where
  bytes : List.Vector B 32
  deriving DecidableEq

@[ext] structure X25519PublicKeyBytes (B : Type) where
  bytes : List.Vector B X25519_PUBLIC_LEN
  deriving DecidableEq

structure MlKem768PublicKey (B : Type) where
  bytes : List.Vector B MLKEM768_PUBLIC_LEN
  deriving DecidableEq

def MlKem768PublicKey.fromBytes (bytes : List B) : Result (MlKem768PublicKey B) := do
  let arr ← .okOr (.invalidInput
    s!"ML-KEM-768 public key must be {MLKEM768_PUBLIC_LEN} bytes, got {bytes.length}")
    (tryIntoArray MLKEM768_PUBLIC_LEN bytes)
  pure ⟨arr⟩

structure UserKeypair (B : Type) where
  ed25519PrivateSeed : List.Vector B ED25519_PRIVATE_LEN
  ed25519Public : Ed25519PublicKey B
  x25519Private : List.Vector B X25519_PRIVATE_LEN
  x25519Public : X25519PublicKeyBytes B
  mlkemDecap : DecapsulationKey768 B
  mlkemPublic : MlKem768PublicKey B
  deriving DecidableEq

@[ext] structure EncryptedPrivateKey (B : Type) where
  nonce : List.Vector B XCHACHA_NONCE_LEN
  ciphertext : List B
  deriving DecidableEq

structure UserPublicKeys (B : Type) where
  x25519 : X25519PublicKeyBytes B
  mlkem : MlKem768PublicKey B
  deriving DecidableEq

def UserKeypair.publicKeys (keypair : UserKeypair B) : UserPublicKeys B where
  x25519 := keypair.x25519Public
  mlkem := keypair.mlkemPublic

section
variable (P : Crates B)

/-- The key of a new cipher: the given one, or a subkey where a tag is given.
Both constructors below begin with it. -/
def purposeKey (rawKey : List.Vector B 32) (info : List B) : Prog P (List.Vector B 32) := do
  if info.isEmpty then
    pure rawKey
  else
    let derived ← hkdfExpand rawKey.toList info 32
    Run.lift (.okOr (.kdf "HKDF expand failed") derived)

def newXchachaCipher (rawKey : List.Vector B 32) (info : List B) :
    Prog P (List.Vector B AEAD_KEY_LEN × List.Vector B XCHACHA_NONCE_LEN ×
      List.Vector B XCHACHA_NONCE_LEN) := do
  let keyBytes ← purposeKey P rawKey info
  let cipher ← Run.lift (.okOr .keyWrap (newFromSlice keyBytes.toList))
  let nonceBytes ← fillBytes .nonce XCHACHA_NONCE_LEN
  let nonce ← Run.lift (copyFromSlice XCHACHA_NONCE_LEN nonceBytes.toList)
  pure (cipher, nonceBytes, nonce)

def newXchachaCipherFromNonce (rawKey : List.Vector B 32)
    (nonceBytes : List.Vector B XCHACHA_NONCE_LEN) (info : List B) :
    Prog P (List.Vector B AEAD_KEY_LEN × List.Vector B XCHACHA_NONCE_LEN ×
      List.Vector B XCHACHA_NONCE_LEN) := do
  let keyBytes ← purposeKey P rawKey info
  let cipher ← Run.lift (.okOr .keyUnwrap (newFromSlice keyBytes.toList))
  let nonce ← Run.lift (copyFromSlice XCHACHA_NONCE_LEN nonceBytes.toList)
  pure (cipher, nonceBytes, nonce)

variable [Byte B]

def deriveX25519FromEd25519Seed (ed25519Seed : List.Vector B ED25519_PRIVATE_LEN) :
    Prog P (List.Vector B X25519_PRIVATE_LEN) := do
  let derived ← hkdfExpand ed25519Seed.toList HKDF_INFO_X25519_DERIVE X25519_PRIVATE_LEN
  Run.lift (.okOr (.kdf "HKDF expand failed for X25519 derivation") derived)

def deriveMlkemFromEd25519Seed (ed25519Seed : List.Vector B ED25519_PRIVATE_LEN) :
    Prog P (DecapsulationKey768 B × MlKem768PublicKey B) := do
  let derived ← hkdfExpand ed25519Seed.toList HKDF_INFO_MLKEM_DERIVE MLKEM_SEED_LEN
  let seed ← Run.lift (.okOr (.kdf "HKDF expand failed for ML-KEM derivation") derived)
  let decap := P.mlkemFromSeed seed
  let public' ← Run.lift (MlKem768PublicKey.fromBytes (P.mlkemEncapsulationKey decap).toList)
  pure (decap, public')

def generateKeypair : Prog P (UserKeypair B) := do
  let ed25519PrivateSeed ← fillBytes .seed ED25519_PRIVATE_LEN
  let ed25519Public := ⟨P.ed25519VerifyingKey ed25519PrivateSeed⟩
  let x25519PrivateBytes ← (deriveX25519FromEd25519Seed P ed25519PrivateSeed).expect
  let x25519Static := P.x25519StaticSecret x25519PrivateBytes
  let x25519Public := ⟨P.x25519PublicKey x25519Static⟩
  let (mlkemDecap, mlkemPublic) ← (deriveMlkemFromEd25519Seed P ed25519PrivateSeed).expect
  pure {
    ed25519PrivateSeed, ed25519Public
    x25519Private := x25519Static
    x25519Public, mlkemDecap, mlkemPublic }

def encryptPrivateKey (keypair : UserKeypair B) (masterKey : MasterKey B) :
    Prog P (EncryptedPrivateKey B) := do
  let (cipher, nonceBytes, nonce) ←
    newXchachaCipher P masterKey.expose HKDF_INFO_PRIVATE_KEY_ENC
  let sealed ← aeadEncrypt .xchacha20Poly1305 cipher.toList nonce.toList []
    keypair.ed25519PrivateSeed.toList
  let ciphertext ← Run.lift (.okOr .keyWrap sealed)
  pure { nonce := nonceBytes, ciphertext }

def decryptPrivateKey (enc : EncryptedPrivateKey B) (masterKey : MasterKey B) :
    Prog P (UserKeypair B) := do
  let (cipher, _, nonce) ←
    newXchachaCipherFromNonce P masterKey.expose enc.nonce HKDF_INFO_PRIVATE_KEY_ENC
  let opened ← aeadDecrypt .xchacha20Poly1305 cipher.toList nonce.toList [] enc.ciphertext
  let seedBytes ← Run.lift (.okOr .keyUnwrap opened)
  if seedBytes.length ≠ ED25519_PRIVATE_LEN then
    Run.fail (.invalidInput
      s!"expected {ED25519_PRIVATE_LEN} byte seed, got {seedBytes.length}")
  else
    let seed ← Run.lift (copyFromSlice ED25519_PRIVATE_LEN seedBytes)
    let ed25519Public := ⟨P.ed25519VerifyingKey seed⟩
    let x25519Private ← deriveX25519FromEd25519Seed P seed
    let x25519Static := P.x25519StaticSecret x25519Private
    let x25519Public := ⟨P.x25519PublicKey x25519Static⟩
    let (mlkemDecap, mlkemPublic) ← deriveMlkemFromEd25519Seed P seed
    pure {
      ed25519PrivateSeed := seed
      ed25519Public
      x25519Private := x25519Static
      x25519Public, mlkemDecap, mlkemPublic }

def UserKeypair.fromEd25519SeedForTest (seed : List.Vector B ED25519_PRIVATE_LEN) :
    Prog P (UserKeypair B) := do
  let ed25519Public := ⟨P.ed25519VerifyingKey seed⟩
  let x25519Private ← (deriveX25519FromEd25519Seed P seed).expect
  let x25519Static := P.x25519StaticSecret x25519Private
  let x25519Public := ⟨P.x25519PublicKey x25519Static⟩
  let (mlkemDecap, mlkemPublic) ← (deriveMlkemFromEd25519Seed P seed).expect
  pure {
    ed25519PrivateSeed := seed
    ed25519Public
    x25519Private := x25519Static
    x25519Public, mlkemDecap, mlkemPublic }

end

/-! ## What each call returns and does to the world -/

section Specifications
variable {P : Crates B}

theorem MlKem768PublicKey.fromBytes_toList (v : List.Vector B MLKEM768_PUBLIC_LEN) :
    MlKem768PublicKey.fromBytes v.toList = .ok ⟨v⟩ := by
  unfold MlKem768PublicKey.fromBytes
  rw [tryIntoArray_toList]
  rfl

/-- A cipher made without a tag is keyed by the raw key. -/
theorem purposeKey_raw (rawKey : List.Vector B 32) (w : World P) :
    purposeKey P rawKey [] w = (.ok rawKey, w) := rfl

theorem purposeKey_apply {info : List B} (hinfo : info ≠ []) (rawKey : List.Vector B 32)
    (w : World P) : purposeKey P rawKey info w =
      (.ok (P.subkey rawKey.toList info), w.subkey rawKey.toList info) := by
  have hempty : ¬ info.isEmpty = true := by
    rwa [List.isEmpty_iff]
  unfold purposeKey
  rw [if_neg hempty, Run.bind_of_ok (hkdfExpand_apply ..)]
  rfl

theorem newXchachaCipher_of_ok {rawKey key : List.Vector B 32} {info : List B}
    {w w' : World P} (h : purposeKey P rawKey info w = (.ok key, w')) :
    newXchachaCipher P rawKey info w =
      (.ok (key, w'.next .nonce XCHACHA_NONCE_LEN, w'.next .nonce XCHACHA_NONCE_LEN),
        w'.draw .nonce XCHACHA_NONCE_LEN) := by
  unfold newXchachaCipher
  rw [Run.bind_of_ok h]
  simp only [newFromSlice_toList, Outcome.okOr_some, Run.lift_ok_bind]
  rw [Run.bind_of_ok (fillBytes_apply .nonce XCHACHA_NONCE_LEN w')]
  simp only [copyFromSlice_toList, Run.lift_ok_bind, Run.pure_apply]

theorem newXchachaCipherFromNonce_of_ok {rawKey key : List.Vector B 32} {info : List B}
    {w w' : World P} (nonce : List.Vector B XCHACHA_NONCE_LEN)
    (h : purposeKey P rawKey info w = (.ok key, w')) :
    newXchachaCipherFromNonce P rawKey nonce info w = (.ok (key, nonce, nonce), w') := by
  unfold newXchachaCipherFromNonce
  rw [Run.bind_of_ok h]
  simp only [newFromSlice_toList, copyFromSlice_toList, Outcome.okOr_some, Run.lift_ok_bind,
    Run.pure_apply]

variable [Byte B]

/-! ### The key pair of a seed -/

/-- The bytes of the X25519 secret that descends from a seed. -/
def Crates.x25519SecretOf (P : Crates B) (seed : List.Vector B 32) : List.Vector B 32 :=
  P.x25519StaticSecret (P.subkey seed.toList HKDF_INFO_X25519_DERIVE)

def Crates.mlkemDecapOf (P : Crates B) (seed : List.Vector B 32) : DecapsulationKey768 B :=
  P.mlkemFromSeed (P.okm seed.toList HKDF_INFO_MLKEM_DERIVE MLKEM_SEED_LEN (by decide))

/-- The whole identity as a function of its seed. -/
def Crates.keypairOf (P : Crates B) (seed : List.Vector B 32) : UserKeypair B where
  ed25519PrivateSeed := seed
  ed25519Public := ⟨P.ed25519VerifyingKey seed⟩
  x25519Private := P.x25519SecretOf seed
  x25519Public := ⟨P.x25519PublicKey (P.x25519SecretOf seed)⟩
  mlkemDecap := P.mlkemDecapOf seed
  mlkemPublic := ⟨P.mlkemEncapsulationKey (P.mlkemDecapOf seed)⟩

/-- The world once both private keys have been derived from a seed. -/
def World.deriveIdentity (w : World P) (seed : List.Vector B 32) : World P :=
  (w.subkey seed.toList HKDF_INFO_X25519_DERIVE).expand seed.toList HKDF_INFO_MLKEM_DERIVE
    MLKEM_SEED_LEN (by decide)

theorem World.extends_deriveIdentity (w : World P) (seed : List.Vector B 32) :
    w.Extends (w.deriveIdentity seed) :=
  (w.extends_subkey _ _).trans (World.extends_expand _ _ _ _)

theorem deriveX25519FromEd25519Seed_apply (seed : List.Vector B 32) (w : World P) :
    deriveX25519FromEd25519Seed P seed w =
      (.ok (P.subkey seed.toList HKDF_INFO_X25519_DERIVE),
        w.subkey seed.toList HKDF_INFO_X25519_DERIVE) := by
  unfold deriveX25519FromEd25519Seed
  rw [Run.bind_of_ok (hkdfExpand_apply ..)]
  rfl

theorem deriveMlkemFromEd25519Seed_apply (seed : List.Vector B 32) (w : World P) :
    deriveMlkemFromEd25519Seed P seed w =
      (.ok ((P.keypairOf seed).mlkemDecap, (P.keypairOf seed).mlkemPublic),
        w.expand seed.toList HKDF_INFO_MLKEM_DERIVE MLKEM_SEED_LEN (by decide)) := by
  unfold deriveMlkemFromEd25519Seed
  rw [Run.bind_of_ok (hkdfExpand_apply ..)]
  simp only [Outcome.okOr_some, Run.lift_ok_bind, MlKem768PublicKey.fromBytes_toList]
  rfl

theorem fromEd25519SeedForTest_apply (seed : List.Vector B 32) (w : World P) :
    UserKeypair.fromEd25519SeedForTest P seed w =
      (.ok (P.keypairOf seed), w.deriveIdentity seed) := by
  unfold UserKeypair.fromEd25519SeedForTest
  rw [Run.bind_of_ok (Run.expect_of_ok (deriveX25519FromEd25519Seed_apply seed w))]
  rw [Run.bind_of_ok (Run.expect_of_ok (deriveMlkemFromEd25519Seed_apply seed _))]
  rfl

theorem generateKeypair_apply (w : World P) :
    generateKeypair P w =
      (.ok (P.keypairOf (w.next .seed ED25519_PRIVATE_LEN)),
        (w.draw .seed ED25519_PRIVATE_LEN).deriveIdentity (w.next .seed ED25519_PRIVATE_LEN)) := by
  unfold generateKeypair
  rw [Run.bind_of_ok (fillBytes_apply .seed ED25519_PRIVATE_LEN w)]
  rw [Run.bind_of_ok (Run.expect_of_ok (deriveX25519FromEd25519Seed_apply _ _))]
  rw [Run.bind_of_ok (Run.expect_of_ok (deriveMlkemFromEd25519Seed_apply _ _))]
  rfl

/-! ### Sealing the seed -/

theorem private_key_info_ne_nil : (HKDF_INFO_PRIVATE_KEY_ENC : List B) ≠ [] :=
  asBytes_ne_nil (by decide)

/-- The key a seed is sealed under. -/
abbrev Crates.sealSubkey (P : Crates B) (masterKey : MasterKey B) : List.Vector B 32 :=
  P.subkey masterKey.expose.toList HKDF_INFO_PRIVATE_KEY_ENC

abbrev World.sealSubkey (w : World P) (masterKey : MasterKey B) : World P :=
  w.subkey masterKey.expose.toList HKDF_INFO_PRIVATE_KEY_ENC

section
variable {keypair : UserKeypair B} {masterKey : MasterKey B} {w w' : World P}

theorem encryptPrivateKey_apply :
    encryptPrivateKey P keypair masterKey w =
      (do
        let sealed ← aeadEncrypt .xchacha20Poly1305 (P.sealSubkey masterKey).toList
          (w.next .nonce XCHACHA_NONCE_LEN).toList [] keypair.ed25519PrivateSeed.toList
        let ciphertext ← Run.lift (.okOr .keyWrap sealed)
        pure ⟨w.next .nonce XCHACHA_NONCE_LEN, ciphertext⟩ : Prog P _)
        ((w.sealSubkey masterKey).draw .nonce XCHACHA_NONCE_LEN) := by
  unfold encryptPrivateKey
  rw [Run.bind_of_ok (newXchachaCipher_of_ok (purposeKey_apply private_key_info_ne_nil _ w))]
  simp only [World.subkey_next]

theorem encryptPrivateKey_of_some {ct : List B}
    (h : (P.aead .xchacha20Poly1305).encrypt (P.sealSubkey masterKey).toList
      (w.next .nonce XCHACHA_NONCE_LEN).toList [] keypair.ed25519PrivateSeed.toList = some ct) :
    encryptPrivateKey P keypair masterKey w =
      (.ok ⟨w.next .nonce XCHACHA_NONCE_LEN, ct⟩,
        ((w.sealSubkey masterKey).draw .nonce XCHACHA_NONCE_LEN).record .xchacha20Poly1305 h) := by
  rw [encryptPrivateKey_apply]
  exact seal_of_some _ _ _ h

theorem encryptPrivateKey_of_none
    (h : (P.aead .xchacha20Poly1305).encrypt (P.sealSubkey masterKey).toList
      (w.next .nonce XCHACHA_NONCE_LEN).toList [] keypair.ed25519PrivateSeed.toList = none) :
    encryptPrivateKey P keypair masterKey w =
      (.err .keyWrap, ((w.sealSubkey masterKey).draw .nonce XCHACHA_NONCE_LEN).refuse
        .xchacha20Poly1305 (P.sealSubkey masterKey).toList
        (w.next .nonce XCHACHA_NONCE_LEN).toList) := by
  rw [encryptPrivateKey_apply]
  exact seal_of_none _ _ _ h

variable (keypair masterKey w) in
theorem encryptPrivateKey_cases :
    (∃ ct, ∃ henc : (P.aead .xchacha20Poly1305).encrypt (P.sealSubkey masterKey).toList
        (w.next .nonce XCHACHA_NONCE_LEN).toList [] keypair.ed25519PrivateSeed.toList = some ct,
      encryptPrivateKey P keypair masterKey w =
        (.ok ⟨w.next .nonce XCHACHA_NONCE_LEN, ct⟩,
          ((w.sealSubkey masterKey).draw .nonce XCHACHA_NONCE_LEN).record .xchacha20Poly1305
            henc)) ∨
    encryptPrivateKey P keypair masterKey w =
      (.err .keyWrap, ((w.sealSubkey masterKey).draw .nonce XCHACHA_NONCE_LEN).refuse
        .xchacha20Poly1305 (P.sealSubkey masterKey).toList
        (w.next .nonce XCHACHA_NONCE_LEN).toList) := by
  rcases Option.eq_none_or_eq_some ((P.aead .xchacha20Poly1305).encrypt
    (P.sealSubkey masterKey).toList (w.next .nonce XCHACHA_NONCE_LEN).toList []
    keypair.ed25519PrivateSeed.toList) with henc | ⟨ct, henc⟩
  · exact .inr (encryptPrivateKey_of_none henc)
  · exact .inl ⟨ct, henc, encryptPrivateKey_of_some henc⟩

/-- Only the seed is sealed, whatever else the key pair holds. -/
theorem encryptPrivateKey_eq_ok {enc : EncryptedPrivateKey B} :
    encryptPrivateKey P keypair masterKey w = (.ok enc, w') ↔
      enc.nonce = w.next .nonce XCHACHA_NONCE_LEN ∧
      ∃ h : (P.aead .xchacha20Poly1305).encrypt (P.sealSubkey masterKey).toList
          enc.nonce.toList [] keypair.ed25519PrivateSeed.toList = some enc.ciphertext,
        w' = ((w.sealSubkey masterKey).draw .nonce XCHACHA_NONCE_LEN).record
          .xchacha20Poly1305 h := by
  constructor
  · intro hok
    rcases encryptPrivateKey_cases keypair masterKey w with ⟨ct, henc, heq⟩ | heq
    · rw [heq] at hok
      cases hok
      exact ⟨rfl, henc, rfl⟩
    · rw [heq] at hok
      cases hok
  · intro hok
    rcases enc with ⟨nonce, ct⟩
    rcases hok with ⟨rfl, h, rfl⟩
    exact encryptPrivateKey_of_some h

theorem encryptPrivateKey_extends {enc : EncryptedPrivateKey B}
    (h : encryptPrivateKey P keypair masterKey w = (.ok enc, w')) : w.Extends w' := by
  obtain ⟨-, henc, rfl⟩ := encryptPrivateKey_eq_ok.mp h
  exact ((w.extends_subkey _ _).trans (World.extends_draw _ _ _)).trans
    (World.extends_record _ henc)

variable {enc : EncryptedPrivateKey B}

theorem decryptPrivateKey_of_none
    (h : (P.aead .xchacha20Poly1305).decrypt (w.history .xchacha20Poly1305).sealings
      (P.sealSubkey masterKey).toList enc.nonce.toList [] enc.ciphertext = none) :
    decryptPrivateKey P enc masterKey w = (.err .keyUnwrap, w.sealSubkey masterKey) := by
  unfold decryptPrivateKey
  rw [Run.bind_of_ok (newXchachaCipherFromNonce_of_ok _
    (purposeKey_apply private_key_info_ne_nil _ w))]
  rw [Run.bind_of_ok (aeadDecrypt_apply ..)]
  simp only [World.subkey_history, h]
  rfl

theorem decryptPrivateKey_of_length {opened : List B}
    (h : (P.aead .xchacha20Poly1305).decrypt (w.history .xchacha20Poly1305).sealings
      (P.sealSubkey masterKey).toList enc.nonce.toList [] enc.ciphertext = some opened)
    (hlen : opened.length ≠ ED25519_PRIVATE_LEN) :
    decryptPrivateKey P enc masterKey w =
      (.err (.invalidInput
        s!"expected {ED25519_PRIVATE_LEN} byte seed, got {opened.length}"),
        w.sealSubkey masterKey) := by
  unfold decryptPrivateKey
  rw [Run.bind_of_ok (newXchachaCipherFromNonce_of_ok _
    (purposeKey_apply private_key_info_ne_nil _ w))]
  rw [Run.bind_of_ok (aeadDecrypt_apply ..)]
  simp only [World.subkey_history, h, Outcome.okOr_some, Run.lift_ok_bind]
  rw [if_pos hlen]
  rfl

theorem decryptPrivateKey_of_some {seed : List.Vector B ED25519_PRIVATE_LEN}
    (h : (P.aead .xchacha20Poly1305).decrypt (w.history .xchacha20Poly1305).sealings
      (P.sealSubkey masterKey).toList enc.nonce.toList [] enc.ciphertext = some seed.toList) :
    decryptPrivateKey P enc masterKey w =
      (.ok (P.keypairOf seed), (w.sealSubkey masterKey).deriveIdentity seed) := by
  have hlen : ¬ seed.toList.length ≠ ED25519_PRIVATE_LEN := not_not.mpr seed.toList_length
  unfold decryptPrivateKey
  rw [Run.bind_of_ok (newXchachaCipherFromNonce_of_ok _
    (purposeKey_apply private_key_info_ne_nil _ w))]
  rw [Run.bind_of_ok (aeadDecrypt_apply ..)]
  simp only [World.subkey_history, h, Outcome.okOr_some, Run.lift_ok_bind]
  rw [if_neg hlen]
  simp only [copyFromSlice_toList, Run.lift_ok_bind]
  rw [Run.bind_of_ok (deriveX25519FromEd25519Seed_apply seed _)]
  rw [Run.bind_of_ok (deriveMlkemFromEd25519Seed_apply seed _)]
  rfl

/-- A key pair comes out only of a blob that opens to exactly its seed. -/
theorem decryptPrivateKey_eq_ok {keypair : UserKeypair B} :
    decryptPrivateKey P enc masterKey w = (.ok keypair, w') ↔
      keypair = P.keypairOf keypair.ed25519PrivateSeed ∧
      w' = (w.sealSubkey masterKey).deriveIdentity keypair.ed25519PrivateSeed ∧
      (P.aead .xchacha20Poly1305).decrypt (w.history .xchacha20Poly1305).sealings
        (P.sealSubkey masterKey).toList enc.nonce.toList [] enc.ciphertext =
          some keypair.ed25519PrivateSeed.toList := by
  constructor
  · intro hok
    rcases Option.eq_none_or_eq_some ((P.aead .xchacha20Poly1305).decrypt
      (w.history .xchacha20Poly1305).sealings (P.sealSubkey masterKey).toList
      enc.nonce.toList [] enc.ciphertext) with h | ⟨opened, h⟩
    · rw [decryptPrivateKey_of_none h] at hok
      cases hok
    · by_cases hlen : opened.length = ED25519_PRIVATE_LEN
      · rw [← asArray_toList hlen] at h
        rw [decryptPrivateKey_of_some h] at hok
        cases hok
        exact ⟨rfl, rfl, h⟩
      · rw [decryptPrivateKey_of_length h hlen] at hok
        cases hok
  · intro hok
    rcases hok with ⟨heq, rfl, h⟩
    rw [decryptPrivateKey_of_some h, ← heq]

end
end Specifications
end EvnxCrypto
