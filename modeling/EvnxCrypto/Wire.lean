import EvnxCrypto.Base64
import EvnxCrypto.Sharing

/-!
# The text forms of keys, sealed seeds and wraps

Every type crosses the network as base64 inside JSON. For each decoder one lemma
says which texts it accepts and as what, following the order of its steps: it
returns that value or an `invalidInput`, and it never slices out of bounds.
-/
namespace EvnxCrypto
open Effect ByteString

abbrev POLY1305_TAG_LEN : ℕ := 16

variable {B T : Type} (base64 : Codec (List B) T)

def Ed25519PublicKey.toBase64 (key : Ed25519PublicKey B) : T := b64Encode base64 key.bytes.toList

def Ed25519PublicKey.fromBase64 (s : T) : Result (Ed25519PublicKey B) := do
  let bytes ← b64DecodeArray base64 32 s "ed25519_public_key"
  pure ⟨bytes⟩

def X25519PublicKeyBytes.toBase64 (key : X25519PublicKeyBytes B) : T :=
  b64Encode base64 key.bytes.toList

def X25519PublicKeyBytes.fromBase64 (s : T) : Result (X25519PublicKeyBytes B) := do
  let bytes ← b64DecodeArray base64 X25519_PUBLIC_LEN s "x25519_public_key"
  pure ⟨bytes⟩

def MlKem768PublicKey.toBase64 (key : MlKem768PublicKey B) : T :=
  b64Encode base64 key.bytes.toList

def MlKem768PublicKey.fromBase64 (s : T) : Result (MlKem768PublicKey B) := do
  let bytes ← b64DecodeArray base64 MLKEM768_PUBLIC_LEN s "mlkem_public_key"
  pure ⟨bytes⟩

def UserPublicKeys.fromBase64 (x25519B64 mlkemB64 : T) : Result (UserPublicKeys B) := do
  let x25519 ← X25519PublicKeyBytes.fromBase64 base64 x25519B64
  let mlkem ← MlKem768PublicKey.fromBase64 base64 mlkemB64
  pure { x25519, mlkem }

def UserKeypair.ed25519PublicBase64 (keypair : UserKeypair B) : T :=
  keypair.ed25519Public.toBase64 base64

def UserKeypair.mlkemPublicBase64 (keypair : UserKeypair B) : T :=
  keypair.mlkemPublic.toBase64 base64

def UserKeypair.x25519PublicBase64 (keypair : UserKeypair B) : T :=
  keypair.x25519Public.toBase64 base64

def EncryptedPrivateKey.toBase64 (enc : EncryptedPrivateKey B) : T :=
  b64Encode base64 (enc.nonce.toList ++ enc.ciphertext)

def EncryptedPrivateKey.fromBase64 (s : T) : Result (EncryptedPrivateKey B) := do
  let bytes ← b64Decode base64 s "encrypted_private_key"
  let minLen := XCHACHA_NONCE_LEN + POLY1305_TAG_LEN
  if bytes.length < minLen then
    .err (.invalidInput
      s!"encrypted_private_key: expected at least {minLen} bytes, got {bytes.length}")
  else
    let head ← sliceTo bytes XCHACHA_NONCE_LEN
    let nonce ← copyFromSlice XCHACHA_NONCE_LEN head
    let ciphertext ← sliceFrom bytes XCHACHA_NONCE_LEN
    pure { nonce, ciphertext }

namespace WrappedVaultKey

def encryptedVaultKeyBase64 (wrapped : WrappedVaultKey B) : T :=
  b64Encode base64 wrapped.encryptedVaultKey

def ephPubKeyBase64 (wrapped : WrappedVaultKey B) : T :=
  b64Encode base64 wrapped.ephPubKey.toList

def mlkemCiphertextBase64 (wrapped : WrappedVaultKey B) : T :=
  b64Encode base64 wrapped.mlkemCiphertext

def fromBase64 (encryptedVaultKeyB64 ephPubKeyB64 mlkemCiphertextB64 : T) :
    Result (WrappedVaultKey B) := do
  let mlkemCiphertext ← b64Decode base64 mlkemCiphertextB64 "mlkem_ciphertext"
  if mlkemCiphertext.length ≠ MLKEM768_CIPHERTEXT_LEN then
    .err (.invalidInput
      s!"mlkem_ciphertext must be {MLKEM768_CIPHERTEXT_LEN} bytes, got {mlkemCiphertext.length}")
  else
    let ephPubKey ← b64DecodeArray base64 X25519_PUBLIC_LEN ephPubKeyB64 "eph_pub_key"
    let encryptedVaultKey ← b64Decode base64 encryptedVaultKeyB64 "encrypted_vault_key"
    pure { ephPubKey, mlkemCiphertext, encryptedVaultKey }

end WrappedVaultKey

variable {base64}

/-! ## What each decoder accepts -/

/-- The three kinds of public key are one fixed-length array in a wrapper. -/
theorem b64DecodeArray_wrap_decides (h : base64.Strict) {N : ℕ} {α : Type} (s : T)
    (what : String) {wrap : List.Vector B N → α} {bytes : α → List.Vector B N}
    (hwrap : ∀ v, bytes (wrap v) = v) (hbytes : ∀ a, wrap (bytes a) = a) :
    DecidesInput (b64DecodeArray base64 N s what >>= fun v => pure (wrap v))
      fun a => s = b64Encode base64 (bytes a).toList := by
  have hfinal : ∀ v, s = b64Encode base64 v.toList →
      DecidesInput (pure (wrap v) : Result α) (wrap v = ·) :=
    fun v _ => Decides.value (wrap v)
  apply ((b64DecodeArray_decides h N s what).bind hfinal).congr
  intro a
  constructor
  · intro ha
    rcases ha with ⟨v, hs, rfl⟩
    rw [hwrap, hs]
  · intro hs
    exact ⟨bytes a, hs, hbytes a⟩

theorem Ed25519PublicKey.fromBase64_decides (h : base64.Strict) (s : T) :
    DecidesInput (Ed25519PublicKey.fromBase64 base64 s) fun v => s = v.toBase64 base64 :=
  b64DecodeArray_wrap_decides h s _ (fun _ => rfl) fun _ => rfl

theorem X25519PublicKeyBytes.fromBase64_decides (h : base64.Strict) (s : T) :
    DecidesInput (X25519PublicKeyBytes.fromBase64 base64 s) fun v => s = v.toBase64 base64 :=
  b64DecodeArray_wrap_decides h s _ (fun _ => rfl) fun _ => rfl

theorem MlKem768PublicKey.fromBase64_decides (h : base64.Strict) (s : T) :
    DecidesInput (MlKem768PublicKey.fromBase64 base64 s) fun v => s = v.toBase64 base64 :=
  b64DecodeArray_wrap_decides h s _ (fun _ => rfl) fun _ => rfl

theorem saltFromBase64_decides (h : base64.Strict) (s : T) :
    DecidesInput (saltFromBase64 base64 s) fun v => s = saltToBase64 base64 v :=
  b64DecodeArray_decides h _ s _

theorem UserPublicKeys.fromBase64_decides (h : base64.Strict) (x m : T) :
    DecidesInput (UserPublicKeys.fromBase64 base64 x m)
      fun u => x = u.x25519.toBase64 base64 ∧ m = u.mlkem.toBase64 base64 := by
  have hmlkem : ∀ x25519 : X25519PublicKeyBytes B, x = x25519.toBase64 base64 →
      DecidesInput (MlKem768PublicKey.fromBase64 base64 m >>= fun mlkem =>
        pure (⟨x25519, mlkem⟩ : UserPublicKeys B))
        fun u => ∃ mlkem, m = mlkem.toBase64 base64 ∧ ⟨x25519, mlkem⟩ = u :=
    fun _ _ => (MlKem768PublicKey.fromBase64_decides h m).bind fun _ _ => Decides.value _
  apply ((X25519PublicKeyBytes.fromBase64_decides h x).bind hmlkem).congr
  intro u
  constructor
  · intro hu
    obtain ⟨x25519, hx, mlkem, hm, rfl⟩ := hu
    exact ⟨hx, hm⟩
  · intro hu
    exact ⟨u.x25519, hu.1, u.mlkem, hu.2, rfl⟩

/-- A byte string that holds a nonce splits into one and a rest in one way. -/
theorem splitNonce_decides {bytes : List B} (hle : XCHACHA_NONCE_LEN ≤ bytes.length) :
    DecidesInput (do
        let head ← sliceTo bytes XCHACHA_NONCE_LEN
        let nonce ← copyFromSlice XCHACHA_NONCE_LEN head
        let ciphertext ← sliceFrom bytes XCHACHA_NONCE_LEN
        pure (⟨nonce, ciphertext⟩ : EncryptedPrivateKey B))
      fun v => bytes = v.nonce.toList ++ v.ciphertext := by
  have htake : (bytes.take XCHACHA_NONCE_LEN).length = XCHACHA_NONCE_LEN := by
    simp [hle]
  simp only [sliceTo_of_le hle, sliceFrom_of_le hle, copyFromSlice_of_length htake,
    Outcome.ok_bind, Outcome.pure_eq]
  apply (Decides.value _).congr
  intro v
  constructor
  · intro hv
    subst hv
    exact (List.take_append_drop _ _).symm
  · intro hv
    rcases v with ⟨nonce, ct⟩
    subst hv
    rw [EncryptedPrivateKey.mk.injEq]
    constructor
    · apply toList_injective
      exact take_append_of_length nonce.toList_length
    · exact drop_append_of_length nonce.toList_length

theorem EncryptedPrivateKey.fromBase64_decides (h : base64.Strict) (s : T) :
    DecidesInput (EncryptedPrivateKey.fromBase64 base64 s)
      fun v => s = v.toBase64 base64 ∧ POLY1305_TAG_LEN ≤ v.ciphertext.length := by
  have hchecked : ∀ bytes : List B, s = b64Encode base64 bytes → DecidesInput
      (if bytes.length < XCHACHA_NONCE_LEN + POLY1305_TAG_LEN then
        .err (.invalidInput s!"encrypted_private_key: expected at least {
          XCHACHA_NONCE_LEN + POLY1305_TAG_LEN} bytes, got {bytes.length}")
      else do
        let head ← sliceTo bytes XCHACHA_NONCE_LEN
        let nonce ← copyFromSlice XCHACHA_NONCE_LEN head
        let ciphertext ← sliceFrom bytes XCHACHA_NONCE_LEN
        pure (⟨nonce, ciphertext⟩ : EncryptedPrivateKey B))
      fun v => ¬ bytes.length < XCHACHA_NONCE_LEN + POLY1305_TAG_LEN ∧
        bytes = v.nonce.toList ++ v.ciphertext := by
    intro bytes _
    apply Decides.guard ⟨_, rfl⟩
    intro hlen
    exact splitNonce_decides (le_trans (Nat.le_add_right _ _) (not_lt.mp hlen))
  apply ((b64Decode_decides h s "encrypted_private_key").bind hchecked).congr
  intro v
  constructor
  · intro hv
    obtain ⟨bytes, hs, hlen, rfl⟩ := hv
    simp only [List.length_append, List.Vector.toList_length] at hlen
    exact ⟨hs, by omega⟩
  · intro hv
    refine ⟨v.nonce.toList ++ v.ciphertext, hv.1, ?_, rfl⟩
    simp only [List.length_append, List.Vector.toList_length]
    omega

theorem WrappedVaultKey.fromBase64_decides (h : base64.Strict) (e p c : T) :
    DecidesInput (WrappedVaultKey.fromBase64 base64 e p c) fun w =>
      e = w.encryptedVaultKeyBase64 base64 ∧ p = w.ephPubKeyBase64 base64 ∧
        c = w.mlkemCiphertextBase64 base64 ∧
        w.mlkemCiphertext.length = MLKEM768_CIPHERTEXT_LEN := by
  have hrest : ∀ ct : List B,
      DecidesInput (do
          let ephPubKey ← b64DecodeArray base64 X25519_PUBLIC_LEN p "eph_pub_key"
          let encryptedVaultKey ← b64Decode base64 e "encrypted_vault_key"
          pure (⟨ephPubKey, ct, encryptedVaultKey⟩ : WrappedVaultKey B))
        fun w => ∃ eph, p = b64Encode base64 eph.toList ∧ ∃ evk, e = b64Encode base64 evk ∧
          ⟨eph, ct, evk⟩ = w := by
    intro ct
    apply (b64DecodeArray_decides h X25519_PUBLIC_LEN p "eph_pub_key").bind
    intro eph _
    apply (b64Decode_decides h e "encrypted_vault_key").bind
    intro evk _
    exact Decides.value _
  have hchecked : ∀ ct : List B, c = b64Encode base64 ct → DecidesInput
      (if ct.length ≠ MLKEM768_CIPHERTEXT_LEN then
        .err (.invalidInput
          s!"mlkem_ciphertext must be {MLKEM768_CIPHERTEXT_LEN} bytes, got {ct.length}")
      else do
        let ephPubKey ← b64DecodeArray base64 X25519_PUBLIC_LEN p "eph_pub_key"
        let encryptedVaultKey ← b64Decode base64 e "encrypted_vault_key"
        pure (⟨ephPubKey, ct, encryptedVaultKey⟩ : WrappedVaultKey B))
      fun w => ¬ ct.length ≠ MLKEM768_CIPHERTEXT_LEN ∧
        ∃ eph, p = b64Encode base64 eph.toList ∧ ∃ evk, e = b64Encode base64 evk ∧
          ⟨eph, ct, evk⟩ = w := by
    intro ct _
    exact Decides.guard ⟨_, rfl⟩ fun _ => hrest ct
  apply ((b64Decode_decides h c "mlkem_ciphertext").bind hchecked).congr
  intro w
  constructor
  · intro hw
    obtain ⟨ct, hc, hlen, eph, hp, evk, he, rfl⟩ := hw
    exact ⟨he, hp, hc, not_not.mp hlen⟩
  · intro hw
    obtain ⟨he, hp, hc, hlen⟩ := hw
    exact ⟨w.mlkemCiphertext, hc, not_not.mpr hlen, w.ephPubKey, hp, w.encryptedVaultKey, he,
      rfl⟩

/-- Every decoder of the wire format reads exactly the encodings of admissible
values, and answers every other text with `invalidInput`. -/
theorem fromBase64_iff_encoding {base64 : Codec (List B) String} (h : base64.Strict) :
    (∀ N s what, DecidesInput (b64DecodeArray base64 N s what)
      fun v => s = b64Encode base64 v.toList) ∧
    (∀ s, DecidesInput (saltFromBase64 base64 s) fun v => s = saltToBase64 base64 v) ∧
    (∀ s, DecidesInput (Ed25519PublicKey.fromBase64 base64 s)
      fun v => s = v.toBase64 base64) ∧
    (∀ s, DecidesInput (X25519PublicKeyBytes.fromBase64 base64 s)
      fun v => s = v.toBase64 base64) ∧
    (∀ s, DecidesInput (MlKem768PublicKey.fromBase64 base64 s)
      fun v => s = v.toBase64 base64) ∧
    (∀ s, DecidesInput (EncryptedPrivateKey.fromBase64 base64 s)
      fun v => s = v.toBase64 base64 ∧ 16 ≤ v.ciphertext.length) ∧
    (∀ e p c, DecidesInput (WrappedVaultKey.fromBase64 base64 e p c) fun w =>
      e = w.encryptedVaultKeyBase64 base64 ∧ p = w.ephPubKeyBase64 base64 ∧
        c = w.mlkemCiphertextBase64 base64 ∧ w.mlkemCiphertext.length = 1088) ∧
    (∀ x m, DecidesInput (UserPublicKeys.fromBase64 base64 x m)
      fun u => x = u.x25519.toBase64 base64 ∧ m = u.mlkem.toBase64 base64) :=
  ⟨b64DecodeArray_decides h, saltFromBase64_decides h, Ed25519PublicKey.fromBase64_decides h,
    X25519PublicKeyBytes.fromBase64_decides h, MlKem768PublicKey.fromBase64_decides h,
    EncryptedPrivateKey.fromBase64_decides h, WrappedVaultKey.fromBase64_decides h,
    UserPublicKeys.fromBase64_decides h⟩

/-- The smallest sealed seed the format admits: a zero nonce and a zero tag. -/
theorem fromBase64_iff_encoding_zeros :
    EncryptedPrivateKey.fromBase64 Base64.codec
        "AAAAAAAAAAAAAAAAAAAAAAAAAAAAAAAAAAAAAAAAAAAAAAAAAAAAAA==" =
      .ok ⟨List.Vector.replicate XCHACHA_NONCE_LEN 0, List.replicate 16 0⟩ := by
  obtain ⟨-, -, -, -, -, henc, -⟩ := fromBase64_iff_encoding Base64.codec_strict
  apply (henc _).eq_ok
  constructor
  · decide +kernel
  · simp

end EvnxCrypto
