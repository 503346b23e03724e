import EvnxCrypto.Safety
import EvnxCrypto.Wasm

/-!
# No panic on hostile input

Each path from an attacker's bytes to a slice, an array conversion or an `expect`
is followed on its own. The parsers bound what they slice, but the fields of the
parsed types are public: the openers are safe for every value, so nothing rests
on a value having gone through a parser.
-/
namespace EvnxCrypto
open Effect ByteString AuthenticatedEncryption

variable {B T : Type} {P : Crates B} {base64 : Codec (List B) T}

/-! ## Calls to the crates -/

theorem fillBytes_safe (p : Purpose) (n : ℕ) :
    (fillBytes p n : Prog P _).Safe fun _ => True := fun _ => trivial

theorem aeadDecrypt_safe (c : Cipher) (key nonce aad ct : List B) :
    (aeadDecrypt c key nonce aad ct : Prog P _).Safe fun _ => True := fun _ => trivial

theorem hkdfExpand_safe (ikm info : List B) (n : ℕ) :
    (hkdfExpand ikm info n : Prog P _).Safe fun _ => True := by
  intro w
  unfold hkdfExpand
  split
  · exact trivial
  · exact trivial

/-- `ok_or` on what a crate returned. -/
theorem okOr_safe {α : Type} (e : CryptoError) (o : Option α) :
    (Run.lift (.okOr e o) : Prog P α).Safe fun a => o = some a :=
  .lift (.okOr e o)

/-- What every opener does with the cipher's answer: the length check is the
guard of the copy after it. -/
theorem openedArray_safe {α : Type} (n : ℕ) (message : List B → CryptoError)
    (opened : Option (List B)) {f : List.Vector B n → Prog P α}
    (hf : ∀ bytes, (f bytes).Safe fun _ => True) :
    (do
      let plaintext ← Run.lift (.okOr .keyUnwrap opened)
      if plaintext.length ≠ n then
        Run.fail (message plaintext)
      else
        let bytes ← Run.lift (copyFromSlice n plaintext)
        f bytes : Prog P α).Safe fun _ => True := by
  apply (okOr_safe _ _).bind
  intro plaintext _
  apply Run.Safe.guard
  intro hlen
  apply (Run.Safe.lift (.copyFromSlice (not_not.mp hlen))).bind
  intro bytes _
  exact hf bytes

/-! ## Parsers -/

theorem b64Decode_safe (s : T) (what : String) : (b64Decode base64 s what).Safe fun _ => True := by
  apply Outcome.Safe.mono (Outcome.Safe.okOr _ _)
  intro _ _
  exact trivial

theorem b64DecodeArray_safe (N : ℕ) (s : T) (what : String) :
    (b64DecodeArray base64 N s what).Safe fun _ => True := by
  apply (b64Decode_safe s what).bind
  intro bytes _
  apply Outcome.Safe.guard
  intro hlen
  exact .copyFromSlice (not_not.mp hlen)

theorem EncryptedPrivateKey.fromBase64_safe (s : T) :
    (EncryptedPrivateKey.fromBase64 base64 s).Safe fun _ => True := by
  apply (b64Decode_safe s _).bind
  intro bytes _
  apply Outcome.Safe.guard
  intro hlen
  have hle : XCHACHA_NONCE_LEN ≤ bytes.length :=
    le_trans (Nat.le_add_right _ _) (not_lt.mp hlen)
  apply (Outcome.Safe.sliceTo hle).bind
  intro head hhead
  apply (Outcome.Safe.copyFromSlice hhead).bind
  intro nonce _
  apply (Outcome.Safe.sliceFrom hle).bind
  intro ciphertext _
  exact trivial

theorem WrappedVaultKey.fromBase64_safe (e p c : T) :
    (WrappedVaultKey.fromBase64 base64 e p c).Safe fun _ => True := by
  apply (b64Decode_safe c _).bind
  intro mlkemCiphertext _
  apply Outcome.Safe.guard
  intro _
  apply (b64DecodeArray_safe _ p _).bind
  intro ephPubKey _
  apply (b64Decode_safe e _).bind
  intro encryptedVaultKey _
  exact trivial

theorem MlKem768PublicKey.fromBytes_safe (bytes : List B) :
    (MlKem768PublicKey.fromBytes bytes).Safe fun _ => True := by
  apply (Outcome.Safe.okOr _ _).bind
  intro arr _
  exact trivial

/-! ## Ciphers from derived keys -/

theorem purposeKey_safe (rawKey : List.Vector B 32) (info : List B) :
    (purposeKey P rawKey info).Safe fun _ => True := by
  unfold purposeKey
  by_cases hinfo : info.isEmpty = true
  · rw [if_pos hinfo]
    exact .pure trivial
  · rw [if_neg hinfo]
    apply (hkdfExpand_safe _ _ _).bind
    intro derived _
    exact (okOr_safe _ _).mono fun _ _ => trivial

theorem hkdfSubkey_safe (ikm info : List B) : (hkdfSubkey P ikm info).Safe fun _ => True := by
  apply (hkdfExpand_safe _ _ _).bind
  intro key _
  exact (okOr_safe _ _).mono fun _ _ => trivial

theorem newXchachaCipherFromNonce_safe (rawKey : List.Vector B 32)
    (nonce : List.Vector B XCHACHA_NONCE_LEN) (info : List B) :
    (newXchachaCipherFromNonce P rawKey nonce info).Safe fun _ => True := by
  apply (purposeKey_safe rawKey info).bind
  intro keyBytes _
  apply (okOr_safe _ _).bind
  intro cipher _
  apply (Run.Safe.lift (.copyFromSlice nonce.toList_length)).bind
  intro nonce _
  exact .pure trivial

/-! ## Openers -/

theorem decryptVault_safe (blob : EncryptedBlob B) (vaultKey : VaultKey B) (aad : List B) :
    (decryptVault P blob vaultKey aad).Safe fun _ => True := by
  apply (Run.Safe.lift (.copyFromSlice vaultKey.expose.toList_length)).bind
  intro key _
  apply (Run.Safe.lift (.copyFromSlice blob.nonce.toList_length)).bind
  intro nonce _
  apply (aeadDecrypt_safe _ _ _ _ _).bind
  intro opened _
  exact (okOr_safe _ _).mono fun _ _ => trivial

theorem mlkemDecapsulate_safe (keypair : UserKeypair B) (ct : List B) :
    (keypair.mlkemDecapsulate P ct).Safe fun _ => True := by
  apply (Outcome.Safe.okOr _ _).bind
  intro shared _
  exact .copyFromSlice shared.toList_length

theorem mlkemEncapsulate_safe (recipientPub : MlKem768PublicKey B) :
    (mlkemEncapsulate P recipientPub).Safe fun _ => True := by
  apply (okOr_safe _ _).bind
  intro encoded _
  apply (okOr_safe _ _).bind
  intro ek _
  apply (fillBytes_safe _ _).bind
  intro m _
  apply (Run.Safe.lift (.copyFromSlice (List.Vector.toList_length _))).bind
  intro secret _
  exact .pure trivial

variable [Byte B]

/-- The browser's blob is split only where it holds a nonce. -/
theorem wasm_decryptVault_safe (blob : List B) (vk : Wasm.VaultKeyHandle B) (vaultId : String)
    (version : UInt32) : (Wasm.decryptVault P blob vk vaultId version).Safe fun _ => True := by
  apply Run.Safe.guard
  intro hlen
  have hle : NONCE_LEN ≤ blob.length := not_lt.mp hlen
  apply (Run.Safe.lift (.sliceTo hle)).bind
  intro n hn
  apply (Run.Safe.lift (.sliceFrom hle)).bind
  intro c _
  apply (Run.Safe.lift (.copyFromSlice hn)).bind
  intro nonce _
  exact (decryptVault_safe _ _ _).mapErr _

theorem unwrapVaultKeyWithMasterKey_safe (wrapped : List B) (masterKey : MasterKey B) :
    (unwrapVaultKeyWithMasterKey P wrapped masterKey).Safe fun _ => True := by
  apply Run.Safe.guard
  intro hlen
  have hle : XCHACHA_NONCE_LEN ≤ wrapped.length :=
    le_trans (Nat.le_add_right _ _) (not_lt.mp hlen)
  apply (hkdfSubkey_safe _ _).bind
  intro subkey _
  apply (okOr_safe _ _).bind
  intro cipher _
  apply (Run.Safe.lift (.sliceTo hle)).bind
  intro head hhead
  apply (Run.Safe.lift (.copyFromSlice hhead)).bind
  intro nonce _
  apply (Run.Safe.lift (.sliceFrom hle)).bind
  intro tail _
  apply (aeadDecrypt_safe _ _ _ _ _).bind
  intro opened _
  exact openedArray_safe VAULT_KEY_LEN (fun _ => _) opened fun key => .pure trivial

theorem deriveX25519FromEd25519Seed_safe (seed : List.Vector B ED25519_PRIVATE_LEN) :
    (deriveX25519FromEd25519Seed P seed).Safe fun _ => True := by
  apply (hkdfExpand_safe _ _ _).bind
  intro derived _
  exact (okOr_safe _ _).mono fun _ _ => trivial

theorem deriveMlkemFromEd25519Seed_safe (seed : List.Vector B ED25519_PRIVATE_LEN) :
    (deriveMlkemFromEd25519Seed P seed).Safe fun _ => True := by
  apply (hkdfExpand_safe _ _ _).bind
  intro derived _
  apply (okOr_safe _ _).bind
  intro seed _
  apply (Run.Safe.lift (MlKem768PublicKey.fromBytes_safe _)).bind
  intro pk _
  exact .pure trivial

theorem decryptPrivateKey_safe (enc : EncryptedPrivateKey B) (masterKey : MasterKey B) :
    (decryptPrivateKey P enc masterKey).Safe fun _ => True := by
  apply (newXchachaCipherFromNonce_safe _ _ _).bind
  rintro ⟨cipher, _, nonce⟩ _
  apply (aeadDecrypt_safe _ _ _ _ _).bind
  intro opened _
  apply openedArray_safe ED25519_PRIVATE_LEN (fun bytes => .invalidInput
    s!"expected {ED25519_PRIVATE_LEN} byte seed, got {bytes.length}") opened
  intro seed
  apply (deriveX25519FromEd25519Seed_safe seed).bind
  intro x25519Private _
  apply (deriveMlkemFromEd25519Seed_safe seed).bind
  rintro ⟨decap, pk⟩ _
  exact .pure trivial

/-- The wrap carries lengths of its own: the check before the split is the only
guard, and the cipher gets whatever is left. -/
theorem unwrapVaultKey_safe (wrapped : WrappedVaultKey B) (keypair : UserKeypair B) :
    (unwrapVaultKey P wrapped keypair).Safe fun _ => True := by
  apply Run.Safe.guard
  intro _
  apply (Run.Safe.lift (mlkemDecapsulate_safe keypair _)).bind
  intro ssMlkem _
  apply (hkdfSubkey_safe _ _).bind
  intro wrapKey _
  apply Run.Safe.guard
  intro hlen
  have hle : XCHACHA_NONCE_LEN ≤ wrapped.encryptedVaultKey.length := not_lt.mp hlen
  apply (Run.Safe.lift (.sliceTo hle)).bind
  intro head _
  apply (okOr_safe _ _).bind
  intro nonceBytes _
  apply (Run.Safe.lift (.sliceFrom hle)).bind
  intro ciphertext _
  apply (newXchachaCipherFromNonce_safe _ _ _).bind
  rintro ⟨cipher, _, nonce⟩ _
  apply (aeadDecrypt_safe _ _ _ _ _).bind
  intro opened _
  exact openedArray_safe VAULT_KEY_LEN (fun _ => _) opened fun key => .pure trivial

/-! ## The two `expect`s -/

theorem deriveX25519_expect_safe (seed : List.Vector B ED25519_PRIVATE_LEN) :
    (deriveX25519FromEd25519Seed P seed).expect.Safe fun _ => True :=
  .expect fun w => ⟨_, trivial, congrArg Prod.fst (deriveX25519FromEd25519Seed_apply seed w)⟩

theorem deriveMlkem_expect_safe (seed : List.Vector B ED25519_PRIVATE_LEN) :
    (deriveMlkemFromEd25519Seed P seed).expect.Safe fun _ => True :=
  .expect fun w => ⟨_, trivial, congrArg Prod.fst (deriveMlkemFromEd25519Seed_apply seed w)⟩

theorem fromEd25519SeedForTest_safe (seed : List.Vector B ED25519_PRIVATE_LEN) :
    (UserKeypair.fromEd25519SeedForTest P seed).Safe fun _ => True := by
  apply (deriveX25519_expect_safe seed).bind
  intro x25519Private _
  apply (deriveMlkem_expect_safe seed).bind
  rintro ⟨decap, pk⟩ _
  exact .pure trivial

theorem generateKeypair_safe : (generateKeypair P).Safe fun _ => True := by
  apply (fillBytes_safe _ _).bind
  intro seed _
  exact fromEd25519SeedForTest_safe seed

/-! ## Every path -/

/-- No text, byte string or value an attacker supplies makes a call panic. -/
theorem hostile_input_never_panics (P : Crates B) (base64 : Codec (List B) T) :
    (∀ N s what, b64DecodeArray base64 N s what ≠ .panic) ∧
    (∀ s masterKey w, ((do
      let enc ← Run.lift (EncryptedPrivateKey.fromBase64 base64 s)
      decryptPrivateKey P enc masterKey) w).1 ≠ .panic) ∧
    (∀ enc masterKey w, (decryptPrivateKey P enc masterKey w).1 ≠ .panic) ∧
    (∀ e p c keypair w, ((do
      let wrapped ← Run.lift (WrappedVaultKey.fromBase64 base64 e p c)
      unwrapVaultKey P wrapped keypair) w).1 ≠ .panic) ∧
    (∀ wrapped keypair w, (unwrapVaultKey P wrapped keypair w).1 ≠ .panic) ∧
    (∀ wrapped masterKey w, (unwrapVaultKeyWithMasterKey P wrapped masterKey w).1 ≠ .panic) ∧
    (∀ blob vk vaultId version w,
      (Wasm.decryptVault P blob vk vaultId version w).1 ≠ .panic) ∧
    (∀ bytes w, ((do
      let recipientPub ← Run.lift (MlKem768PublicKey.fromBytes bytes)
      mlkemEncapsulate P recipientPub) w).1 ≠ .panic) ∧
    (∀ (keypair : UserKeypair B) ciphertext,
      keypair.mlkemDecapsulate P ciphertext ≠ .panic) ∧
    (∀ w, (generateKeypair P w).1 ≠ .panic) ∧
    (∀ seed w, (UserKeypair.fromEd25519SeedForTest P seed w).1 ≠ .panic) := by
  refine ⟨fun N s what => (b64DecodeArray_safe N s what).ne_panic, ?_,
    fun enc mk => (decryptPrivateKey_safe enc mk).ne_panic, ?_,
    fun wrapped kp => (unwrapVaultKey_safe wrapped kp).ne_panic,
    fun wrapped mk => (unwrapVaultKeyWithMasterKey_safe wrapped mk).ne_panic,
    fun blob vk id v => (wasm_decryptVault_safe blob vk id v).ne_panic, ?_,
    fun kp ct => (mlkemDecapsulate_safe kp ct).ne_panic,
    generateKeypair_safe.ne_panic,
    fun seed => (fromEd25519SeedForTest_safe seed).ne_panic⟩
  · intro s masterKey
    apply Run.Safe.ne_panic
    exact (Run.Safe.lift (EncryptedPrivateKey.fromBase64_safe s)).bind
      fun enc _ => decryptPrivateKey_safe enc masterKey
  · intro e p c keypair
    apply Run.Safe.ne_panic
    exact (Run.Safe.lift (WrappedVaultKey.fromBase64_safe e p c)).bind
      fun wrapped _ => unwrapVaultKey_safe wrapped keypair
  · intro bytes
    apply Run.Safe.ne_panic
    exact (Run.Safe.lift (MlKem768PublicKey.fromBytes_safe bytes)).bind
      fun recipientPub _ => mlkemEncapsulate_safe recipientPub

end EvnxCrypto
