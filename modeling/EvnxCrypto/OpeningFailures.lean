import EvnxCrypto.Noninterference
import EvnxCrypto.UnwrapErrors
import EvnxCrypto.Wasm

/-!
# Opening failures are no oracle

For each opener, one predicate says when its AEAD step is reached and
authenticates the input. Where it does not, the error is decided by lengths and
by the peer's point alone. The two secrets and the two worlds of the runs that
are compared have nothing to do with each other.
-/
namespace EvnxCrypto
open Effect ByteString AuthenticatedEncryption

variable {B : Type} {P : Crates B}

/-- Whether an exchange contributes is decided by the peer's point and not by the
clamped scalar. -/
def Crates.ContributoryByPoint (P : Crates B) : Prop :=
  ∀ b b' p, P.wasContributory (P.diffieHellman (P.x25519StaticSecret b) p) =
    P.wasContributory (P.diffieHellman (P.x25519StaticSecret b') p)

/-- Decapsulation fails exactly on a wrong length: a bad ciphertext of the right
length is rejected implicitly. -/
def Crates.DecapsulatesByLength (P : Crates B) : Prop :=
  ∀ dk ct, (P.decapsulateSlice dk ct).isSome ↔ ct.length = MLKEM768_CIPHERTEXT_LEN

/-! ## When the AEAD step authenticates -/

def Crates.OpensVault (P : Crates B) (blob : EncryptedBlob B) (vaultKey : VaultKey B)
    (aad : List B) (w : World P) : Prop :=
  ((P.aead .aes256Gcm).decrypt (w.history .aes256Gcm).sealings vaultKey.expose.toList
    blob.nonce.toList aad blob.ciphertext).isSome

section
variable [Byte B]

def Crates.OpensBlob (P : Crates B) (blob : List B) (vk : VaultKey B) (vaultId : String)
    (version : UInt32) (w : World P) : Prop :=
  ∃ h : NONCE_LEN ≤ blob.length,
    P.OpensVault (Wasm.splitBlob blob h) vk (vaultAad vaultId version) w

def Crates.OpensPrivateKey (P : Crates B) (enc : EncryptedPrivateKey B)
    (masterKey : MasterKey B) (w : World P) : Prop :=
  ((P.aead .xchacha20Poly1305).decrypt (w.history .xchacha20Poly1305).sealings
    (P.sealSubkey masterKey).toList enc.nonce.toList [] enc.ciphertext).isSome

def Crates.OpensWrap (P : Crates B) (wrapped : List B) (masterKey : MasterKey B)
    (w : World P) : Prop :=
  XCHACHA_NONCE_LEN + VAULT_KEY_LEN ≤ wrapped.length ∧
    (P.openedUnder wrapped masterKey w).isSome

/-- Both shared secrets and the length check come before the AEAD step. -/
def Crates.OpensSharedWrap (P : Crates B) (wrapped : WrappedVaultKey B)
    (keypair : UserKeypair B) (w : World P) : Prop :=
  P.wasContributory (P.diffieHellman (P.x25519StaticSecret keypair.x25519Private)
    wrapped.ephPubKey) = true ∧
  ∃ ss, P.decapsulateSlice keypair.mlkemDecap wrapped.mlkemCiphertext = some ss ∧
    XCHACHA_NONCE_LEN ≤ wrapped.encryptedVaultKey.length ∧
    ((P.aead .xchacha20Poly1305).decrypt (w.history .xchacha20Poly1305).sealings
      (P.hybridKey (P.recipientIkm keypair wrapped ss)).toList
      (wrapped.encryptedVaultKey.take XCHACHA_NONCE_LEN) []
      (wrapped.encryptedVaultKey.drop XCHACHA_NONCE_LEN)).isSome

end

/-! ## The error of each opener -/

theorem decryptVault_refusesWith (blob : EncryptedBlob B) :
    RefusesWith .decryption
      (fun k : VaultKey B × List B => P.OpensVault blob k.1 k.2)
      fun k => decryptVault P blob k.1 k.2 := by
  rintro ⟨vaultKey, aad⟩ w hclosed
  have hnone := Option.not_isSome_iff_eq_none.mp hclosed
  rw [decryptVault_apply, hnone]
  rfl

variable [Byte B]

/-- The error a browser blob is refused with. -/
def blobError (blob : List B) : Wasm.JsError :=
  if blob.length < NONCE_LEN then ⟨"blob shorter than a nonce"⟩ else Wasm.js .decryption

theorem wasm_decryptVault_refusesWith (blob : List B) :
    RefusesWith (blobError blob)
      (fun k : Wasm.VaultKeyHandle B × String × UInt32 =>
        P.OpensBlob blob k.1.inner k.2.1 k.2.2)
      fun k => Wasm.decryptVault P blob k.1 k.2.1 k.2.2 := by
  rintro ⟨⟨vk⟩, vaultId, version⟩ w hclosed
  by_cases hlen : blob.length < NONCE_LEN
  · simp only [Wasm.decryptVault_of_short vk vaultId version hlen, blobError, if_pos hlen]
    rfl
  · have hle := not_lt.mp hlen
    simp only [Wasm.decryptVault_of_le vk vaultId version hle, blobError, if_neg hlen]
    exact (decryptVault_refusesWith (Wasm.splitBlob blob hle)).mapErr Wasm.js
      (vk, vaultAad vaultId version) w fun hopen => hclosed ⟨hle, hopen⟩

theorem decryptPrivateKey_refusesWith (enc : EncryptedPrivateKey B) :
    RefusesWith .keyUnwrap (P.OpensPrivateKey enc) (decryptPrivateKey P enc) := by
  intro masterKey w hclosed
  rw [decryptPrivateKey_of_none (Option.not_isSome_iff_eq_none.mp hclosed)]

theorem unwrapVaultKeyWithMasterKey_refusesWith (wrapped : List B) :
    RefusesWith
      (if wrapped.length < XCHACHA_NONCE_LEN + VAULT_KEY_LEN then
        .invalidInput "wrapped key too short" else .keyUnwrap)
      (P.OpensWrap wrapped) (unwrapVaultKeyWithMasterKey P wrapped) := by
  intro masterKey w hclosed
  by_cases hlen : wrapped.length < XCHACHA_NONCE_LEN + VAULT_KEY_LEN
  · rw [if_pos hlen, unwrapVaultKeyWithMasterKey_short masterKey w hlen]
  · have hle := not_lt.mp hlen
    have hnone : P.openedUnder wrapped masterKey w = none := by
      rw [← Option.not_isSome_iff_eq_none]
      exact fun hopen => hclosed ⟨hle, hopen⟩
    rw [if_neg hlen, unwrap_of_refused hle hnone]

/-- The error a shared wrap is refused with, read off its point and its lengths. -/
def sharedWrapError (P : Crates B) (wrapped : WrappedVaultKey B) : CryptoError :=
  if P.wasContributory (P.diffieHellman
      (P.x25519StaticSecret (List.Vector.replicate 32 (Byte.lit 0))) wrapped.ephPubKey) = false then
    .invalidPublicKey
  else if wrapped.mlkemCiphertext.length ≠ MLKEM768_CIPHERTEXT_LEN then
    .invalidInput s!"ML-KEM-768 ciphertext must be {MLKEM768_CIPHERTEXT_LEN} bytes, got {
      wrapped.mlkemCiphertext.length}"
  else if wrapped.encryptedVaultKey.length < XCHACHA_NONCE_LEN then
    .invalidInput "wrapped vault key too short"
  else .keyUnwrap

theorem unwrapVaultKey_refusesWith (hpoint : P.ContributoryByPoint)
    (hkem : P.DecapsulatesByLength) (wrapped : WrappedVaultKey B) :
    RefusesWith (sharedWrapError P wrapped) (P.OpensSharedWrap wrapped)
      (unwrapVaultKey P wrapped) := by
  intro keypair w hclosed
  unfold sharedWrapError
  rw [hpoint _ keypair.x25519Private]
  cases hc : P.wasContributory (P.diffieHellman (P.x25519StaticSecret keypair.x25519Private)
      wrapped.ephPubKey) with
  | false => rw [unwrapVaultKey_of_weak hc, if_pos rfl]
  | true =>
      rw [if_neg (by decide)]
      cases hss : P.decapsulateSlice keypair.mlkemDecap wrapped.mlkemCiphertext with
      | none =>
          have hlen : wrapped.mlkemCiphertext.length ≠ MLKEM768_CIPHERTEXT_LEN := by
            intro hlen
            have hsome := (hkem keypair.mlkemDecap _).mpr hlen
            rw [hss] at hsome
            cases hsome
          rw [unwrapVaultKey_of_not_decapsulated hc hss, if_pos hlen]
      | some ss =>
          have hlen : wrapped.mlkemCiphertext.length = MLKEM768_CIPHERTEXT_LEN := by
            rw [← hkem keypair.mlkemDecap, hss]
            rfl
          rw [unwrapVaultKey_of_secrets hc hss, if_neg (not_not.mpr hlen)]
          by_cases hshort : wrapped.encryptedVaultKey.length < XCHACHA_NONCE_LEN
          · simp only [if_pos hshort]
          · simp only [if_neg hshort]
            -- the tag is the first thing that looks at secret-derived data
            have hnone : (P.aead .xchacha20Poly1305).decrypt
                (w.history .xchacha20Poly1305).sealings
                (P.hybridKey (P.recipientIkm keypair wrapped ss)).toList
                (wrapped.encryptedVaultKey.take XCHACHA_NONCE_LEN) []
                (wrapped.encryptedVaultKey.drop XCHACHA_NONCE_LEN) = none := by
              rw [← Option.not_isSome_iff_eq_none]
              exact fun hopen => hclosed ⟨hc, ss, hss, not_lt.mp hshort, hopen⟩
            rw [hnone]
            rfl

/-! ## All five openers -/

/-- No opener is an oracle, and a vault blob is always refused with `decryption`. -/
theorem opening_failures_alike (hpoint : P.ContributoryByPoint)
    (hkem : P.DecapsulatesByLength) :
    (∀ blob vaultKey aad w, ¬ P.OpensVault blob vaultKey aad w →
      (decryptVault P blob vaultKey aad w).1 = .err .decryption) ∧
    NoOracle (fun blob (k : VaultKey B × List B) => P.OpensVault blob k.1 k.2)
      (fun blob k => decryptVault P blob k.1 k.2) ∧
    NoOracle (fun blob (k : Wasm.VaultKeyHandle B × String × UInt32) =>
        P.OpensBlob blob k.1.inner k.2.1 k.2.2)
      (fun blob k => Wasm.decryptVault P blob k.1 k.2.1 k.2.2) ∧
    NoOracle P.OpensPrivateKey (decryptPrivateKey P) ∧
    NoOracle P.OpensWrap (unwrapVaultKeyWithMasterKey P) ∧
    NoOracle P.OpensSharedWrap (unwrapVaultKey P) := by
  refine ⟨?_, ?_, ?_, ?_, ?_, ?_⟩
  · intro blob vaultKey aad w hclosed
    exact decryptVault_refusesWith blob (vaultKey, aad) w hclosed
  · exact .of_refusesWith fun blob => ⟨_, decryptVault_refusesWith blob⟩
  · exact .of_refusesWith fun blob => ⟨_, wasm_decryptVault_refusesWith blob⟩
  · exact .of_refusesWith fun enc => ⟨_, decryptPrivateKey_refusesWith enc⟩
  · exact .of_refusesWith fun wrapped => ⟨_, unwrapVaultKeyWithMasterKey_refusesWith wrapped⟩
  · exact .of_refusesWith fun wrapped => ⟨_, unwrapVaultKey_refusesWith hpoint hkem wrapped⟩

/-! ## Two strangers and one wrap -/

section
open Symbolic

theorem scalarMul_ne_zero (a p : SString) :
    (scalarMul a p).toList ≠ lits (List.replicate 32 0) := by
  unfold scalarMul
  split
  · exact out_ne_lits (by decide) _
  · exact out_ne_lits (by decide) _

theorem idealCrates_contributoryByPoint : idealCrates.ContributoryByPoint := by
  intro b b' p
  have hall : ∀ c, idealCrates.wasContributory (idealCrates.diffieHellman c p) = true := by
    intro c
    simp only [idealCrates, symbolicCratesWith, decide_eq_true_eq]
    exact scalarMul_ne_zero c.toList p.toList
  rw [hall, hall]

theorem idealCrates_decapsulatesByLength : idealCrates.DecapsulatesByLength := by
  intro dk ct
  change (if ct.length = 1088 then some (symbolicDecapsulate dk ct) else none).isSome ↔ _
  by_cases h : ct.length = 1088
  · simp [h]
  · simp [h]

/-- A wrap made for nobody: a point of the curve, and zeros for the rest. -/
noncomputable def strayWrap : WrappedVaultKey SByte where
  ephPubKey := idealCrates.x25519PublicKey (atoms (.draw .ephemeralSecret 2) 32)
  mlkemCiphertext := lits (List.replicate 1088 0)
  encryptedVaultKey := lits (List.replicate 72 0)

theorem untouched_closed (keypair : UserKeypair SByte) :
    ¬ idealCrates.OpensSharedWrap strayWrap keypair untouched := by
  rintro ⟨-, ss, -, -, hopen⟩
  rw [untouched_decrypt] at hopen
  cases hopen

theorem opening_failures_alike_strangers :
    ∃ e, (unwrapVaultKey idealCrates strayWrap (idealCrates.keypairOf (atoms (.draw .seed 0) 32))
        untouched).1 = .err e ∧
      (unwrapVaultKey idealCrates strayWrap (idealCrates.keypairOf (atoms (.draw .seed 1) 32))
        untouched).1 = .err e := by
  obtain ⟨-, -, -, -, -, hshared⟩ :=
    opening_failures_alike idealCrates_contributoryByPoint idealCrates_decapsulatesByLength
  exact hshared.alike _ _ _ _ _ (untouched_closed _) (untouched_closed _)

end
end EvnxCrypto
