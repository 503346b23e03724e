import EvnxCrypto.Interaction
import EvnxCrypto.KeyRuns
import EvnxCrypto.Srp

/-!
# The whole native interface

One constructor for each public function that does more than convert. A client is
an adaptive sequence of these calls. Five of them put sealings on record; every
other call leaves the records of both ciphers as they are.
-/
namespace EvnxCrypto
open Effect ByteString AuthenticatedEncryption

/-- A call of the native interface, indexed by the type of its answer. -/
inductive Api (B : Type) : Type → Type
  | generateSalt : Api B (List.Vector B SALT_LEN)
  | deriveMasterKey (password : List B) (salt : List.Vector B SALT_LEN) : Api B (MasterKey B)
  | deriveSrpPassword (password : List B) (srpSalt : List.Vector B SALT_LEN) : Api B (List B)
  | generateVaultKey : Api B (VaultKey B)
  | encryptVault (plaintext : List B) (vaultKey : VaultKey B) (aad : List B) :
      Api B (EncryptedBlob B)
  | decryptVault (blob : EncryptedBlob B) (vaultKey : VaultKey B) (aad : List B) :
      Api B (List B)
  | reencryptVault (blob : EncryptedBlob B) (oldKey newKey : VaultKey B) (aad : List B) :
      Api B (EncryptedBlob B)
  | wrapVaultKeyWithMasterKey (vaultKey : VaultKey B) (masterKey : MasterKey B) : Api B (List B)
  | unwrapVaultKeyWithMasterKey (wrapped : List B) (masterKey : MasterKey B) : Api B (VaultKey B)
  | generateKeypair : Api B (UserKeypair B)
  | encryptPrivateKey (keypair : UserKeypair B) (masterKey : MasterKey B) :
      Api B (EncryptedPrivateKey B)
  | decryptPrivateKey (enc : EncryptedPrivateKey B) (masterKey : MasterKey B) :
      Api B (UserKeypair B)
  | mlkemEncapsulate (recipientPub : MlKem768PublicKey B) :
      Api B (List B × List.Vector B MLKEM_SHARED_SECRET_LEN)
  | mlkemDecapsulate (keypair : UserKeypair B) (ciphertext : List B) :
      Api B (List.Vector B MLKEM_SHARED_SECRET_LEN)
  | wrapVaultKeyForUser (vaultKey : VaultKey B) (recipient : UserPublicKeys B) :
      Api B (WrappedVaultKey B)
  | unwrapVaultKey (wrapped : WrappedVaultKey B) (keypair : UserKeypair B) : Api B (VaultKey B)
  | computeVerifier (email : String) (srpPasswordBytes : List B)
      (srpSalt : List.Vector B SALT_LEN) : Api B (SrpVerifier B)
  | generateClientEphemeral : Api B (SrpClientEphemeral B)
  | computeClientProof (email : String) (srpPasswordBytes srpSalt serverPublicB : List B)
      (ephemeral : SrpClientEphemeral B) : Api B (SrpClientProof B)
  | verifyServerProof (serverProof : List B) (srpProof : SrpClientProof B) : Api B Unit

variable {B : Type} [Byte B] [DecidableEq B]

section
variable (P : Crates B) (S : SrpClient B)

def Api.call : Handler (Api B) (World P) CryptoError
  | _, .generateSalt => EvnxCrypto.generateSalt P
  | _, .deriveMasterKey password salt => Run.lift (EvnxCrypto.deriveMasterKey P password salt)
  | _, .deriveSrpPassword password srpSalt =>
      Run.lift (EvnxCrypto.deriveSrpPassword P password srpSalt)
  | _, .generateVaultKey => VaultKey.generate P
  | _, .encryptVault plaintext vaultKey aad => EvnxCrypto.encryptVault P plaintext vaultKey aad
  | _, .decryptVault blob vaultKey aad => EvnxCrypto.decryptVault P blob vaultKey aad
  | _, .reencryptVault blob oldKey newKey aad =>
      EvnxCrypto.reencryptVault P blob oldKey newKey aad
  | _, .wrapVaultKeyWithMasterKey vaultKey masterKey =>
      EvnxCrypto.wrapVaultKeyWithMasterKey P vaultKey masterKey
  | _, .unwrapVaultKeyWithMasterKey wrapped masterKey =>
      EvnxCrypto.unwrapVaultKeyWithMasterKey P wrapped masterKey
  | _, .generateKeypair => EvnxCrypto.generateKeypair P
  | _, .encryptPrivateKey keypair masterKey => EvnxCrypto.encryptPrivateKey P keypair masterKey
  | _, .decryptPrivateKey enc masterKey => EvnxCrypto.decryptPrivateKey P enc masterKey
  | _, .mlkemEncapsulate recipientPub => EvnxCrypto.mlkemEncapsulate P recipientPub
  | _, .mlkemDecapsulate keypair ciphertext =>
      Run.lift (keypair.mlkemDecapsulate P ciphertext)
  | _, .wrapVaultKeyForUser vaultKey recipient =>
      EvnxCrypto.wrapVaultKeyForUser P vaultKey recipient
  | _, .unwrapVaultKey wrapped keypair => EvnxCrypto.unwrapVaultKey P wrapped keypair
  | _, .computeVerifier email srpPasswordBytes srpSalt =>
      Run.lift (EvnxCrypto.computeVerifier P email srpPasswordBytes srpSalt)
  | _, .generateClientEphemeral => EvnxCrypto.generateClientEphemeral S P
  | _, .computeClientProof email srpPasswordBytes srpSalt serverPublicB ephemeral =>
      Run.lift (EvnxCrypto.computeClientProof S email srpPasswordBytes srpSalt serverPublicB
        ephemeral)
  | _, .verifyServerProof serverProof srpProof =>
      Run.lift (EvnxCrypto.verifyServerProof serverProof srpProof)

/-- A client of the native interface. -/
abbrev Program (B α : Type) : Type 1 := Interaction (Api B) CryptoError α

abbrev ApiTrace (B : Type) : Type 1 := List (Exchange (Api B) CryptoError)

end

/-! ## What a call does to the world -/

/-- The calls that put a sealing on record. -/
inductive Api.Seals : {β : Type} → Api B β → Prop
  | encryptVault (plaintext : List B) (vaultKey : VaultKey B) (aad : List B) :
      Seals (.encryptVault plaintext vaultKey aad)
  | reencryptVault (blob : EncryptedBlob B) (oldKey newKey : VaultKey B) (aad : List B) :
      Seals (.reencryptVault blob oldKey newKey aad)
  | wrapVaultKeyWithMasterKey (vaultKey : VaultKey B) (masterKey : MasterKey B) :
      Seals (.wrapVaultKeyWithMasterKey vaultKey masterKey)
  | encryptPrivateKey (keypair : UserKeypair B) (masterKey : MasterKey B) :
      Seals (.encryptPrivateKey keypair masterKey)
  | wrapVaultKeyForUser (vaultKey : VaultKey B) (recipient : UserPublicKeys B) :
      Seals (.wrapVaultKeyForUser vaultKey recipient)

variable {P : Crates B} {S : SrpClient B}

/-- The world goes on and no sealing is put on record. -/
structure World.Frames (w w' : World P) : Prop where
  extends' : w.Extends w'
  inOrder : w.InOrder → w'.InOrder
  history : w'.history = w.history
  encryptions : w'.encryptions = w.encryptions

namespace World.Frames
omit [Byte B] [DecidableEq B]

theorem refl (w : World P) : w.Frames w := ⟨.refl w, id, rfl, rfl⟩

theorem draw (w : World P) (p : Purpose) {n : ℕ} (hn : 0 < n) : w.Frames (w.draw p n) :=
  ⟨w.extends_draw p n, fun h => h.draw p hn, rfl, rfl⟩

theorem expand (w : World P) (ikm info : List B) {n : ℕ} (hn : n ≤ 255 * 32) :
    w.Frames (w.expand ikm info n hn) :=
  ⟨w.extends_expand ikm info hn, fun h => h, rfl, rfl⟩

theorem subkey (w : World P) (ikm info : List B) : w.Frames (w.subkey ikm info) :=
  ⟨w.extends_subkey ikm info, fun h => h, rfl, rfl⟩

theorem trans {u v w : World P} (h : u.Frames v) (k : v.Frames w) : u.Frames w :=
  ⟨h.extends'.trans k.extends', fun hw => k.inOrder (h.inOrder hw),
    k.history.trans h.history, k.encryptions.trans h.encryptions⟩

end World.Frames

omit [DecidableEq B] in
theorem unwrapVaultKeyWithMasterKey_frames (wrapped : List B) (masterKey : MasterKey B)
    (w : World P) :
    w.Frames (unwrapVaultKeyWithMasterKey P wrapped masterKey w).2 := by
  by_cases h : wrapped.length < XCHACHA_NONCE_LEN + VAULT_KEY_LEN
  · rw [unwrapVaultKeyWithMasterKey_short masterKey w h]
    exact .refl w
  · rw [unwrapVaultKeyWithMasterKey_apply masterKey w (not_lt.mp h)]
    exact .subkey w _ _

omit [DecidableEq B] in
theorem World.frames_deriveIdentity (w : World P) (seed : List.Vector B 32) :
    w.Frames (w.deriveIdentity seed) :=
  (World.Frames.subkey w _ _).trans (.expand _ _ _ _)

omit [DecidableEq B] in
theorem decryptPrivateKey_frames (enc : EncryptedPrivateKey B) (masterKey : MasterKey B)
    (w : World P) : w.Frames (decryptPrivateKey P enc masterKey w).2 := by
  have hsub : w.Frames (w.sealSubkey masterKey) := .subkey w _ _
  rcases Option.eq_none_or_eq_some ((P.aead .xchacha20Poly1305).decrypt
    (w.history .xchacha20Poly1305).sealings (P.sealSubkey masterKey).toList
    enc.nonce.toList [] enc.ciphertext) with h | ⟨opened, h⟩
  · rw [decryptPrivateKey_of_none h]
    exact hsub
  · by_cases hlen : opened.length = ED25519_PRIVATE_LEN
    · rw [← asArray_toList hlen] at h
      rw [decryptPrivateKey_of_some h]
      exact hsub.trans (World.frames_deriveIdentity _ _)
    · rw [decryptPrivateKey_of_length h hlen]
      exact hsub

omit [DecidableEq B] in
theorem unwrapVaultKey_frames (wrapped : WrappedVaultKey B) (keypair : UserKeypair B)
    (w : World P) : w.Frames (unwrapVaultKey P wrapped keypair w).2 := by
  cases hc : P.wasContributory (P.diffieHellman (P.x25519StaticSecret keypair.x25519Private)
      wrapped.ephPubKey) with
  | false =>
      rw [unwrapVaultKey_of_weak hc]
      exact .refl w
  | true =>
      cases hkem : P.decapsulateSlice keypair.mlkemDecap wrapped.mlkemCiphertext with
      | none =>
          rw [unwrapVaultKey_of_not_decapsulated hc hkem]
          exact .refl w
      | some ss =>
          rw [unwrapVaultKey_of_secrets hc hkem]
          exact .subkey w _ _

omit [Byte B] [DecidableEq B] in
theorem mlkemEncapsulate_frames (recipientPub : MlKem768PublicKey B) (w : World P) :
    w.Frames (mlkemEncapsulate P recipientPub w).2 := by
  cases h : P.mlkemKeyIsValid recipientPub.bytes with
  | false =>
      rw [mlkemEncapsulate_of_invalid h]
      exact .refl w
  | true =>
      rw [mlkemEncapsulate_of_valid h]
      exact .draw w _ (by decide)

theorem generateClientEphemeral_frames (w : World P) :
    w.Frames (generateClientEphemeral S P w).2 := by
  unfold generateClientEphemeral
  rw [Run.bind_of_ok (fillBytes_apply .srpEphemeral SRP_PRIVATE_LEN w)]
  cases hzero : allZero
      (S.computePublicEphemeral (w.next .srpEphemeral SRP_PRIVATE_LEN).toList) with
  | true =>
      simp only [hzero, if_true]
      exact .draw w _ (by decide)
  | false =>
      simp only [hzero, Bool.false_eq_true, if_false]
      exact .draw w _ (by decide)

/-- A call that does not seal leaves the record of both ciphers as it was. -/
theorem Api.call_frames {β : Type} (call : Api B β) (h : ¬ call.Seals) (w : World P) :
    w.Frames (Api.call P S β call w).2 := by
  cases call with
  | generateSalt => exact .draw w _ (by decide)
  | deriveMasterKey => exact .refl w
  | deriveSrpPassword => exact .refl w
  | generateVaultKey => exact .draw w _ (by decide)
  | encryptVault plaintext vaultKey aad => exact (h (.encryptVault ..)).elim
  | decryptVault blob vaultKey aad =>
      rw [Api.call, decryptVault_apply]
      exact .refl w
  | reencryptVault => exact (h (.reencryptVault ..)).elim
  | wrapVaultKeyWithMasterKey => exact (h (.wrapVaultKeyWithMasterKey ..)).elim
  | unwrapVaultKeyWithMasterKey wrapped masterKey =>
      exact unwrapVaultKeyWithMasterKey_frames wrapped masterKey w
  | generateKeypair =>
      rw [Api.call, generateKeypair_apply]
      exact (World.Frames.draw w _ (by decide)).trans (World.frames_deriveIdentity _ _)
  | encryptPrivateKey => exact (h (.encryptPrivateKey ..)).elim
  | decryptPrivateKey enc masterKey => exact decryptPrivateKey_frames enc masterKey w
  | mlkemEncapsulate recipientPub => exact mlkemEncapsulate_frames recipientPub w
  | mlkemDecapsulate => exact .refl w
  | wrapVaultKeyForUser => exact (h (.wrapVaultKeyForUser ..)).elim
  | unwrapVaultKey wrapped keypair => exact unwrapVaultKey_frames wrapped keypair w
  | computeVerifier => exact .refl w
  | generateClientEphemeral => exact generateClientEphemeral_frames w
  | computeClientProof => exact .refl w
  | verifyServerProof => exact .refl w

/-- All that a call can do to the world. -/
inductive World.Moves (w : World P) : World P → Prop
  | frame {w' : World P} (h : w.Frames w') : Moves w w'
  | vault {w' : World P} (plaintext : List B) (vaultKey : VaultKey B) (aad : List B)
      (h : w' = (encryptVault P plaintext vaultKey aad w).2) : Moves w w'
  | key {w' : World P} (r : KeyRequest B) (h : w' = (r.call P w).2) : Moves w w'

theorem Api.call_moves {β : Type} (call : Api B β) (w : World P) :
    w.Moves (Api.call P S β call w).2 := by
  by_cases h : call.Seals
  · cases h with
    | encryptVault plaintext vaultKey aad => exact .vault plaintext vaultKey aad rfl
    | reencryptVault blob oldKey newKey aad =>
        rcases Option.eq_none_or_eq_some ((P.aead .aes256Gcm).decrypt
          (w.history .aes256Gcm).sealings oldKey.expose.toList blob.nonce.toList aad
          blob.ciphertext) with hnone | ⟨plaintext, hopen⟩
        · rw [Api.call, reencryptVault_of_none hnone]
          exact .frame (.refl w)
        · rw [Api.call, reencryptVault_of_some hopen]
          exact .vault plaintext newKey aad rfl
    | wrapVaultKeyWithMasterKey vaultKey masterKey =>
        exact .key (.wrapWithMasterKey vaultKey masterKey) (Run.bind_pure_snd ..).symm
    | encryptPrivateKey keypair masterKey =>
        exact .key (.encryptPrivateKey keypair masterKey) (Run.bind_pure_snd ..).symm
    | wrapVaultKeyForUser vaultKey recipient =>
        exact .key (.wrapForUser vaultKey recipient) (Run.bind_pure_snd ..).symm
  · exact .frame (Api.call_frames call h w)

theorem Api.call_extends {β : Type} (call : Api B β) (w : World P) :
    w.Extends (Api.call P S β call w).2 := by
  cases Api.call_moves (S := S) call w with
  | frame h => exact h.extends'
  | vault plaintext vaultKey aad h =>
      rw [h]
      exact encryptVault_extends plaintext vaultKey aad w
  | key r h =>
      rw [h]
      exact (r.call_step w).extends

omit [DecidableEq B] in
theorem KeyRequest.call_inOrder {w : World P} (h : w.InOrder) (r : KeyRequest B) :
    (r.call P w).2.InOrder := by
  have hdraw : ∀ {v : World P}, v.InOrder → (v.draw .nonce XCHACHA_NONCE_LEN).InOrder :=
    fun hv => hv.draw _ (by decide)
  cases r with
  | encryptPrivateKey keypair masterKey =>
      rcases encryptPrivateKey_cases keypair masterKey w with ⟨ct, henc, heq⟩ | heq
      · rw [KeyRequest.call, Run.bind_of_ok heq]
        exact hdraw (v := w.sealSubkey masterKey) h
      · rw [KeyRequest.call, Run.bind_of_err heq]
        exact hdraw (v := w.sealSubkey masterKey) h
  | wrapWithMasterKey vaultKey masterKey =>
      rcases wrapVaultKeyWithMasterKey_cases vaultKey masterKey w with ⟨ct, henc, heq⟩ | heq
      · rw [KeyRequest.call, Run.bind_of_ok heq]
        exact hdraw (v := w.wrapSubkey masterKey) h
      · rw [KeyRequest.call, Run.bind_of_err heq]
        exact hdraw (v := w.wrapSubkey masterKey) h
  | wrapForUser vaultKey recipient =>
      have heph : (w.draw .ephemeralSecret 32).InOrder := h.draw _ (by decide)
      have hready : (w.wrapReady recipient).InOrder := hdraw (heph.draw .encapsulation (by decide))
      rcases wrapVaultKeyForUser_cases (P := P) (w := w) with ⟨ct, henc, -, heq⟩ | heq | heq
      · rw [KeyRequest.call, Run.bind_of_ok heq]
        exact hready
      · rw [KeyRequest.call, Run.bind_of_err heq]
        exact hready
      · rw [KeyRequest.call, Run.bind_of_err heq]
        exact heph

theorem Api.call_inOrder {w : World P} (h : w.InOrder) {β : Type} (call : Api B β) :
    (Api.call P S β call w).2.InOrder := by
  cases Api.call_moves (S := S) call w with
  | frame hframe => exact hframe.inOrder h
  | vault plaintext vaultKey aad hw =>
      rw [hw]
      exact encryptVault_inOrder h plaintext vaultKey aad
  | key r hw =>
      rw [hw]
      exact KeyRequest.call_inOrder h r

end EvnxCrypto
