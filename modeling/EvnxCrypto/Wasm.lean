import EvnxCrypto.Srp
import EvnxCrypto.Wire

/-!
# The bindings of the browser client

Keys stay behind handles, texts cross as base64 or hex, and every error becomes
the text it displays. Nothing is encrypted or derived here: each function decodes
its arguments, makes one native call and encodes the result.
-/
namespace EvnxCrypto.Wasm
open Effect ByteString

structure JsError where
  message : String
  deriving DecidableEq, Repr

/-- `JsError::new(&e.to_string())`. -/
def js (e : CryptoError) : JsError := ⟨e.toString⟩

abbrev JsResult (α : Type) : Type := Outcome JsError α

abbrev JsProg {B : Type} (P : Crates B) (α : Type) : Type := Run (World P) JsError α

variable {B T : Type}

/-! ## Handles and bundles -/

structure MasterKeyHandle (B : Type) where
  inner : MasterKey B

structure VaultKeyHandle (B : Type) where
  inner : VaultKey B

structure KeypairHandle (B : Type) where
  inner : UserKeypair B

structure SrpEphemeralHandle (B : Type) where
  inner : SrpClientEphemeral B

structure SrpProofHandle (B : Type) where
  inner : SrpClientProof B

structure WrappedKeyBundle (T : Type) where
  encryptedVaultKeyB64 : T
  ephPubKeyB64 : T
  mlkemCiphertextB64 : T
  deriving DecidableEq

structure VerifierBundle (T : Type) where
  verifierHex : T
  srpSaltB64 : T
  deriving DecidableEq

section
variable (P : Crates B) (S : SrpClient B) (base64 hex : Codec (List B) T)

def KeypairHandle.ed25519PublicKey (handle : KeypairHandle B) : T :=
  handle.inner.ed25519PublicBase64 base64

def KeypairHandle.x25519PublicKey (handle : KeypairHandle B) : T :=
  handle.inner.x25519PublicBase64 base64

def KeypairHandle.mlkemPublicKey (handle : KeypairHandle B) : T :=
  handle.inner.mlkemPublicBase64 base64

def SrpEphemeralHandle.publicA (handle : SrpEphemeralHandle B) : T :=
  hex.encode handle.inner.publicA

def SrpProofHandle.clientProof (handle : SrpProofHandle B) : T :=
  hex.encode handle.inner.clientProof

/-! ## Key derivation -/

def saltFromB64 (s : T) : JsResult (List.Vector B SALT_LEN) :=
  (saltFromBase64 base64 s).mapErr js

def deriveMasterKey [Byte B] (password : String) (argon2SaltB64 : T) :
    JsResult (MasterKeyHandle B) := do
  let salt ← saltFromB64 base64 argon2SaltB64
  let inner ← (EvnxCrypto.deriveMasterKey P (asBytes password) salt).mapErr js
  pure { inner }

def deriveSrpPassword [Byte B] (password : String) (srpSaltB64 : T) : JsResult T := do
  let salt ← saltFromB64 base64 srpSaltB64
  let out ← (EvnxCrypto.deriveSrpPassword P (asBytes password) salt).mapErr js
  pure (b64Encode base64 out)

def generateSalt : JsProg P T := do
  let salt ← (EvnxCrypto.generateSalt P).mapErr js
  pure (saltToBase64 base64 salt)

/-! ## Vault keys -/

def createVaultKey : JsProg P (VaultKeyHandle B) := do
  let inner ← (VaultKey.generate P).mapErr js
  pure { inner }

def wrapVaultKey [Byte B] (vk : VaultKeyHandle B) (mk : MasterKeyHandle B) :
    JsProg P (List B) :=
  (wrapVaultKeyWithMasterKey P vk.inner mk.inner).mapErr js

def unwrapVaultKey [Byte B] (wrapped : List B) (mk : MasterKeyHandle B) :
    JsProg P (VaultKeyHandle B) := do
  let inner ← (unwrapVaultKeyWithMasterKey P wrapped mk.inner).mapErr js
  pure { inner }

def blobHash (ciphertext : List B) : T := EvnxCrypto.blobHash P hex.encode ciphertext

/-! ## Blob encryption -/

def encryptVault [Byte B] (plaintext : List B) (vk : VaultKeyHandle B) (vaultId : String)
    (version : UInt32) : JsProg P (List B) := do
  let aad := vaultAad vaultId version
  let blob ← (EvnxCrypto.encryptVault P plaintext vk.inner aad).mapErr js
  pure (blob.nonce.toList ++ blob.ciphertext)

def decryptVault [Byte B] (blob : List B) (vk : VaultKeyHandle B) (vaultId : String)
    (version : UInt32) : JsProg P (List B) := do
  if blob.length < NONCE_LEN then
    Run.fail ⟨"blob shorter than a nonce"⟩
  else
    let n ← Run.lift (sliceTo blob NONCE_LEN)
    let c ← Run.lift (sliceFrom blob NONCE_LEN)
    let nonce ← Run.lift (copyFromSlice NONCE_LEN n)
    let aad := vaultAad vaultId version
    (EvnxCrypto.decryptVault P { nonce, ciphertext := c } vk.inner aad).mapErr js

/-! ## Self-test -/

def selfTestPlaintext [Byte B] : List B :=
  asBytes "API_KEY=sk-live-example\nDATABASE_URL=postgres://localhost/db\n"

/-- `wrapping_add` is the addition of `UInt32`. -/
def aadSelfTest [Byte B] [DecidableEq B] (vaultId : String) (version : UInt32) :
    JsProg P Bool := do
  let key ← (VaultKey.generate P).mapErr js
  let aad := vaultAad vaultId version
  let blob ← (EvnxCrypto.encryptVault P selfTestPlaintext key aad).mapErr js
  let opened ← (EvnxCrypto.decryptVault P blob key aad).mapErr js
  if opened ≠ selfTestPlaintext then
    pure false
  else
    let wrong := vaultAad vaultId (version + 1)
    (EvnxCrypto.decryptVault P blob key wrong).isErr

/-! ## Sharing -/

def KeypairHandle.unwrapSharedVaultKey [Byte B] (handle : KeypairHandle B)
    (encryptedVaultKeyB64 ephPubKeyB64 mlkemCiphertextB64 : T) :
    JsProg P (VaultKeyHandle B) := do
  let wrapped ← Run.lift ((WrappedVaultKey.fromBase64 base64 encryptedVaultKeyB64 ephPubKeyB64
    mlkemCiphertextB64).mapErr js)
  let inner ← (EvnxCrypto.unwrapVaultKey P wrapped handle.inner).mapErr js
  pure { inner }

def wrapVaultKeyForUser [Byte B] (vk : VaultKeyHandle B)
    (recipientX25519B64 recipientMlkemB64 : T) : JsProg P (WrappedKeyBundle T) := do
  let recipient ← Run.lift ((UserPublicKeys.fromBase64 base64 recipientX25519B64
    recipientMlkemB64).mapErr js)
  let wrapped ← (EvnxCrypto.wrapVaultKeyForUser P vk.inner recipient).mapErr js
  pure {
    encryptedVaultKeyB64 := wrapped.encryptedVaultKeyBase64 base64
    ephPubKeyB64 := wrapped.ephPubKeyBase64 base64
    mlkemCiphertextB64 := wrapped.mlkemCiphertextBase64 base64 }

/-! ## Registration and login -/

section
variable [Byte B]

def computeVerifier (email : String) (srpPasswordB64 srpSaltB64 : T) :
    JsResult (VerifierBundle T) := do
  let pw ← (b64Decode base64 srpPasswordB64 "srp_password").mapErr js
  let salt ← saltFromB64 base64 srpSaltB64
  let v ← (EvnxCrypto.computeVerifier P email pw salt).mapErr js
  pure { verifierHex := v.verifierHex hex, srpSaltB64 := v.srpSaltBase64 base64 }

variable [DecidableEq B]

def generateClientEphemeral : JsProg P (SrpEphemeralHandle B) := do
  let inner ← (EvnxCrypto.generateClientEphemeral S P).mapErr js
  pure { inner }

def computeClientProof (email : String) (srpPasswordB64 srpSaltB64 serverPublicBHex : T)
    (ephemeral : SrpEphemeralHandle B) : JsResult (SrpProofHandle B) := do
  let pw ← (b64Decode base64 srpPasswordB64 "srp_password").mapErr js
  let salt ← saltFromB64 base64 srpSaltB64
  let b ← .okOr ⟨"server_public_b is not valid hex"⟩ (hex.decode serverPublicBHex)
  let inner ← (EvnxCrypto.computeClientProof S email pw salt.toList b ephemeral.inner).mapErr js
  pure { inner }

end

def verifyServerProof (serverProofHex : T) (proof : SrpProofHandle B) : JsResult Unit := do
  let m2 ← .okOr ⟨"server_proof is not valid hex"⟩ (hex.decode serverProofHex)
  (EvnxCrypto.verifyServerProof m2 proof.inner).mapErr js

/-! ## Keypairs -/

variable [Byte B]

def generateKeypair : JsProg P (KeypairHandle B) := do
  let inner ← (EvnxCrypto.generateKeypair P).mapErr js
  pure { inner }

def encryptPrivateKey (kp : KeypairHandle B) (mk : MasterKeyHandle B) : JsProg P T := do
  let enc ← (EvnxCrypto.encryptPrivateKey P kp.inner mk.inner).mapErr js
  pure (enc.toBase64 base64)

def decryptPrivateKey (encryptedB64 : T) (mk : MasterKeyHandle B) :
    JsProg P (KeypairHandle B) := do
  let enc ← Run.lift ((EncryptedPrivateKey.fromBase64 base64 encryptedB64).mapErr js)
  let inner ← (EvnxCrypto.decryptPrivateKey P enc mk.inner).mapErr js
  pure { inner }

end

/-! ## The browser's blob -/

section
variable {P : Crates B}

/-- `nonce || ciphertext`, as a vault travels from and to the browser. -/
def joinBlob (blob : EncryptedBlob B) : List B := blob.nonce.toList ++ blob.ciphertext

/-- The two parts of a blob that holds a nonce. -/
def splitBlob (blob : List B) (h : NONCE_LEN ≤ blob.length) : EncryptedBlob B where
  nonce := asArray (blob.take NONCE_LEN) (List.length_take_of_le h)
  ciphertext := blob.drop NONCE_LEN

theorem le_joinBlob (blob : EncryptedBlob B) : NONCE_LEN ≤ (joinBlob blob).length := by
  rw [joinBlob, List.length_append, List.Vector.toList_length]
  exact Nat.le_add_right _ _

theorem splitBlob_joinBlob (blob : EncryptedBlob B) :
    splitBlob (joinBlob blob) (le_joinBlob blob) = blob := by
  unfold splitBlob joinBlob
  rw [EncryptedBlob.mk.injEq]
  constructor
  · apply toList_injective
    exact take_append_of_length blob.nonce.toList_length
  · exact drop_append_of_length blob.nonce.toList_length

variable [Byte B]

theorem decryptVault_of_le {blob : List B} (vk : VaultKey B) (vaultId : String)
    (version : UInt32) (h : NONCE_LEN ≤ blob.length) :
    decryptVault P blob ⟨vk⟩ vaultId version =
      (EvnxCrypto.decryptVault P (splitBlob blob h) vk (vaultAad vaultId version)).mapErr js := by
  have htake : (blob.take NONCE_LEN).length = NONCE_LEN := List.length_take_of_le h
  unfold decryptVault
  rw [if_neg (not_lt.mpr h), sliceTo_of_le h, sliceFrom_of_le h]
  simp only [Run.lift_ok_bind, copyFromSlice_of_length htake]
  rfl

theorem decryptVault_of_short {blob : List B} (vk : VaultKey B) (vaultId : String)
    (version : UInt32) (h : blob.length < NONCE_LEN) :
    decryptVault P blob ⟨vk⟩ vaultId version = Run.fail ⟨"blob shorter than a nonce"⟩ := by
  unfold decryptVault
  rw [if_pos h]

end
end EvnxCrypto.Wasm
