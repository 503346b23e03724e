import EvnxCrypto.Hex
import EvnxCrypto.Interaction
import EvnxCrypto.OctetCrates
import EvnxCrypto.RoundTrip
import EvnxCrypto.Wasm

/-!
# Browser and native clients interoperate

A request is one call of a client, with every text as it travels. The native client
answers it with the crate between the decoders and the encoders of the wire format,
the browser with its bindings: the answers are the same, and the world is left the
same. A session may choose each request, and the client it is put to, by the
answers before it, so clients can be mixed in any order.
-/
namespace EvnxCrypto
open Effect ByteString AuthenticatedEncryption Wasm

variable {B T α : Type}

/-! ## Texts handed back through the decoders -/

section
variable {base64 hex : Codec (List B) T}

theorem b64Decode_b64Encode (hb64 : base64.RoundTrips) (bytes : List B) (what : String) :
    b64Decode base64 (b64Encode base64 bytes) what = .ok bytes := by
  unfold b64Decode b64Encode
  rw [hb64, Outcome.okOr_some]

theorem b64DecodeArray_b64Encode (hb64 : base64.RoundTrips) {N : ℕ} (v : List.Vector B N)
    (what : String) : b64DecodeArray base64 N (b64Encode base64 v.toList) what = .ok v := by
  unfold b64DecodeArray
  rw [b64Decode_b64Encode hb64, Outcome.ok_bind]
  have hlen : ¬ v.toList.length ≠ N := not_not.mpr v.toList_length
  simp only [if_neg hlen, copyFromSlice_toList]

theorem saltFromB64_saltToBase64 (hb64 : base64.RoundTrips) (salt : List.Vector B SALT_LEN) :
    saltFromB64 base64 (saltToBase64 base64 salt) = .ok salt := by
  unfold saltFromB64 saltFromBase64 saltToBase64
  rw [b64DecodeArray_b64Encode hb64, Outcome.mapErr_ok]

theorem ed25519PublicKey_read_back (hb64 : base64.RoundTrips) (kp : UserKeypair B) :
    Ed25519PublicKey.fromBase64 base64 (KeypairHandle.ed25519PublicKey base64 ⟨kp⟩) =
      .ok kp.ed25519Public := by
  unfold Ed25519PublicKey.fromBase64 KeypairHandle.ed25519PublicKey
    UserKeypair.ed25519PublicBase64 Ed25519PublicKey.toBase64
  rw [b64DecodeArray_b64Encode hb64]
  rfl

theorem publicKeys_read_back (hb64 : base64.RoundTrips) (kp : UserKeypair B) :
    UserPublicKeys.fromBase64 base64 (KeypairHandle.x25519PublicKey base64 ⟨kp⟩)
      (KeypairHandle.mlkemPublicKey base64 ⟨kp⟩) = .ok kp.publicKeys := by
  unfold UserPublicKeys.fromBase64 X25519PublicKeyBytes.fromBase64 MlKem768PublicKey.fromBase64
    KeypairHandle.x25519PublicKey UserKeypair.x25519PublicBase64 X25519PublicKeyBytes.toBase64
    KeypairHandle.mlkemPublicKey UserKeypair.mlkemPublicBase64 MlKem768PublicKey.toBase64
  rw [b64DecodeArray_b64Encode hb64, b64DecodeArray_b64Encode hb64]
  rfl

theorem verifyServerProof_encoded (hhex : hex.RoundTrips) (serverProof : List B)
    (proof : SrpClientProof B) :
    Wasm.verifyServerProof hex (hex.encode serverProof) ⟨proof⟩ =
      (EvnxCrypto.verifyServerProof serverProof proof).mapErr js := by
  unfold Wasm.verifyServerProof
  rw [hhex, Outcome.okOr_some, Outcome.ok_bind]

end

section
variable [Byte B] {P : Crates B} {base64 hex : Codec (List B) T}

theorem deriveMasterKey_encoded (hb64 : base64.RoundTrips) (password : String)
    (salt : List.Vector B SALT_LEN) :
    Wasm.deriveMasterKey P base64 password (saltToBase64 base64 salt) =
      (do
        let mk ← EvnxCrypto.deriveMasterKey P (asBytes password) salt
        pure (⟨mk⟩ : MasterKeyHandle B)).mapErr js := by
  unfold Wasm.deriveMasterKey
  rw [saltFromB64_saltToBase64 hb64, Outcome.ok_bind, Outcome.mapErr_bind]
  rfl

theorem deriveSrpPassword_encoded (hb64 : base64.RoundTrips) (password : String)
    (salt : List.Vector B SALT_LEN) :
    Wasm.deriveSrpPassword P base64 password (saltToBase64 base64 salt) =
      (do
        let pw ← EvnxCrypto.deriveSrpPassword P (asBytes password) salt
        pure (b64Encode base64 pw)).mapErr js := by
  unfold Wasm.deriveSrpPassword
  rw [saltFromB64_saltToBase64 hb64, Outcome.ok_bind, Outcome.mapErr_bind]
  rfl

theorem computeVerifier_encoded (hb64 : base64.RoundTrips) (email : String) (pw : List B)
    (salt : List.Vector B SALT_LEN) :
    Wasm.computeVerifier P base64 hex email (b64Encode base64 pw) (saltToBase64 base64 salt) =
      (do
        let v ← EvnxCrypto.computeVerifier P email pw salt
        pure (⟨v.verifierHex hex, v.srpSaltBase64 base64⟩ : VerifierBundle T)).mapErr js := by
  unfold Wasm.computeVerifier
  rw [b64Decode_b64Encode hb64, Outcome.mapErr_ok, Outcome.ok_bind,
    saltFromB64_saltToBase64 hb64, Outcome.ok_bind, Outcome.mapErr_bind]
  rfl

/-! ## A blob sealed by one client opens in the other -/

variable {plaintext : List B} {vk : VaultKey B} {vaultId : String} {version : UInt32}
variable {w w' u : World P}

theorem browser_opens_native {blob : EncryptedBlob B} (hcorrect : P.AeadCorrect)
    (hseal : EvnxCrypto.encryptVault P plaintext vk (vaultAad vaultId version) w = (.ok blob, w'))
    (hext : w'.Extends u) :
    Wasm.decryptVault P (joinBlob blob) ⟨vk⟩ vaultId version u = (.ok plaintext, u) := by
  rw [decryptVault_of_le vk vaultId version (le_joinBlob blob), splitBlob_joinBlob]
  exact Run.mapErr_eq_ok.mpr (decryptVault_of_encryptVault hcorrect hseal hext)

theorem encryptVault_browser_ok {bytes : List B}
    (hseal : Wasm.encryptVault P plaintext ⟨vk⟩ vaultId version w = (.ok bytes, w')) :
    ∃ blob, bytes = joinBlob blob ∧
      EvnxCrypto.encryptVault P plaintext vk (vaultAad vaultId version) w = (.ok blob, w') := by
  unfold Wasm.encryptVault at hseal
  rcases Run.bind_eq_ok.mp hseal with ⟨blob, t, hnative, hpure⟩
  cases hpure
  exact ⟨blob, rfl, Run.mapErr_eq_ok.mp hnative⟩

theorem native_opens_browser {bytes : List B} (hcorrect : P.AeadCorrect)
    (hseal : Wasm.encryptVault P plaintext ⟨vk⟩ vaultId version w = (.ok bytes, w'))
    (hext : w'.Extends u) :
    ∃ h, EvnxCrypto.decryptVault P (splitBlob bytes h) vk (vaultAad vaultId version) u =
      (.ok plaintext, u) := by
  rcases encryptVault_browser_ok hseal with ⟨blob, rfl, hnative⟩
  refine ⟨le_joinBlob blob, ?_⟩
  rw [splitBlob_joinBlob]
  exact decryptVault_of_encryptVault hcorrect hnative hext

end

/-! ## Requests and the two ways to answer them -/

/-- What is asked of a client, indexed by the type of the answer: a request for each
binding, and re-encryption. Keys stay behind the handles and are given as they are. -/
inductive Request (B T : Type) : Type → Type
  | generateSalt : Request B T T
  | deriveMasterKey (password : String) (argon2SaltB64 : T) : Request B T (MasterKey B)
  | deriveSrpPassword (password : String) (srpSaltB64 : T) : Request B T T
  | createVaultKey : Request B T (VaultKey B)
  | wrapVaultKey (vk : VaultKey B) (mk : MasterKey B) : Request B T (List B)
  | unwrapVaultKey (wrapped : List B) (mk : MasterKey B) : Request B T (VaultKey B)
  | blobHash (ciphertext : List B) : Request B T T
  | encryptVault (plaintext : List B) (vk : VaultKey B) (vaultId : String) (version : UInt32) :
      Request B T (List B)
  | decryptVault (blob : List B) (vk : VaultKey B) (vaultId : String) (version : UInt32) :
      Request B T (List B)
  | reencryptVault (blob : EncryptedBlob B) (oldKey newKey : VaultKey B) (vaultId : String)
      (version : UInt32) : Request B T (EncryptedBlob B)
  | aadSelfTest (vaultId : String) (version : UInt32) : Request B T Bool
  | ed25519PublicKey (kp : UserKeypair B) : Request B T T
  | x25519PublicKey (kp : UserKeypair B) : Request B T T
  | mlkemPublicKey (kp : UserKeypair B) : Request B T T
  | unwrapSharedVaultKey (kp : UserKeypair B) (bundle : WrappedKeyBundle T) :
      Request B T (VaultKey B)
  | wrapVaultKeyForUser (vk : VaultKey B) (recipientX25519B64 recipientMlkemB64 : T) :
      Request B T (WrappedKeyBundle T)
  | computeVerifier (email : String) (srpPasswordB64 srpSaltB64 : T) :
      Request B T (VerifierBundle T)
  | generateClientEphemeral : Request B T (T × SrpClientEphemeral B)
  | computeClientProof (email : String) (srpPasswordB64 srpSaltB64 serverPublicBHex : T)
      (ephemeral : SrpClientEphemeral B) : Request B T (T × SrpClientProof B)
  | verifyServerProof (serverProofHex : T) (proof : SrpClientProof B) : Request B T Unit
  | generateKeypair : Request B T (UserKeypair B)
  | encryptPrivateKey (kp : UserKeypair B) (mk : MasterKey B) : Request B T T
  | decryptPrivateKey (encryptedB64 : T) (mk : MasterKey B) : Request B T (UserKeypair B)

variable [Byte B] [DecidableEq B]

section
variable (P : Crates B) (S : SrpClient B) (base64 hex : Codec (List B) T)

/-- The native answer: the crate's operations between the decoders and the encoders of
the wire format. An error is shown by its text, and the self-test is the browser's own. -/
def Request.native : Request B T α → JsProg P α
  | .generateSalt =>
      (do
        let salt ← EvnxCrypto.generateSalt P
        pure (saltToBase64 base64 salt)).mapErr js
  | .deriveMasterKey password argon2SaltB64 =>
      (Run.lift do
        let salt ← saltFromBase64 base64 argon2SaltB64
        EvnxCrypto.deriveMasterKey P (asBytes password) salt).mapErr js
  | .deriveSrpPassword password srpSaltB64 =>
      (Run.lift do
        let salt ← saltFromBase64 base64 srpSaltB64
        let out ← EvnxCrypto.deriveSrpPassword P (asBytes password) salt
        pure (b64Encode base64 out)).mapErr js
  | .createVaultKey => (VaultKey.generate P).mapErr js
  | .wrapVaultKey vk mk => (wrapVaultKeyWithMasterKey P vk mk).mapErr js
  | .unwrapVaultKey wrapped mk => (unwrapVaultKeyWithMasterKey P wrapped mk).mapErr js
  | .blobHash ciphertext => pure (EvnxCrypto.blobHash P hex.encode ciphertext)
  | .encryptVault plaintext vk vaultId version =>
      (do
        let blob ← EvnxCrypto.encryptVault P plaintext vk (vaultAad vaultId version)
        pure (joinBlob blob)).mapErr js
  | .decryptVault blob vk vaultId version =>
      if h : NONCE_LEN ≤ blob.length then
        (EvnxCrypto.decryptVault P (splitBlob blob h) vk (vaultAad vaultId version)).mapErr js
      else Run.fail ⟨"blob shorter than a nonce"⟩
  | .reencryptVault blob oldKey newKey vaultId version =>
      (EvnxCrypto.reencryptVault P blob oldKey newKey (vaultAad vaultId version)).mapErr js
  | .aadSelfTest vaultId version => Wasm.aadSelfTest P vaultId version
  | .ed25519PublicKey kp => pure (kp.ed25519PublicBase64 base64)
  | .x25519PublicKey kp => pure (kp.x25519PublicBase64 base64)
  | .mlkemPublicKey kp => pure (kp.mlkemPublicBase64 base64)
  | .unwrapSharedVaultKey kp bundle =>
      (do
        let wrapped ← Run.lift (WrappedVaultKey.fromBase64 base64 bundle.encryptedVaultKeyB64
          bundle.ephPubKeyB64 bundle.mlkemCiphertextB64)
        EvnxCrypto.unwrapVaultKey P wrapped kp).mapErr js
  | .wrapVaultKeyForUser vk x25519B64 mlkemB64 =>
      (do
        let recipient ← Run.lift (UserPublicKeys.fromBase64 base64 x25519B64 mlkemB64)
        let wrapped ← EvnxCrypto.wrapVaultKeyForUser P vk recipient
        pure (⟨wrapped.encryptedVaultKeyBase64 base64, wrapped.ephPubKeyBase64 base64,
          wrapped.mlkemCiphertextBase64 base64⟩ : WrappedKeyBundle T)).mapErr js
  | .computeVerifier email srpPasswordB64 srpSaltB64 =>
      (Run.lift do
        let pw ← b64Decode base64 srpPasswordB64 "srp_password"
        let salt ← saltFromBase64 base64 srpSaltB64
        let v ← EvnxCrypto.computeVerifier P email pw salt
        pure (⟨v.verifierHex hex, v.srpSaltBase64 base64⟩ : VerifierBundle T)).mapErr js
  | .generateClientEphemeral =>
      (do
        let ephemeral ← EvnxCrypto.generateClientEphemeral S P
        pure (hex.encode ephemeral.publicA, ephemeral)).mapErr js
  | .computeClientProof email srpPasswordB64 srpSaltB64 serverPublicBHex ephemeral => Run.lift do
      let pw ← (b64Decode base64 srpPasswordB64 "srp_password").mapErr js
      let salt ← (saltFromBase64 base64 srpSaltB64).mapErr js
      let b ← .okOr ⟨"server_public_b is not valid hex"⟩ (hex.decode serverPublicBHex)
      let proof ← (EvnxCrypto.computeClientProof S email pw salt.toList b ephemeral).mapErr js
      pure (hex.encode proof.clientProof, proof)
  | .verifyServerProof serverProofHex proof => Run.lift do
      let m2 ← .okOr ⟨"server_proof is not valid hex"⟩ (hex.decode serverProofHex)
      (EvnxCrypto.verifyServerProof m2 proof).mapErr js
  | .generateKeypair => (EvnxCrypto.generateKeypair P).mapErr js
  | .encryptPrivateKey kp mk =>
      (do
        let enc ← EvnxCrypto.encryptPrivateKey P kp mk
        pure (enc.toBase64 base64)).mapErr js
  | .decryptPrivateKey encryptedB64 mk =>
      (do
        let enc ← Run.lift (EncryptedPrivateKey.fromBase64 base64 encryptedB64)
        EvnxCrypto.decryptPrivateKey P enc mk).mapErr js

/-- The browser's answer: the binding on keys behind handles. Re-encryption has no
binding and stays with the native client. -/
def Request.browser : Request B T α → JsProg P α
  | .generateSalt => Wasm.generateSalt P base64
  | .deriveMasterKey password argon2SaltB64 => do
      let mk ← Run.lift (Wasm.deriveMasterKey P base64 password argon2SaltB64)
      pure mk.inner
  | .deriveSrpPassword password srpSaltB64 =>
      Run.lift (Wasm.deriveSrpPassword P base64 password srpSaltB64)
  | .createVaultKey => do
      let vk ← Wasm.createVaultKey P
      pure vk.inner
  | .wrapVaultKey vk mk => Wasm.wrapVaultKey P ⟨vk⟩ ⟨mk⟩
  | .unwrapVaultKey wrapped mk => do
      let vk ← Wasm.unwrapVaultKey P wrapped ⟨mk⟩
      pure vk.inner
  | .blobHash ciphertext => pure (Wasm.blobHash P hex ciphertext)
  | .encryptVault plaintext vk vaultId version => Wasm.encryptVault P plaintext ⟨vk⟩ vaultId version
  | .decryptVault blob vk vaultId version => Wasm.decryptVault P blob ⟨vk⟩ vaultId version
  | .reencryptVault blob oldKey newKey vaultId version =>
      (EvnxCrypto.reencryptVault P blob oldKey newKey (vaultAad vaultId version)).mapErr js
  | .aadSelfTest vaultId version => Wasm.aadSelfTest P vaultId version
  | .ed25519PublicKey kp => pure (KeypairHandle.ed25519PublicKey base64 ⟨kp⟩)
  | .x25519PublicKey kp => pure (KeypairHandle.x25519PublicKey base64 ⟨kp⟩)
  | .mlkemPublicKey kp => pure (KeypairHandle.mlkemPublicKey base64 ⟨kp⟩)
  | .unwrapSharedVaultKey kp bundle => do
      let vk ← KeypairHandle.unwrapSharedVaultKey P base64 ⟨kp⟩ bundle.encryptedVaultKeyB64
        bundle.ephPubKeyB64 bundle.mlkemCiphertextB64
      pure vk.inner
  | .wrapVaultKeyForUser vk x25519B64 mlkemB64 =>
      Wasm.wrapVaultKeyForUser P base64 ⟨vk⟩ x25519B64 mlkemB64
  | .computeVerifier email srpPasswordB64 srpSaltB64 =>
      Run.lift (Wasm.computeVerifier P base64 hex email srpPasswordB64 srpSaltB64)
  | .generateClientEphemeral => do
      let ephemeral ← Wasm.generateClientEphemeral P S
      pure (ephemeral.publicA hex, ephemeral.inner)
  | .computeClientProof email srpPasswordB64 srpSaltB64 serverPublicBHex ephemeral => Run.lift do
      let proof ← Wasm.computeClientProof S base64 hex email srpPasswordB64 srpSaltB64
        serverPublicBHex ⟨ephemeral⟩
      pure (proof.clientProof hex, proof.inner)
  | .verifyServerProof serverProofHex proof =>
      Run.lift (Wasm.verifyServerProof hex serverProofHex ⟨proof⟩)
  | .generateKeypair => do
      let kp ← Wasm.generateKeypair P
      pure kp.inner
  | .encryptPrivateKey kp mk => Wasm.encryptPrivateKey P base64 ⟨kp⟩ ⟨mk⟩
  | .decryptPrivateKey encryptedB64 mk => do
      let kp ← Wasm.decryptPrivateKey P base64 encryptedB64 ⟨mk⟩
      pure kp.inner

end

section
variable {P : Crates B} {S : SrpClient B} {base64 hex : Codec (List B) T}

theorem computeClientProof_encoded (hb64 : base64.RoundTrips) (hhex : hex.RoundTrips)
    (email : String) (pw : List B) (salt : List.Vector B SALT_LEN) (serverPublicB : List B)
    (ephemeral : SrpClientEphemeral B) :
    Wasm.computeClientProof S base64 hex email (b64Encode base64 pw) (saltToBase64 base64 salt)
        (hex.encode serverPublicB) ⟨ephemeral⟩ =
      (do
        let proof ← EvnxCrypto.computeClientProof S email pw salt.toList serverPublicB ephemeral
        pure (⟨proof⟩ : SrpProofHandle B)).mapErr js := by
  unfold Wasm.computeClientProof
  rw [b64Decode_b64Encode hb64, Outcome.mapErr_ok, Outcome.ok_bind,
    saltFromB64_saltToBase64 hb64, Outcome.ok_bind, hhex, Outcome.okOr_some, Outcome.ok_bind,
    Outcome.mapErr_bind]
  rfl

/-- The browser answers every request as the native client does. -/
theorem Request.browser_eq_native (S : SrpClient B) (base64 hex : Codec (List B) T)
    (r : Request B T α) : r.browser P S base64 hex = r.native P S base64 hex := by
  cases r with
  | generateSalt =>
      simp only [browser, native, Wasm.generateSalt, Run.mapErr_bind, Run.mapErr_pure]
  | deriveMasterKey password argon2SaltB64 =>
      simp only [browser, native, Wasm.deriveMasterKey, saltFromB64, Run.lift_bind, Run.lift_pure,
        Run.mapErr_bind, Run.mapErr_lift, bind_assoc, pure_bind, bind_pure]
  | deriveSrpPassword password srpSaltB64 =>
      simp only [browser, native, Wasm.deriveSrpPassword, saltFromB64, Outcome.mapErr_bind,
        Outcome.mapErr_pure, Run.mapErr_lift]
  | createVaultKey =>
      simp only [browser, native, Wasm.createVaultKey, bind_assoc, pure_bind, bind_pure]
  | unwrapVaultKey wrapped mk =>
      simp only [browser, native, Wasm.unwrapVaultKey, bind_assoc, pure_bind, bind_pure]
  | encryptVault plaintext vk vaultId version =>
      simp only [browser, native, Wasm.encryptVault, Run.mapErr_bind, Run.mapErr_pure, joinBlob]
  | decryptVault blob vk vaultId version =>
      by_cases h : NONCE_LEN ≤ blob.length
      · simp only [browser, native, dif_pos h, decryptVault_of_le vk vaultId version h]
      · simp only [browser, native, dif_neg h,
          decryptVault_of_short vk vaultId version (not_le.mp h)]
  | unwrapSharedVaultKey kp bundle =>
      simp only [browser, native, KeypairHandle.unwrapSharedVaultKey, Run.mapErr_bind,
        Run.mapErr_lift, bind_assoc, pure_bind, bind_pure]
  | wrapVaultKeyForUser vk x25519B64 mlkemB64 =>
      simp only [browser, native, Wasm.wrapVaultKeyForUser, Run.mapErr_bind, Run.mapErr_lift,
        Run.mapErr_pure]
  | computeVerifier email srpPasswordB64 srpSaltB64 =>
      simp only [browser, native, Wasm.computeVerifier, saltFromB64, Outcome.mapErr_bind,
        Outcome.mapErr_pure, Run.mapErr_lift]
  | generateClientEphemeral =>
      simp only [browser, native, Wasm.generateClientEphemeral, bind_assoc, pure_bind,
        Run.mapErr_bind, Run.mapErr_pure, SrpEphemeralHandle.publicA]
  | computeClientProof email srpPasswordB64 srpSaltB64 serverPublicBHex ephemeral =>
      simp only [browser, native, Wasm.computeClientProof, saltFromB64, bind_assoc, pure_bind,
        SrpProofHandle.clientProof]
  | verifyServerProof serverProofHex proof => rfl
  | generateKeypair =>
      simp only [browser, native, Wasm.generateKeypair, bind_assoc, pure_bind, bind_pure]
  | encryptPrivateKey kp mk =>
      simp only [browser, native, Wasm.encryptPrivateKey, Run.mapErr_bind, Run.mapErr_pure]
  | decryptPrivateKey encryptedB64 mk =>
      simp only [browser, native, Wasm.decryptPrivateKey, Run.mapErr_bind, Run.mapErr_lift,
        bind_assoc, pure_bind, bind_pure]
  | _ => rfl

end

/-! ## Sessions of mixed clients -/

inductive Client where
  | native
  | browser
  deriving DecidableEq, Repr

/-- A request together with the client it is put to. -/
abbrev ClientCall (B T α : Type) : Type := Client × Request B T α

section
variable (P : Crates B) (S : SrpClient B) (base64 hex : Codec (List B) T)

/-- Each request is answered by the client it is put to. -/
def clients : Handler (ClientCall B T) (World P) JsError
  | _, (.native, r) => r.native P S base64 hex
  | _, (.browser, r) => r.browser P S base64 hex

/-- The native client answers, whichever client is asked. -/
def nativeAlone : Handler (ClientCall B T) (World P) JsError :=
  fun _ call => call.2.native P S base64 hex

end

section
variable {P : Crates B} {S : SrpClient B} {base64 hex : Codec (List B) T}

theorem clients_eq_nativeAlone :
    clients P S base64 hex = nativeAlone (T := T) P S base64 hex := by
  funext β call
  rcases call with ⟨_ | _, r⟩
  · rfl
  · exact r.browser_eq_native S base64 hex

/-! ## Every flow -/

/-- The two front ends agree, flow by flow and in any mix. -/
structure Interoperable (P : Crates B) (S : SrpClient B) (base64 hex : Codec (List B) T) :
    Prop where
  sealed : ∀ plaintext vk vaultId version,
    Wasm.encryptVault P plaintext ⟨vk⟩ vaultId version =
      (do
        let blob ← EvnxCrypto.encryptVault P plaintext vk (vaultAad vaultId version)
        pure (blob.nonce.toList ++ blob.ciphertext)).mapErr js
  short : ∀ (blob : List B) vk vaultId version w, blob.length < 12 →
    ∃ e, Wasm.decryptVault P blob ⟨vk⟩ vaultId version w = (.err e, w)
  opens : ∀ (blob : List B) vk vaultId version (h : (blob.take 12).length = 12),
    Wasm.decryptVault P blob ⟨vk⟩ vaultId version =
      (EvnxCrypto.decryptVault P ⟨asArray (blob.take 12) h, blob.drop 12⟩ vk
        (vaultAad vaultId version)).mapErr js
  native_to_browser : ∀ {plaintext vk vaultId version w w' u blob},
    EvnxCrypto.encryptVault P plaintext vk (vaultAad vaultId version) w = (.ok blob, w') →
    w'.Extends u →
    Wasm.decryptVault P (blob.nonce.toList ++ blob.ciphertext) ⟨vk⟩ vaultId version u =
      (.ok plaintext, u)
  browser_to_native : ∀ {plaintext vk vaultId version w w' u bytes},
    Wasm.encryptVault P plaintext ⟨vk⟩ vaultId version w = (.ok bytes, w') → w'.Extends u →
    ∃ h : (bytes.take 12).length = 12,
      EvnxCrypto.decryptVault P ⟨asArray (bytes.take 12) h, bytes.drop 12⟩ vk
        (vaultAad vaultId version) u = (.ok plaintext, u)
  master_key : ∀ password salt,
    Wasm.deriveMasterKey P base64 password (saltToBase64 base64 salt) =
      (do
        let mk ← EvnxCrypto.deriveMasterKey P (asBytes password) salt
        pure (⟨mk⟩ : MasterKeyHandle B)).mapErr js
  srp_password : ∀ password salt,
    Wasm.deriveSrpPassword P base64 password (saltToBase64 base64 salt) =
      (do
        let pw ← EvnxCrypto.deriveSrpPassword P (asBytes password) salt
        pure (b64Encode base64 pw)).mapErr js
  verifier : ∀ email pw salt,
    Wasm.computeVerifier P base64 hex email (b64Encode base64 pw) (saltToBase64 base64 salt) =
      (do
        let v ← EvnxCrypto.computeVerifier P email pw salt
        pure (⟨hex.encode v.verifier, saltToBase64 base64 v.srpSalt⟩ : VerifierBundle T)).mapErr js
  client_proof : ∀ email pw salt serverPublicB ephemeral,
    (do
      let handle ← Wasm.computeClientProof S base64 hex email (b64Encode base64 pw)
        (saltToBase64 base64 salt) (hex.encode serverPublicB) ⟨ephemeral⟩
      pure (handle.clientProof hex, handle.inner)) =
      (do
        let proof ← EvnxCrypto.computeClientProof S email pw salt.toList serverPublicB ephemeral
        pure (hex.encode proof.clientProof, proof)).mapErr js
  server_proof : ∀ serverProof proof,
    Wasm.verifyServerProof hex (hex.encode serverProof) ⟨proof⟩ =
      (EvnxCrypto.verifyServerProof serverProof proof).mapErr js
  seal_keypair : ∀ kp mk,
    Wasm.encryptPrivateKey P base64 ⟨kp⟩ ⟨mk⟩ =
      (do
        let enc ← EvnxCrypto.encryptPrivateKey P kp mk
        pure (enc.toBase64 base64)).mapErr js
  open_keypair : ∀ encryptedB64 mk,
    (do
      let handle ← Wasm.decryptPrivateKey P base64 encryptedB64 ⟨mk⟩
      pure handle.inner) =
      (do
        let enc ← Run.lift (EncryptedPrivateKey.fromBase64 base64 encryptedB64)
        EvnxCrypto.decryptPrivateKey P enc mk).mapErr js
  share : ∀ vk x25519B64 mlkemB64,
    Wasm.wrapVaultKeyForUser P base64 ⟨vk⟩ x25519B64 mlkemB64 =
      (do
        let recipient ← Run.lift (UserPublicKeys.fromBase64 base64 x25519B64 mlkemB64)
        let wrapped ← EvnxCrypto.wrapVaultKeyForUser P vk recipient
        pure (⟨wrapped.encryptedVaultKeyBase64 base64, wrapped.ephPubKeyBase64 base64,
          wrapped.mlkemCiphertextBase64 base64⟩ : WrappedKeyBundle T)).mapErr js
  receive : ∀ kp e p c,
    (do
      let handle ← KeypairHandle.unwrapSharedVaultKey P base64 ⟨kp⟩ e p c
      pure handle.inner) =
      (do
        let wrapped ← Run.lift (WrappedVaultKey.fromBase64 base64 e p c)
        EvnxCrypto.unwrapVaultKey P wrapped kp).mapErr js
  salt : Wasm.generateSalt P base64 =
    (do
      let salt ← EvnxCrypto.generateSalt P
      pure (saltToBase64 base64 salt)).mapErr js
  salt_read_back : ∀ salt, saltFromBase64 base64 (saltToBase64 base64 salt) = .ok salt
  blob_hash : ∀ ciphertext,
    Wasm.blobHash P hex ciphertext = hex.encode (P.blake3Hash ciphertext).toList
  ed25519_public_key : ∀ kp, Ed25519PublicKey.fromBase64 base64
    (KeypairHandle.ed25519PublicKey base64 ⟨kp⟩) = .ok kp.ed25519Public
  public_keys : ∀ kp, UserPublicKeys.fromBase64 base64
    (KeypairHandle.x25519PublicKey base64 ⟨kp⟩) (KeypairHandle.mlkemPublicKey base64 ⟨kp⟩) =
      .ok kp.publicKeys
  requests : ∀ {α : Type} (r : Request B T α),
    r.browser P S base64 hex = r.native P S base64 hex
  sessions : ∀ {α : Type} (t : Interaction (ClientCall B T) JsError α) w,
    t.trace (clients P S base64 hex) w = t.trace (nativeAlone P S base64 hex) w ∧
      t.result (clients P S base64 hex) w = t.result (nativeAlone P S base64 hex) w ∧
      t.final (clients P S base64 hex) w = t.final (nativeAlone P S base64 hex) w

theorem interoperable (hcorrect : P.AeadCorrect) (hb64 : base64.RoundTrips)
    (hhex : hex.RoundTrips) : Interoperable P S base64 hex where
  sealed plaintext vk vaultId version :=
    Request.browser_eq_native S base64 hex (.encryptVault plaintext vk vaultId version)
  short blob vk vaultId version w h := by
    rw [decryptVault_of_short vk vaultId version h]
    exact ⟨_, rfl⟩
  opens blob vk vaultId version h := by
    have hle : 12 ≤ blob.length := by
      rw [List.length_take] at h
      omega
    exact decryptVault_of_le vk vaultId version hle
  native_to_browser hseal hext := browser_opens_native hcorrect hseal hext
  browser_to_native hseal hext := by
    rcases native_opens_browser hcorrect hseal hext with ⟨h, hopen⟩
    exact ⟨List.length_take_of_le h, hopen⟩
  master_key password salt := deriveMasterKey_encoded hb64 password salt
  srp_password password salt := deriveSrpPassword_encoded hb64 password salt
  verifier email pw salt := computeVerifier_encoded hb64 email pw salt
  client_proof email pw salt serverPublicB ephemeral := by
    rw [computeClientProof_encoded hb64 hhex]
    simp only [Outcome.mapErr_bind, Outcome.mapErr_pure, bind_assoc, pure_bind,
      SrpProofHandle.clientProof]
  server_proof serverProof proof := verifyServerProof_encoded hhex serverProof proof
  seal_keypair kp mk :=
    Request.browser_eq_native S base64 hex (.encryptPrivateKey kp mk)
  open_keypair encryptedB64 mk :=
    Request.browser_eq_native S base64 hex (.decryptPrivateKey encryptedB64 mk)
  share vk x25519B64 mlkemB64 :=
    Request.browser_eq_native S base64 hex (.wrapVaultKeyForUser vk x25519B64 mlkemB64)
  receive kp e p c :=
    Request.browser_eq_native S base64 hex (.unwrapSharedVaultKey kp ⟨e, p, c⟩)
  salt := Request.browser_eq_native S base64 hex .generateSalt
  salt_read_back salt := b64DecodeArray_b64Encode hb64 salt "salt"
  blob_hash ciphertext := rfl
  ed25519_public_key kp := ed25519PublicKey_read_back hb64 kp
  public_keys kp := publicKeys_read_back hb64 kp
  requests r := r.browser_eq_native S base64 hex
  sessions t w := by
    rw [clients_eq_nativeAlone]
    exact ⟨rfl, rfl, rfl⟩

end

section
open Octet

theorem octet_aeadCorrect (G : Srp6a.Group) : (crates G).AeadCorrect := fun _ => aead_correct

def zeroWorld : World (crates group23) := World.init _ fun _ _ n => List.Vector.replicate n 0

def note : List UInt8 := utf8 "A=1"

def noteKey : VaultKey UInt8 := ⟨List.Vector.replicate VAULT_KEY_LEN 7⟩

theorem note_sealed :
    ∃ blob w', EvnxCrypto.encryptVault (crates group23) note noteKey (vaultAad "team" 3) zeroWorld =
      (.ok blob, w') :=
  ⟨_, _, encryptVault_of_some rfl⟩

/-- A note sealed by the native client opens in the browser. -/
theorem interoperable_note :
    ∃ blob w', EvnxCrypto.encryptVault (crates group23) note noteKey (vaultAad "team" 3)
        zeroWorld = (.ok blob, w') ∧
      Wasm.decryptVault (crates group23) (blob.nonce.toList ++ blob.ciphertext) ⟨noteKey⟩ "team" 3
        w' = (.ok note, w') := by
  rcases note_sealed with ⟨blob, w', hseal⟩
  have hagree : Interoperable (crates group23) (srpClient group23) Base64.codec Hex.codec :=
    interoperable (octet_aeadCorrect group23) Base64.codec_strict.roundTrips Hex.codec_roundTrips
  exact ⟨blob, w', hseal, hagree.native_to_browser hseal (.refl w')⟩

end
end EvnxCrypto
