import EvnxCrypto.Interop
import EvnxCrypto.Ledger

/-!
# Sessions of either client as native programs

What a client is asked is compiled to calls of the native interface: texts are
decoded before the call and encoded after it, and an error becomes its text. Any
session, whichever client answers each request, is therefore a native program, and
what holds of all native programs holds of it.
-/
namespace EvnxCrypto
open Effect ByteString AuthenticatedEncryption Wasm

variable {B T α : Type}

/-- A value computed from an answer. -/
def Effect.Outcome.mapOk {ε β : Type} (f : α → β) (x : Outcome ε α) : Outcome ε β :=
  x >>= fun a => pure (f a)

/-- One call whose answer is packed by `f`. -/
def askAs {β : Type} (call : Api B α) (f : α → β) : Program B (Outcome JsError β) :=
  .ask call fun x => .done ((x.mapOk f).mapErr js)

/-- A conversion that can fail, and a program for what it returns. -/
def decodeThen {β : Type} (x : JsResult α) (f : α → Program B (Outcome JsError β)) :
    Program B (Outcome JsError β) :=
  match x with
  | .ok a => f a
  | .err e => .done (.err e)
  | .panic => .done .panic

/-- A call, and a program for what it returns. -/
def askThen {β : Type} (call : Api B α) (f : α → Program B (Outcome JsError β)) :
    Program B (Outcome JsError β) :=
  .ask call fun x => decodeThen (x.mapErr js) f

variable [Byte B] [DecidableEq B]

/-- The program of the self-test: four calls, the last of which has to fail. -/
def selfTestProgram (vaultId : String) (version : UInt32) : Program B (Outcome JsError Bool) :=
  askThen .generateVaultKey fun key =>
    askThen (.encryptVault selfTestPlaintext key (vaultAad vaultId version)) fun blob =>
      askThen (.decryptVault blob key (vaultAad vaultId version)) fun opened =>
        if opened ≠ selfTestPlaintext then .done (.ok false)
        else .ask (.decryptVault blob key (vaultAad vaultId (version + 1))) fun
          | .ok _ => .done (.ok false)
          | .err _ => .done (.ok true)
          | .panic => .done .panic

/-- The native program behind each request. -/
def Request.program (P : Crates B) (base64 hex : Codec (List B) T) :
    Interaction.Implementation (Request B T) (Api B) JsError CryptoError
  | _, .generateSalt => askAs .generateSalt (saltToBase64 base64)
  | _, .deriveMasterKey password argon2SaltB64 =>
      decodeThen (saltFromB64 base64 argon2SaltB64) fun salt =>
        askAs (.deriveMasterKey (asBytes password) salt) id
  | _, .deriveSrpPassword password srpSaltB64 =>
      decodeThen (saltFromB64 base64 srpSaltB64) fun salt =>
        askAs (.deriveSrpPassword (asBytes password) salt) (b64Encode base64)
  | _, .createVaultKey => askAs .generateVaultKey id
  | _, .wrapVaultKey vk mk => askAs (.wrapVaultKeyWithMasterKey vk mk) id
  | _, .unwrapVaultKey wrapped mk => askAs (.unwrapVaultKeyWithMasterKey wrapped mk) id
  | _, .blobHash ciphertext => .done (.ok (EvnxCrypto.blobHash P hex.encode ciphertext))
  | _, .encryptVault plaintext vk vaultId version =>
      askAs (.encryptVault plaintext vk (vaultAad vaultId version)) joinBlob
  | _, .decryptVault blob vk vaultId version =>
      if h : NONCE_LEN ≤ blob.length then
        askAs (.decryptVault (splitBlob blob h) vk (vaultAad vaultId version)) id
      else .done (.err ⟨"blob shorter than a nonce"⟩)
  | _, .reencryptVault blob oldKey newKey vaultId version =>
      askAs (.reencryptVault blob oldKey newKey (vaultAad vaultId version)) id
  | _, .aadSelfTest vaultId version => selfTestProgram vaultId version
  | _, .ed25519PublicKey kp => .done (.ok (kp.ed25519PublicBase64 base64))
  | _, .x25519PublicKey kp => .done (.ok (kp.x25519PublicBase64 base64))
  | _, .mlkemPublicKey kp => .done (.ok (kp.mlkemPublicBase64 base64))
  | _, .unwrapSharedVaultKey kp bundle =>
      decodeThen ((WrappedVaultKey.fromBase64 base64 bundle.encryptedVaultKeyB64
        bundle.ephPubKeyB64 bundle.mlkemCiphertextB64).mapErr js) fun wrapped =>
          askAs (.unwrapVaultKey wrapped kp) id
  | _, .wrapVaultKeyForUser vk x25519B64 mlkemB64 =>
      decodeThen ((UserPublicKeys.fromBase64 base64 x25519B64 mlkemB64).mapErr js) fun recipient =>
        askAs (.wrapVaultKeyForUser vk recipient) fun wrapped =>
          ⟨wrapped.encryptedVaultKeyBase64 base64, wrapped.ephPubKeyBase64 base64,
            wrapped.mlkemCiphertextBase64 base64⟩
  | _, .computeVerifier email srpPasswordB64 srpSaltB64 =>
      decodeThen ((b64Decode base64 srpPasswordB64 "srp_password").mapErr js) fun pw =>
        decodeThen (saltFromB64 base64 srpSaltB64) fun salt =>
          askAs (.computeVerifier email pw salt) fun v =>
            ⟨v.verifierHex hex, v.srpSaltBase64 base64⟩
  | _, .generateClientEphemeral =>
      askAs .generateClientEphemeral fun ephemeral => (hex.encode ephemeral.publicA, ephemeral)
  | _, .computeClientProof email srpPasswordB64 srpSaltB64 serverPublicBHex ephemeral =>
      decodeThen ((b64Decode base64 srpPasswordB64 "srp_password").mapErr js) fun pw =>
        decodeThen (saltFromB64 base64 srpSaltB64) fun salt =>
          decodeThen (.okOr ⟨"server_public_b is not valid hex"⟩ (hex.decode serverPublicBHex))
            fun b => askAs (.computeClientProof email pw salt.toList b ephemeral) fun proof =>
              (hex.encode proof.clientProof, proof)
  | _, .verifyServerProof serverProofHex proof =>
      decodeThen (.okOr ⟨"server_proof is not valid hex"⟩ (hex.decode serverProofHex)) fun m2 =>
        askAs (.verifyServerProof m2 proof) id
  | _, .generateKeypair => askAs .generateKeypair id
  | _, .encryptPrivateKey kp mk => askAs (.encryptPrivateKey kp mk) fun enc => enc.toBase64 base64
  | _, .decryptPrivateKey encryptedB64 mk =>
      decodeThen ((EncryptedPrivateKey.fromBase64 base64 encryptedB64).mapErr js) fun enc =>
        askAs (.decryptPrivateKey enc mk) id

variable {P : Crates B} {S : SrpClient B} {base64 hex : Codec (List B) T}

theorem askAs_toRun {β : Type} (call : Api B α) (f : α → β) :
    (askAs call f).toRun (Api.call P S) =
      (do
        let a ← Api.call P S α call
        pure (f a)).mapErr js := by
  ext w : 2
  simp only [askAs, Interaction.toRun, Interaction.result, Interaction.final, Run.mapErr,
    Run.bind_apply]
  rcases Api.call P S α call w with ⟨a | e | _, w'⟩ <;> rfl

theorem decodeThen_toRun {β : Type} (x : JsResult α) (f : α → Program B (Outcome JsError β)) :
    (decodeThen x f).toRun (Api.call P S) =
      (do
        let a ← Run.lift x
        (f a).toRun (Api.call P S)) := by
  cases x <;> rfl

theorem askThen_toRun {β : Type} (call : Api B α) (f : α → Program B (Outcome JsError β)) :
    (askThen call f).toRun (Api.call P S) =
      (do
        let a ← (Api.call P S α call).mapErr js
        (f a).toRun (Api.call P S)) := by
  ext w : 2
  simp only [askThen, Interaction.toRun, Interaction.result, Interaction.final, Run.mapErr,
    Run.bind_apply]
  rcases Api.call P S α call w with ⟨a | e | _, w'⟩ <;> rfl

theorem decodeThen_eq_ok {β : Type} {x : JsResult α} {f : α → Program B (Outcome JsError β)}
    {b : β} {w : World P} :
    (decodeThen x f).result (Api.call P S) w = .ok b ↔
      ∃ a, x = .ok a ∧ (f a).result (Api.call P S) w = .ok b := by
  cases x <;> simp [decodeThen, Interaction.result]

theorem selfTestProgram_toRun (vaultId : String) (version : UInt32) :
    (selfTestProgram vaultId version).toRun (Api.call P S) =
      aadSelfTest P vaultId version := by
  unfold selfTestProgram aadSelfTest
  simp only [askThen_toRun]
  refine bind_congr fun key => bind_congr fun blob => bind_congr fun opened => ?_
  by_cases h : opened ≠ selfTestPlaintext
  · rw [if_pos h, if_pos h]
    rfl
  · rw [if_neg h, if_neg h]
    ext w : 2
    simp only [Interaction.toRun, Interaction.result, Interaction.final, Run.isErr, Api.call]
    rcases EvnxCrypto.decryptVault P blob key (vaultAad vaultId (version + 1)) w with
      ⟨p | e | _, w'⟩ <;> rfl

/-- The program behind a request answers as the native client does. -/
theorem Request.program_implements :
    Interaction.Implements (Request.program P base64 hex)
      (fun _ r => r.native P S base64 hex) (Api.call P S) := by
  intro β r
  cases r with
  | deriveMasterKey password argon2SaltB64 =>
      simp only [Request.program, Request.native, decodeThen_toRun, askAs_toRun, saltFromB64, id,
        bind_pure, Run.lift_bind, Run.mapErr_bind, Run.mapErr_lift]
      rfl
  | deriveSrpPassword password srpSaltB64 =>
      simp only [Request.program, Request.native, decodeThen_toRun, askAs_toRun, saltFromB64,
        Run.lift_bind, Run.mapErr_bind, Run.mapErr_lift]
      rfl
  | blobHash => rfl
  | decryptVault blob vk vaultId version =>
      by_cases h : NONCE_LEN ≤ blob.length
      · simp only [Request.program, Request.native, dif_pos h, askAs_toRun, id, bind_pure]
        rfl
      · simp only [Request.program, Request.native, dif_neg h]
        rfl
  | aadSelfTest vaultId version => exact selfTestProgram_toRun vaultId version
  | ed25519PublicKey => rfl
  | x25519PublicKey => rfl
  | mlkemPublicKey => rfl
  | unwrapSharedVaultKey kp bundle =>
      simp only [Request.program, Request.native, decodeThen_toRun, askAs_toRun, id, bind_pure,
        Run.mapErr_bind, Run.mapErr_lift]
      rfl
  | wrapVaultKeyForUser vk x25519B64 mlkemB64 =>
      simp only [Request.program, Request.native, decodeThen_toRun, askAs_toRun,
        Run.mapErr_bind, Run.mapErr_lift]
      rfl
  | computeVerifier email srpPasswordB64 srpSaltB64 =>
      simp only [Request.program, Request.native, decodeThen_toRun, askAs_toRun, saltFromB64,
        Run.lift_bind, Run.mapErr_bind, Run.mapErr_lift]
      rfl
  | computeClientProof email srpPasswordB64 srpSaltB64 serverPublicBHex ephemeral =>
      simp only [Request.program, Request.native, decodeThen_toRun, askAs_toRun, saltFromB64,
        Run.lift_bind, Run.mapErr_bind]
      rfl
  | verifyServerProof serverProofHex proof =>
      simp only [Request.program, Request.native, decodeThen_toRun, askAs_toRun, id, bind_pure,
        Run.lift_bind]
      rfl
  | decryptPrivateKey encryptedB64 mk =>
      simp only [Request.program, Request.native, decodeThen_toRun, askAs_toRun, id, bind_pure,
        Run.mapErr_bind, Run.mapErr_lift]
      rfl
  | _ =>
      simp only [Request.program, Request.native, askAs_toRun, id, bind_pure]
      rfl

/-! ## The ledger behind the texts -/

/-- The ledger as clients see it, with what crosses between them for handles. Of a
self-test only the pair it was made at is kept: its key and its blob stay inside. -/
structure TextLedger (B T : Type) where
  vaults : Set (VaultKey B × String × UInt32 × List B × List B)
  wraps : Set (VaultKey B × MasterKey B × List B)
  keypairs : Set (UserKeypair B × MasterKey B × T)
  shares : Set (VaultKey B × (T × T) × WrappedKeyBundle T)
  tested : Set (String × UInt32)

def WrappedVaultKey.bundle (base64 : Codec (List B) T) (w : WrappedVaultKey B) :
    WrappedKeyBundle T :=
  ⟨w.encryptedVaultKeyBase64 base64, w.ephPubKeyBase64 base64, w.mlkemCiphertextBase64 base64⟩

namespace TextLedger
omit [DecidableEq B]

def empty : TextLedger B T := ⟨∅, ∅, ∅, ∅, ∅⟩

/-- The ledger after a request, whichever client answered it. -/
def next (L : TextLedger B T) {β : Type} : Request B T β → Outcome JsError β → TextLedger B T
  | .encryptVault plaintext vk vaultId version, .ok bytes =>
      { L with vaults := insert (vk, vaultId, version, plaintext, bytes) L.vaults }
  | .reencryptVault blob oldKey newKey vaultId version, .ok fresh =>
      { L with vaults := L.vaults ∪ (fun p => (newKey, vaultId, version, p, joinBlob fresh)) ''
          {p | (oldKey, vaultId, version, p, joinBlob blob) ∈ L.vaults} }
  | .aadSelfTest vaultId version, _ => { L with tested := insert (vaultId, version) L.tested }
  | .wrapVaultKey vk masterKey, .ok bytes =>
      { L with wraps := insert (vk, masterKey, bytes) L.wraps }
  | .encryptPrivateKey kp masterKey, .ok text =>
      { L with keypairs := insert (kp, masterKey, text) L.keypairs }
  | .wrapVaultKeyForUser vk x25519B64 mlkemB64, .ok bundle =>
      { L with shares := insert (vk, (x25519B64, mlkemB64), bundle) L.shares }
  | _, _ => L

/-- The sample of a self-test, at the pair it was made at. -/
def Sample (L : TextLedger B T) (vaultId : String) (version : UInt32) (p : List B) : Prop :=
  (vaultId, version) ∈ L.tested ∧ p = selfTestPlaintext

/-- The answers the ledger allows to a request to open. What was sealed opens, and
besides it only the sample of a self-test can. -/
def allows (P : Crates B) (base64 : Codec (List B) T) (L : TextLedger B T) {β : Type} :
    Request B T β → Outcome JsError β → Prop
  | .decryptVault bytes vk vaultId version, x => ∀ p,
      ((vk, vaultId, version, p, bytes) ∈ L.vaults → x = .ok p) ∧
      (x = .ok p → (vk, vaultId, version, p, bytes) ∈ L.vaults ∨ L.Sample vaultId version p)
  | .reencryptVault blob oldKey _ vaultId version, x =>
      (∀ p, (oldKey, vaultId, version, p, joinBlob blob) ∈ L.vaults → ∃ fresh, x = .ok fresh) ∧
      ((∃ fresh, x = .ok fresh) → ∃ p,
        (oldKey, vaultId, version, p, joinBlob blob) ∈ L.vaults ∨ L.Sample vaultId version p)
  | .unwrapVaultKey bytes masterKey, x => ∀ vk, x = .ok vk ↔ (vk, masterKey, bytes) ∈ L.wraps
  | .decryptPrivateKey text masterKey, x => ∀ kp, x = .ok kp ↔
      ∃ sealed, (sealed, masterKey, text) ∈ L.keypairs ∧ kp = P.keypairOf sealed.ed25519PrivateSeed
  | .unwrapSharedVaultKey kp bundle, x => ∀ vk,
      (x = .ok vk → ∃ mlkemB64, (vk, (kp.x25519PublicBase64 base64, mlkemB64), bundle) ∈ L.shares) ∧
      (kp = P.keypairOf kp.ed25519PrivateSeed →
        (vk, (kp.x25519PublicBase64 base64, kp.mlkemPublicBase64 base64), bundle) ∈ L.shares →
        x = .ok vk)
  | _, _ => True

def monitor (P : Crates B) (base64 : Codec (List B) T) : Monitor (ClientCall B T) JsError where
  State := TextLedger B T
  allows L _ call x := L.allows P base64 call.2 x
  next L _ call x := L.next call.2 x

end TextLedger

/-- A ledger of values shown as texts. -/
def Ledger.texts (base64 : Codec (List B) T) (L : Ledger B) : TextLedger B T where
  vaults := {x | ∃ blob, joinBlob blob = x.2.2.2.2 ∧
    ⟨x.1, vaultAad x.2.1 x.2.2.1, x.2.2.2.1, blob⟩ ∈ L.vaults}
  wraps := {x | (.wrapWithMasterKey x.1 x.2.1, .wrapped x.2.2) ∈ L.keys}
  keypairs := {x | ∃ enc, enc.toBase64 base64 = x.2.2 ∧
    (.encryptPrivateKey x.1 x.2.1, .encrypted enc) ∈ L.keys}
  shares := {x | ∃ recipient wrapped, recipient.x25519.toBase64 base64 = x.2.1.1 ∧
    recipient.mlkem.toBase64 base64 = x.2.1.2 ∧ wrapped.bundle base64 = x.2.2 ∧
    (.wrapForUser x.1 recipient, .shared wrapped) ∈ L.keys}
  tested := ∅

/-- The ledger of texts shows all there is but for the samples of self-tests. -/
structure TextLedger.Mirrors (base64 : Codec (List B) T) (L : TextLedger B T) (L' : Ledger B) :
    Prop where
  kept : L.vaults ⊆ (L'.texts base64).vaults
  known : ∀ vk vaultId version p bytes,
    (vk, vaultId, version, p, bytes) ∈ (L'.texts base64).vaults →
    (vk, vaultId, version, p, bytes) ∈ L.vaults ∨ L.Sample vaultId version p
  wraps : L.wraps = (L'.texts base64).wraps
  keypairs : L.keypairs = (L'.texts base64).keypairs
  shares : L.shares = (L'.texts base64).shares

/-! ### Each step of the ledger behind the texts -/

section Texts
omit [Byte B] [DecidableEq B]

theorem packed_eq_ok {β : Type} {x : Result α} {f : α → β} {b : β} :
    (x.mapOk f).mapErr js = .ok b ↔ ∃ a, x = .ok a ∧ f a = b := by
  cases x <;> simp [Outcome.mapOk, Outcome.mapErr]

theorem askAs_eq_ok [Byte B] [DecidableEq B] {β : Type} {call : Api B α} {f : α → β} {b : β}
    {w : World P} :
    (askAs call f).result (Api.call P S) w = .ok b ↔
      ∃ a, (Api.call P S α call w).1 = .ok a ∧ f a = b :=
  packed_eq_ok

theorem unpacked_eq_ok {x : Result α} {a : α} : (x.mapOk id).mapErr js = .ok a ↔ x = .ok a := by
  rw [packed_eq_ok]
  simp

variable [Byte B] {L : Ledger B}

theorem Ledger.texts_store (vk : VaultKey B) (vaultId : String) (version : UInt32)
    (p : List B) (blob : EncryptedBlob B) :
    (L.store ⟨vk, vaultAad vaultId version, p, blob⟩).texts base64 =
      { L.texts base64 with
        vaults := insert (vk, vaultId, version, p, joinBlob blob) (L.texts base64).vaults } := by
  unfold Ledger.texts Ledger.store
  congr 1
  ext ⟨vk', id', v', p', bytes⟩
  simp only [Set.mem_insert_iff, Set.mem_ofPred_eq, Prod.mk.injEq, VaultEntry.mk.injEq]
  constructor
  · rintro ⟨blob', rfl, ⟨rfl, haad, rfl, rfl⟩ | hold⟩
    · obtain ⟨rfl, rfl⟩ := vaultAad_inj haad
      exact .inl ⟨rfl, rfl, rfl, rfl, rfl⟩
    · exact .inr ⟨blob', rfl, hold⟩
  · rintro (⟨rfl, rfl, rfl, rfl, rfl⟩ | ⟨blob', rfl, hold⟩)
    · exact ⟨blob, rfl, .inl ⟨rfl, rfl, rfl, rfl⟩⟩
    · exact ⟨blob', rfl, .inr hold⟩

theorem Ledger.texts_issue_wrapped (vk : VaultKey B) (mk : MasterKey B) (bytes : List B) :
    (L.issue (.wrapWithMasterKey vk mk) (.wrapped bytes)).texts base64 =
      { L.texts base64 with wraps := insert (vk, mk, bytes) (L.texts base64).wraps } := by
  unfold Ledger.texts Ledger.issue
  congr 1
  · ext ⟨vk', mk', bytes'⟩
    simp [and_assoc]
  · simp
  · simp

theorem Ledger.texts_issue_encrypted (kp : UserKeypair B) (mk : MasterKey B)
    (enc : EncryptedPrivateKey B) :
    (L.issue (.encryptPrivateKey kp mk) (.encrypted enc)).texts base64 =
      { L.texts base64 with
        keypairs := insert (kp, mk, enc.toBase64 base64) (L.texts base64).keypairs } := by
  unfold Ledger.texts Ledger.issue
  congr 1
  · simp
  · ext ⟨kp', mk', text⟩
    simp only [Set.mem_insert_iff, Set.mem_ofPred_eq, Prod.mk.injEq,
      KeyRequest.encryptPrivateKey.injEq, KeyAnswer.encrypted.injEq]
    constructor
    · rintro ⟨enc', rfl, ⟨⟨rfl, rfl⟩, rfl⟩ | hold⟩
      · exact .inl ⟨rfl, rfl, rfl⟩
      · exact .inr ⟨enc', rfl, hold⟩
    · rintro (⟨rfl, rfl, rfl⟩ | ⟨enc', rfl, hold⟩)
      · exact ⟨enc, rfl, .inl ⟨⟨rfl, rfl⟩, rfl⟩⟩
      · exact ⟨enc', rfl, .inr hold⟩
  · simp

theorem Ledger.texts_issue_shared (vk : VaultKey B) (recipient : UserPublicKeys B)
    (wrapped : WrappedVaultKey B) :
    (L.issue (.wrapForUser vk recipient) (.shared wrapped)).texts base64 =
      { L.texts base64 with
        shares := insert (vk, (recipient.x25519.toBase64 base64, recipient.mlkem.toBase64 base64),
          wrapped.bundle base64) (L.texts base64).shares } := by
  unfold Ledger.texts Ledger.issue
  congr 1
  · simp
  · simp
  · ext ⟨vk', ⟨x, m⟩, bundle⟩
    simp only [Set.mem_insert_iff, Set.mem_ofPred_eq, Prod.mk.injEq,
      KeyRequest.wrapForUser.injEq, KeyAnswer.shared.injEq]
    constructor
    · rintro ⟨recipient', wrapped', rfl, rfl, rfl, ⟨⟨rfl, rfl⟩, rfl⟩ | hold⟩
      · exact .inl ⟨rfl, ⟨rfl, rfl⟩, rfl⟩
      · exact .inr ⟨recipient', wrapped', rfl, rfl, rfl, hold⟩
    · rintro (⟨rfl, ⟨rfl, rfl⟩, rfl⟩ | ⟨recipient', wrapped', rfl, rfl, rfl, hold⟩)
      · exact ⟨recipient, wrapped, rfl, rfl, rfl, .inl ⟨⟨rfl, rfl⟩, rfl⟩⟩
      · exact ⟨recipient', wrapped', rfl, rfl, rfl, .inr hold⟩

omit [Byte B] in
theorem joinBlob_splitBlob {bytes : List B} (h : NONCE_LEN ≤ bytes.length) :
    joinBlob (splitBlob bytes h) = bytes := by
  unfold joinBlob splitBlob
  rw [asArray_toList]
  exact List.take_append_drop _ _

theorem Ledger.mem_texts_vaults {vk : VaultKey B} {vaultId : String} {version : UInt32}
    {p bytes : List B} : (vk, vaultId, version, p, bytes) ∈ (L.texts base64).vaults ↔
      ∃ h, ⟨vk, vaultAad vaultId version, p, splitBlob bytes h⟩ ∈ L.vaults := by
  constructor
  · rintro ⟨blob, rfl, hmem⟩
    refine ⟨le_joinBlob blob, ?_⟩
    rwa [splitBlob_joinBlob]
  · rintro ⟨h, hmem⟩
    exact ⟨splitBlob bytes h, joinBlob_splitBlob h, hmem⟩

theorem Ledger.mem_texts_joinBlob {vk : VaultKey B} {vaultId : String} {version : UInt32}
    {p : List B} {blob : EncryptedBlob B} :
    (vk, vaultId, version, p, joinBlob blob) ∈ (L.texts base64).vaults ↔
      ⟨vk, vaultAad vaultId version, p, blob⟩ ∈ L.vaults := by
  rw [Ledger.mem_texts_vaults, exists_prop_of_true (le_joinBlob blob), splitBlob_joinBlob]

/-- What a re-encryption adds to the texts, entry by entry. -/
theorem Ledger.mem_texts_move {blob fresh : EncryptedBlob B} {oldKey newKey vk : VaultKey B}
    {vaultId vid : String} {version v : UInt32} {p bytes : List B} :
    (vk, vid, v, p, bytes) ∈
        ((L.move blob fresh oldKey newKey (vaultAad vaultId version)).texts base64).vaults ↔
      (vk, vid, v, p, bytes) ∈ (L.texts base64).vaults ∨
        (vk = newKey ∧ vid = vaultId ∧ v = version ∧ bytes = joinBlob fresh ∧
          (oldKey, vaultId, version, p, joinBlob blob) ∈ (L.texts base64).vaults) := by
  rw [Ledger.mem_texts_joinBlob]
  constructor
  · rintro ⟨blob', rfl, hold | ⟨rfl, haad, rfl, hmem⟩⟩
    · exact .inl ⟨blob', rfl, hold⟩
    · obtain ⟨rfl, rfl⟩ := vaultAad_inj haad
      exact .inr ⟨rfl, rfl, rfl, rfl, hmem⟩
  · rintro (⟨blob', rfl, hold⟩ | ⟨rfl, rfl, rfl, rfl, hmem⟩)
    · exact ⟨blob', rfl, .inl hold⟩
    · exact ⟨fresh, rfl, .inr ⟨rfl, rfl, rfl, hmem⟩⟩

end Texts

namespace TextLedger.Mirrors
omit [DecidableEq B]
variable {L : TextLedger B T} {L' : Ledger B}

theorem store (h : L.Mirrors base64 L') (vk : VaultKey B) (vaultId : String) (version : UInt32)
    (p : List B) (blob : EncryptedBlob B) :
    TextLedger.Mirrors base64
      { L with vaults := insert (vk, vaultId, version, p, joinBlob blob) L.vaults }
      (L'.store ⟨vk, vaultAad vaultId version, p, blob⟩) := by
  constructor <;> rw [Ledger.texts_store]
  · exact Set.insert_subset_insert h.kept
  · rintro vk' vid v q bytes (hnew | hold)
    · exact .inl (.inl hnew)
    · exact (h.known _ _ _ _ _ hold).imp_left .inr
  · exact h.wraps
  · exact h.keypairs
  · exact h.shares

theorem move (h : L.Mirrors base64 L') (blob fresh : EncryptedBlob B)
    (oldKey newKey : VaultKey B) (vaultId : String) (version : UInt32) :
    TextLedger.Mirrors base64
      { L with vaults := L.vaults ∪ (fun p => (newKey, vaultId, version, p, joinBlob fresh)) ''
          {p | (oldKey, vaultId, version, p, joinBlob blob) ∈ L.vaults} }
      (L'.move blob fresh oldKey newKey (vaultAad vaultId version)) := by
  refine ⟨?_, ?_, h.wraps, h.keypairs, h.shares⟩
  · rintro ⟨vk, vid, v, p, bytes⟩ (hold | ⟨q, hq, heq⟩)
    · exact Ledger.mem_texts_move.mpr (.inl (h.kept hold))
    · cases heq
      exact Ledger.mem_texts_move.mpr (.inr ⟨rfl, rfl, rfl, rfl, h.kept hq⟩)
  · intro vk vid v p bytes hmem
    rcases Ledger.mem_texts_move.mp hmem with hold | ⟨rfl, rfl, rfl, rfl, hmoved⟩
    · exact (h.known _ _ _ _ _ hold).imp_left .inl
    · exact (h.known _ _ _ _ _ hmoved).imp_left fun hq => .inr ⟨p, hq, rfl⟩

/-- More pairs may have been tested than there are samples for. -/
theorem test (h : L.Mirrors base64 L') (vaultId : String) (version : UInt32) :
    TextLedger.Mirrors base64 { L with tested := insert (vaultId, version) L.tested } L' :=
  ⟨h.kept, fun _ _ _ _ _ hmem => (h.known _ _ _ _ _ hmem).imp_right fun hsample =>
    ⟨.inr hsample.1, hsample.2⟩, h.wraps, h.keypairs, h.shares⟩

theorem sample (h : L.Mirrors base64 L') (key : VaultKey B) (vaultId : String)
    (version : UInt32) (blob : EncryptedBlob B) :
    TextLedger.Mirrors base64 { L with tested := insert (vaultId, version) L.tested }
      (L'.store ⟨key, vaultAad vaultId version, selfTestPlaintext, blob⟩) := by
  have htest := h.test vaultId version
  constructor <;> rw [Ledger.texts_store]
  · exact h.kept.trans (Set.subset_insert _ _)
  · rintro vk vid v p bytes (hnew | hold)
    · cases hnew
      exact .inr ⟨.inl rfl, rfl⟩
    · exact htest.known _ _ _ _ _ hold
  · exact h.wraps
  · exact h.keypairs
  · exact h.shares

theorem wrapped (h : L.Mirrors base64 L') (vk : VaultKey B) (mk : MasterKey B)
    (bytes : List B) :
    TextLedger.Mirrors base64 { L with wraps := insert (vk, mk, bytes) L.wraps }
      (L'.issue (.wrapWithMasterKey vk mk) (.wrapped bytes)) := by
  constructor <;> rw [Ledger.texts_issue_wrapped]
  · exact h.kept
  · exact h.known
  · exact congrArg (insert _) h.wraps
  · exact h.keypairs
  · exact h.shares

theorem encrypted (h : L.Mirrors base64 L') (kp : UserKeypair B) (mk : MasterKey B)
    (enc : EncryptedPrivateKey B) :
    TextLedger.Mirrors base64
      { L with keypairs := insert (kp, mk, enc.toBase64 base64) L.keypairs }
      (L'.issue (.encryptPrivateKey kp mk) (.encrypted enc)) := by
  constructor <;> rw [Ledger.texts_issue_encrypted]
  · exact h.kept
  · exact h.known
  · exact h.wraps
  · exact congrArg (insert _) h.keypairs
  · exact h.shares

theorem shared (h : L.Mirrors base64 L') (vk : VaultKey B) (recipient : UserPublicKeys B)
    (wrapped : WrappedVaultKey B) :
    TextLedger.Mirrors base64
      { L with shares := insert (vk, (recipient.x25519.toBase64 base64,
          recipient.mlkem.toBase64 base64), wrapped.bundle base64) L.shares }
      (L'.issue (.wrapForUser vk recipient) (.shared wrapped)) := by
  constructor <;> rw [Ledger.texts_issue_shared]
  · exact h.kept
  · exact h.known
  · exact h.wraps
  · exact h.keypairs
  · exact congrArg (insert _) h.shares

end TextLedger.Mirrors

/-- The self-test leaves at most its sample behind. -/
theorem TextLedger.Mirrors.selfTest {L : TextLedger B T} {L' : Ledger B}
    (h : L.Mirrors base64 L') (vaultId : String) (version : UInt32) (w : World P) :
    TextLedger.Mirrors base64 { L with tested := insert (vaultId, version) L.tested }
      ((Ledger.monitor P).after L'
        ((selfTestProgram vaultId version).trace (Api.call P S) w)) := by
  have htest := h.test vaultId version
  unfold selfTestProgram askThen
  simp only [Interaction.trace, Monitor.after]
  cases (Api.call P S _ .generateVaultKey w).1 with
  | err e => exact htest
  | panic => exact htest
  | ok key =>
      simp only [Outcome.mapErr_ok, decodeThen, Interaction.trace, Monitor.after]
      set w' := (Api.call P S _ .generateVaultKey w).2
      cases hseal : (Api.call P S _ (.encryptVault selfTestPlaintext key
          (vaultAad vaultId version)) w').1 with
      | err e => exact htest
      | panic => exact htest
      | ok blob =>
          have hsample := h.sample key vaultId version blob
          simp only [Outcome.mapErr_ok, Interaction.trace, Monitor.after]
          -- what is opened from here on is not put on the ledger
          cases (Api.call P S _ (.decryptVault blob key (vaultAad vaultId version)) _).1 with
          | err e => exact hsample
          | panic => exact hsample
          | ok opened =>
              by_cases hsame : opened ≠ selfTestPlaintext
              · simp only [Outcome.mapErr_ok, if_pos hsame]
                exact hsample
              · simp only [Outcome.mapErr_ok, if_neg hsame, Interaction.trace]
                cases (Api.call P S _ (.decryptVault blob key
                  (vaultAad vaultId (version + 1))) _).1 <;> exact hsample

/-- What a request does to the ledger shows in the texts as the text ledger says. -/
theorem TextLedger.Mirrors.next (hb64 : base64.Strict) {L : TextLedger B T} {L' : Ledger B}
    (h : L.Mirrors base64 L') {β : Type} (r : Request B T β) (w : World P) :
    TextLedger.Mirrors base64
      (L.next r ((Request.program P base64 hex β r).result (Api.call P S) w))
      ((Ledger.monitor P).after L'
        ((Request.program P base64 hex β r).trace (Api.call P S) w)) := by
  cases r with
  | encryptVault p vk vaultId version =>
      simp only [Request.program, askAs, Interaction.result, Interaction.trace, Monitor.after]
      cases (Api.call P S _ (.encryptVault p vk (vaultAad vaultId version)) w).1 with
      | ok blob => exact h.store vk vaultId version p blob
      | err e => exact h
      | panic => exact h
  | reencryptVault blob oldKey newKey vaultId version =>
      simp only [Request.program, askAs, Interaction.result, Interaction.trace, Monitor.after]
      cases (Api.call P S _
        (.reencryptVault blob oldKey newKey (vaultAad vaultId version)) w).1 with
      | ok fresh => exact h.move blob fresh oldKey newKey vaultId version
      | err e => exact h
      | panic => exact h
  | aadSelfTest vaultId version =>
      cases (selfTestProgram vaultId version).result (Api.call P S) w <;>
        exact h.selfTest vaultId version w
  | wrapVaultKey vk mk =>
      simp only [Request.program, askAs, Interaction.result, Interaction.trace, Monitor.after]
      cases (Api.call P S _ (.wrapVaultKeyWithMasterKey vk mk) w).1 with
      | ok bytes => exact h.wrapped vk mk bytes
      | err e => exact h
      | panic => exact h
  | encryptPrivateKey kp mk =>
      simp only [Request.program, askAs, Interaction.result, Interaction.trace, Monitor.after]
      cases (Api.call P S _ (.encryptPrivateKey kp mk) w).1 with
      | ok enc => exact h.encrypted kp mk enc
      | err e => exact h
      | panic => exact h
  | wrapVaultKeyForUser vk x25519B64 mlkemB64 =>
      have hdecides := UserPublicKeys.fromBase64_decides hb64 x25519B64 mlkemB64
      simp only [Request.program]
      cases hx : UserPublicKeys.fromBase64 base64 x25519B64 mlkemB64 with
      | ok recipient =>
          obtain ⟨rfl, rfl⟩ := (hdecides.ok_iff recipient).mp hx
          simp only [Outcome.mapErr_ok, decodeThen, askAs, Interaction.trace, Interaction.result,
            Monitor.after]
          cases (Api.call P S _ (.wrapVaultKeyForUser vk recipient) w).1 with
          | ok wrapped => exact h.shared vk recipient wrapped
          | err e => exact h
          | panic => exact h
      | err e => exact h
      | panic => exact h
  | decryptVault blob vk vaultId version =>
      by_cases hlen : NONCE_LEN ≤ blob.length
      · simp only [Request.program, dif_pos hlen]
        exact h
      · simp only [Request.program, dif_neg hlen]
        exact h
  | deriveMasterKey password argon2SaltB64 =>
      simp only [Request.program]
      cases saltFromB64 base64 argon2SaltB64 <;> exact h
  | deriveSrpPassword password srpSaltB64 =>
      simp only [Request.program]
      cases saltFromB64 base64 srpSaltB64 <;> exact h
  | decryptPrivateKey text mk =>
      simp only [Request.program]
      cases EncryptedPrivateKey.fromBase64 base64 text <;> exact h
  | unwrapSharedVaultKey kp bundle =>
      simp only [Request.program]
      cases WrappedVaultKey.fromBase64 base64 bundle.encryptedVaultKeyB64 bundle.ephPubKeyB64
        bundle.mlkemCiphertextB64 <;> exact h
  | computeVerifier email srpPasswordB64 srpSaltB64 =>
      simp only [Request.program]
      cases b64Decode base64 srpPasswordB64 "srp_password" <;>
        cases saltFromB64 base64 srpSaltB64 <;> exact h
  | computeClientProof email srpPasswordB64 srpSaltB64 serverPublicBHex ephemeral =>
      simp only [Request.program]
      cases b64Decode base64 srpPasswordB64 "srp_password" <;>
        cases saltFromB64 base64 srpSaltB64 <;> cases hex.decode serverPublicBHex <;> exact h
  | verifyServerProof serverProofHex proof =>
      simp only [Request.program]
      cases hex.decode serverProofHex <;> exact h
  | _ => exact h

/-! ### What opens, by its text -/

section Reads
omit [DecidableEq B]
variable {L : Ledger B} {w : World P}

/-- A sealed seed of the ledger is read back from its text. -/
theorem Ledger.Describes.reads_encrypted (h : L.Describes w) (hb64 : base64.Strict)
    {kp : UserKeypair B} {mk : MasterKey B} {enc : EncryptedPrivateKey B}
    (hmem : (.encryptPrivateKey kp mk, .encrypted enc) ∈ L.keys) :
    EncryptedPrivateKey.fromBase64 base64 (enc.toBase64 base64) = .ok enc := by
  obtain ⟨v, v', hcall, -⟩ := h.made _ _ hmem
  obtain ⟨enc', u, hseal, hpure⟩ := Run.bind_eq_ok.mp hcall
  cases hpure
  obtain ⟨-, henc, -⟩ := encryptPrivateKey_eq_ok.mp hseal
  have hlen := (P.aead .xchacha20Poly1305).encrypt_length henc
  apply (EncryptedPrivateKey.fromBase64_decides hb64 _).eq_ok
  refine ⟨rfl, ?_⟩
  rw [hlen]
  exact Nat.le_add_left _ _

/-- A wrap of the ledger is read back from its three texts. -/
theorem Ledger.Describes.reads_shared (h : L.Describes w) (hb64 : base64.Strict)
    {vk : VaultKey B} {recipient : UserPublicKeys B} {wrapped : WrappedVaultKey B}
    (hmem : (.wrapForUser vk recipient, .shared wrapped) ∈ L.keys) :
    WrappedVaultKey.fromBase64 base64 (wrapped.encryptedVaultKeyBase64 base64)
      (wrapped.ephPubKeyBase64 base64) (wrapped.mlkemCiphertextBase64 base64) = .ok wrapped := by
  obtain ⟨v, v', hcall, -⟩ := h.made _ _ hmem
  obtain ⟨wrapped', u, hwrap, hpure⟩ := Run.bind_eq_ok.mp hcall
  cases hpure
  obtain ⟨-, ct, -, rfl, -⟩ := wrapVaultKeyForUser_eq_ok.mp hwrap
  apply (WrappedVaultKey.fromBase64_decides hb64 _ _ _).eq_ok
  exact ⟨rfl, rfl, rfl, List.Vector.toList_length _⟩

omit [Byte B] in
theorem UserPublicKeys.ext_base64 (hb64 : base64.Strict) {u v : UserPublicKeys B}
    (hx : u.x25519.toBase64 base64 = v.x25519.toBase64 base64)
    (hm : u.mlkem.toBase64 base64 = v.mlkem.toBase64 base64) : u = v := by
  have hread := UserPublicKeys.fromBase64_decides hb64 (v.x25519.toBase64 base64)
    (v.mlkem.toBase64 base64)
  have hu := hread.eq_ok (a := u) ⟨hx.symm, hm.symm⟩
  exact Outcome.ok.inj (hu.symm.trans (hread.eq_ok ⟨rfl, rfl⟩))

end Reads

section Opens
variable {L : Ledger B} {w : World P}

theorem Ledger.Describes.decryptVault_iff (h : L.Describes w) (hideal : P.Idealised)
    {bytes : List B} {vk : VaultKey B} {vaultId : String} {version : UInt32} {p : List B} :
    (Request.program P base64 hex _ (.decryptVault bytes vk vaultId version)).result
        (Api.call P S) w = .ok p ↔
      (vk, vaultId, version, p, bytes) ∈ (L.texts base64).vaults := by
  rw [Ledger.mem_texts_vaults]
  by_cases hlen : NONCE_LEN ≤ bytes.length
  · simp only [Request.program, dif_pos hlen, askAs, Interaction.result, unpacked_eq_ok,
      exists_prop_of_true hlen]
    rw [Api.call, decryptVault_apply, Outcome.okOr_eq_ok]
    exact h.opens_iff (hideal.aead _)
  · simp only [Request.program, dif_neg hlen, Interaction.result, reduceCtorEq, false_iff]
    rintro ⟨hle, -⟩
    exact hlen hle

theorem Ledger.Describes.reencryptVault_iff (h : L.Describes w) (hideal : P.Idealised)
    {blob : EncryptedBlob B} {oldKey newKey : VaultKey B} {vaultId : String} {version : UInt32}
    (hfree : ((Request.program P base64 hex _
      (.reencryptVault blob oldKey newKey vaultId version)).final (Api.call P S) w).CollisionFree) :
    (∃ fresh, (Request.program P base64 hex _
        (.reencryptVault blob oldKey newKey vaultId version)).result (Api.call P S) w = .ok fresh) ↔
      ∃ p, (oldKey, vaultId, version, p, joinBlob blob) ∈ (L.texts base64).vaults := by
  simp only [Request.program, askAs, Interaction.result, unpacked_eq_ok, Ledger.mem_texts_joinBlob]
  exact h.allowed (S := S) hideal (.reencryptVault blob oldKey newKey (vaultAad vaultId version))
    hfree

theorem Ledger.Describes.decryptPrivateKey_iff (h : L.Describes w) (hb64 : base64.Strict)
    (hideal : P.Idealised) {text : T} {mk : MasterKey B} {kp : UserKeypair B}
    (hfree : ((Request.program P base64 hex _ (.decryptPrivateKey text mk)).final
      (Api.call P S) w).CollisionFree) :
    (Request.program P base64 hex _ (.decryptPrivateKey text mk)).result (Api.call P S) w =
        .ok kp ↔
      ∃ sealed, (sealed, mk, text) ∈ (L.texts base64).keypairs ∧
        kp = P.keypairOf sealed.ed25519PrivateSeed := by
  simp only [Request.program] at hfree ⊢
  cases hread : EncryptedPrivateKey.fromBase64 base64 text with
  | ok enc =>
      rw [hread] at hfree
      have hiff := h.decrypt_allowed (hideal.aead _) hideal.aeadCorrect hfree kp
      simp only [Outcome.mapErr_ok, decodeThen, askAs, Interaction.result, unpacked_eq_ok, Api.call]
      rw [hiff]
      apply exists_congr
      intro sealed
      apply and_congr_left'
      obtain ⟨rfl, -⟩ := ((EncryptedPrivateKey.fromBase64_decides hb64 text).ok_iff enc).mp hread
      constructor
      · intro hmem
        exact ⟨enc, rfl, hmem⟩
      · rintro ⟨enc', htext, hmem⟩
        have hsame := h.reads_encrypted hb64 hmem
        rw [htext, hread, Outcome.ok.injEq] at hsame
        rwa [hsame]
  | err e =>
      simp only [Outcome.mapErr_err, decodeThen, Interaction.result, reduceCtorEq, false_iff]
      rintro ⟨sealed, ⟨enc, rfl, hmem⟩, -⟩
      rw [h.reads_encrypted hb64 hmem] at hread
      cases hread
  | panic =>
      constructor
      · intro h
        cases h
      · rintro ⟨sealed, ⟨enc, rfl, hmem⟩, -⟩
        rw [h.reads_encrypted hb64 hmem] at hread
        cases hread

theorem Ledger.Describes.receive_sound (h : L.Describes w) (hb64 : base64.Strict)
    (hideal : P.Idealised) {kp : UserKeypair B} {bundle : WrappedKeyBundle T} {vk : VaultKey B}
    (hfree : ((Request.program P base64 hex _ (.unwrapSharedVaultKey kp bundle)).final
      (Api.call P S) w).CollisionFree)
    (hok : (Request.program P base64 hex _ (.unwrapSharedVaultKey kp bundle)).result
      (Api.call P S) w = .ok vk) :
    ∃ mlkemB64, (vk, (kp.x25519PublicBase64 base64, mlkemB64), bundle) ∈
      (L.texts base64).shares := by
  rcases bundle with ⟨e, p, c⟩
  obtain ⟨wrapped, hread, hunwrap⟩ := decodeThen_eq_ok.mp hok
  rw [Outcome.mapErr_eq_ok] at hread
  simp only [Request.program, hread, Outcome.mapErr_ok] at hfree
  obtain ⟨recipient, hmem, hpublic⟩ :=
    h.shared_sound (hideal.aead _) hfree (unpacked_eq_ok.mp hunwrap)
  obtain ⟨rfl, rfl, rfl, -⟩ :=
    ((WrappedVaultKey.fromBase64_decides hb64 e p c).ok_iff wrapped).mp hread
  refine ⟨_, recipient, wrapped, ?_, rfl, rfl, hmem⟩
  rw [← hpublic]
  rfl

theorem Ledger.Describes.receive_complete (h : L.Describes w) (hb64 : base64.Strict)
    (hideal : P.Idealised) {kp : UserKeypair B} {bundle : WrappedKeyBundle T} {vk : VaultKey B}
    (hkp : kp = P.keypairOf kp.ed25519PrivateSeed)
    (hmem : (vk, (kp.x25519PublicBase64 base64, kp.mlkemPublicBase64 base64), bundle) ∈
      (L.texts base64).shares) :
    (Request.program P base64 hex _ (.unwrapSharedVaultKey kp bundle)).result (Api.call P S) w =
      .ok vk := by
  obtain ⟨recipient, wrapped, hx, hm, rfl, hmem⟩ := hmem
  obtain rfl : recipient = kp.publicKeys := UserPublicKeys.ext_base64 hb64 hx hm
  have hread := h.reads_shared hb64 hmem
  simp only [Request.program, WrappedVaultKey.bundle, hread, Outcome.mapErr_ok, decodeThen, askAs,
    Interaction.result, unpacked_eq_ok]
  exact h.shared_complete hideal.aeadCorrect hideal.dh hideal.kem hkp hmem

/-- A request to open is answered as the ledger of texts allows. -/
theorem TextLedger.Mirrors.allowed (hb64 : base64.Strict) (hideal : P.Idealised)
    {L : TextLedger B T} {L' : Ledger B} (h : L.Mirrors base64 L') (hL' : L'.Describes w)
    {β : Type} (r : Request B T β)
    (hfree : ((Request.program P base64 hex β r).final (Api.call P S) w).CollisionFree) :
    L.allows P base64 r ((Request.program P base64 hex β r).result (Api.call P S) w) := by
  cases r with
  | decryptVault bytes vk vaultId version =>
      intro p
      constructor
      · intro hmem
        exact (hL'.decryptVault_iff hideal).mpr (h.kept hmem)
      · intro hok
        exact h.known _ _ _ _ _ ((hL'.decryptVault_iff hideal).mp hok)
  | reencryptVault blob oldKey newKey vaultId version =>
      have hiff := hL'.reencryptVault_iff hideal hfree
      constructor
      · intro p hmem
        exact hiff.mpr ⟨p, h.kept hmem⟩
      · intro hok
        obtain ⟨p, hmem⟩ := hiff.mp hok
        exact ⟨p, h.known _ _ _ _ _ hmem⟩
  | unwrapVaultKey bytes mk =>
      intro vk
      rw [h.wraps]
      simp only [Request.program, askAs, Interaction.result, unpacked_eq_ok]
      exact hL'.unwrap_allowed (hideal.aead _) hideal.aeadCorrect hfree vk
  | decryptPrivateKey text mk =>
      intro kp
      rw [h.keypairs]
      exact hL'.decryptPrivateKey_iff hb64 hideal hfree
  | unwrapSharedVaultKey kp bundle =>
      intro vk
      rw [h.shares]
      exact ⟨hL'.receive_sound hb64 hideal hfree, hL'.receive_complete hb64 hideal⟩
  | _ => exact trivial

end Opens

/-! ## Every session of mixed clients -/

/-- The native program behind a request to a client. -/
def ClientCall.program (P : Crates B) (base64 hex : Codec (List B) T) :
    Interaction.Implementation (ClientCall B T) (Api B) JsError CryptoError :=
  fun β call => Request.program P base64 hex β call.2

theorem clients_implemented : Interaction.Implements (ClientCall.program P base64 hex)
    (clients P S base64 hex) (Api.call P S) := by
  intro β call
  rw [clients_eq_nativeAlone]
  exact Request.program_implements β call.2

theorem TextLedger.simulation (hideal : P.Idealised) (hb64 : base64.Strict) :
    Monitor.Simulation (TextLedger.monitor P base64) (clients P S base64 hex) World.CollisionFree
      fun (L : TextLedger B T) w => ∃ L' : Ledger B, L'.Describes w ∧ L.Mirrors base64 L' := by
  have himpl : Interaction.Implements (ClientCall.program P base64 hex)
      (clients P S base64 hex) (Api.call P S) := clients_implemented
  constructor
  · intro β call w hfree
    rw [← himpl.final_eq] at hfree
    exact hfree.of_extends (Interaction.rel World.Extends.refl World.Extends.trans
      (fun w _ c => Api.call_extends c w) _ w)
  · rintro L w ⟨L', hL', h⟩ β call hfree
    rw [← himpl.final_eq] at hfree
    rw [← himpl.result_eq]
    exact h.allowed hb64 hideal hL' call.2 hfree
  · rintro L w ⟨L', hL', h⟩ β call
    rw [← himpl.result_eq, ← himpl.final_eq]
    exact ⟨_, (Ledger.simulation hideal).related _ hL', h.next hb64 call.2 w⟩

section
open Symbolic Classical

end
end EvnxCrypto
