import EvnxCrypto.SessionNonces

/-!
# The self-test of the browser client

The self-test seals a sample, opens it again and tries it at the next version. It
passes wherever sessions lead, at the last version too, where the next one wraps
round to zero.
-/
namespace EvnxCrypto
open Effect ByteString AuthenticatedEncryption Wasm

variable {B T : Type} [Byte B] [DecidableEq B] {P : Crates B} {S : SrpClient B}

/-- A nonce on record has one sealing in every world that calls lead to. -/
theorem World.NoncesTagged.api {β : Type} (call : Api B β) {w : World P} (h : w.NoncesTagged) :
    (Api.call P S β call w).2.NoncesTagged := by
  have hmono : ∀ {w' : World P}, w.Extends w' →
      w'.history .aes256Gcm = w.history .aes256Gcm → w'.NoncesTagged := by
    intro w' hext hhistory
    unfold World.NoncesTagged
    rw [hhistory]
    exact Tagged.mono h (hext.drawn.map Draw.bytes)
  cases Api.call_moves (S := S) call w with
  | frame hframe => exact hmono hframe.extends' (congrFun hframe.history _)
  | vault p vk aad hw =>
      rw [hw]
      exact h.encryptVault p vk aad
  | key r hw =>
      rw [hw]
      exact hmono (r.call_step w).extends (r.call_history_aes w)

/-- What the self-test does once its key is drawn and its sample sealed. -/
theorem aadSelfTest_of_sealed (hideal : (P.aead .aes256Gcm).Ideal) {vaultId : String}
    {version : UInt32} {w w' : World P} {blob : EncryptedBlob B} {key : VaultKey B}
    (htagged : w'.NoncesTagged) (hfresh : w'.Fresh)
    (hkey : key = ⟨w.next .vaultKey VAULT_KEY_LEN⟩)
    (hseal : EvnxCrypto.encryptVault P selfTestPlaintext key (vaultAad vaultId version)
      (w.draw .vaultKey VAULT_KEY_LEN) = (.ok blob, w')) :
    aadSelfTest P vaultId version w = (.ok true, w') := by
  have honly := decrypt_iff_only_sealing hideal htagged hfresh (encryptVault_recorded hseal)
  have hopen : EvnxCrypto.decryptVault P blob key (vaultAad vaultId version) w' =
      (.ok selfTestPlaintext, w') := by
    rw [decryptVault_apply, hideal.correct _ _ (encryptVault_recorded hseal)]
    rfl
  have hwrong : EvnxCrypto.decryptVault P blob key (vaultAad vaultId (version + 1)) w' =
      (.err .decryption, w') := by
    apply Prod.ext
    · apply decryptVault_eq_err
      intro p hp
      exact succ_ne_version version (vaultAad_inj ((honly _ _ _).mp hp).2.1).2
    · rw [decryptVault_apply]
  subst hkey
  unfold aadSelfTest
  rw [Run.bind_of_ok (Run.mapErr_eq_ok.mpr (VaultKey.generate_apply w))]
  rw [Run.bind_of_ok (Run.mapErr_eq_ok.mpr hseal), Run.bind_of_ok (Run.mapErr_eq_ok.mpr hopen)]
  rw [if_neg (not_not.mpr rfl)]
  exact Run.isErr_of_err hwrong

theorem aadSelfTest_of_refused {vaultId : String} {version : UInt32} {w w' : World P}
    {e : CryptoError}
    (hseal : EvnxCrypto.encryptVault P selfTestPlaintext ⟨w.next .vaultKey VAULT_KEY_LEN⟩
      (vaultAad vaultId version) (w.draw .vaultKey VAULT_KEY_LEN) = (.err e, w')) :
    (aadSelfTest P vaultId version w).1 = .err (js e) := by
  have herr : (EvnxCrypto.encryptVault P selfTestPlaintext ⟨w.next .vaultKey VAULT_KEY_LEN⟩
      (vaultAad vaultId version)).mapErr js (w.draw .vaultKey VAULT_KEY_LEN) =
        (.err (js e), w') := by
    simp only [Run.mapErr, hseal, Outcome.mapErr_err]
  unfold aadSelfTest
  rw [Run.bind_of_ok (Run.mapErr_eq_ok.mpr (VaultKey.generate_apply w)), Run.bind_of_err herr]

/-- After any session the self-test passes for every vault and version, unless the
sample with its associated data is more than the cipher takes. -/
theorem aadSelfTest_passes {α : Type} (hideal : (P.aead .aes256Gcm).Ideal)
    (base64 hex : Codec (List B) T) (S : SrpClient B)
    (tape : ℕ → Purpose → (n : ℕ) → List.Vector B n)
    (t : Interaction (ClientCall B T) JsError α) {w : World P}
    (hw : w = t.final (clients P S base64 hex) (World.init P tape)) (vaultId : String)
    (version : UInt32)
    (hfresh : ((w.draw .vaultKey VAULT_KEY_LEN).draw .nonce NONCE_LEN).Fresh) :
    (aadSelfTest P vaultId version w).1 =
      if (P.aead .aes256Gcm).fits (selfTestPlaintext : List B).length
        ((utf8 vaultId).length + 10) then .ok true else .err (js .encryption) := by
  have hstart : (World.init P tape).NoncesTagged := Tagged.nil _ _
  rw [← (Interaction.compile_correct clients_implemented t _).2] at hw
  have htagged : w.NoncesTagged := by
    rw [hw]
    exact Interaction.invariant (Q := fun _ (u : World P) => u.NoncesTagged) hstart
      (fun _ _ _ call h => h.api call) _
  have hdrawn : (w.draw .vaultKey VAULT_KEY_LEN).NoncesTagged :=
    Tagged.mono htagged (List.suffix_cons _ _)
  have hfits := (P.aead .aes256Gcm).encrypt_isSome (w.next .vaultKey VAULT_KEY_LEN).toList
    ((w.draw .vaultKey VAULT_KEY_LEN).next .nonce NONCE_LEN).toList
    (vaultAad vaultId version) selfTestPlaintext
  rw [vaultAad_length] at hfits
  rw [← hfits]
  rcases Option.eq_none_or_eq_some ((P.aead .aes256Gcm).encrypt
    (w.next .vaultKey VAULT_KEY_LEN).toList
    ((w.draw .vaultKey VAULT_KEY_LEN).next .nonce NONCE_LEN).toList (vaultAad vaultId version)
    selfTestPlaintext) with henc | ⟨ct, henc⟩
  · rw [aadSelfTest_of_refused (encryptVault_of_none henc), henc]
    rfl
  · have hseal : EvnxCrypto.encryptVault P selfTestPlaintext ⟨w.next .vaultKey VAULT_KEY_LEN⟩
        (vaultAad vaultId version) (w.draw .vaultKey VAULT_KEY_LEN) = _ := encryptVault_of_some henc
    have htag := encryptVault_noncesTagged hdrawn hseal
    rw [aadSelfTest_of_sealed hideal htag hfresh rfl hseal, henc]
    rfl

/-! ## The last version, after a session -/

section
open Symbolic Classical

/-- Seals a note in the browser and once more natively. -/
def sealTwice : Interaction (ClientCall SByte (String ⊕ SString)) JsError Unit :=
  .ask (.browser, .encryptVault teamNote.plaintext teamNote.vaultKey "team" 1) fun _ =>
    .ask (.native, .encryptVault teamNote.plaintext teamNote.vaultKey "team" 1) fun _ => .done ()

theorem aadSelfTest_passes_sealTwice :
    (aadSelfTest idealCrates "team" 4294967295
      (sealTwice.final (clients idealCrates noServer symbolicBase64 symbolicBase64)
        (World.init idealCrates symbolicTape))).1 = .ok true := by
  refine (aadSelfTest_passes (idealCrates_ideal _) symbolicBase64 symbolicBase64 noServer
    symbolicTape sealTwice rfl "team" 4294967295 ?_).trans rfl
  exact symbolicTape_nodup [(3, .nonce, NONCE_LEN), (2, .vaultKey, VAULT_KEY_LEN),
    (1, .nonce, NONCE_LEN), (0, .nonce, NONCE_LEN)] (by decide) (by decide)

end
end EvnxCrypto
