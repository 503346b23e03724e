import EvnxCrypto.Sessions

/-!
# The errors each function can return

Every function ends with a value or with one of its own errors, in every world and
on every argument; none panics. The length checks on what a cipher has returned are
never what refuses an input of a session: the cipher seals 32-byte secrets only.
-/
namespace EvnxCrypto
open Effect ByteString AuthenticatedEncryption Wasm

/-! ## Outcomes within a set of errors -/

namespace Effect.Outcome
variable {ε ε' α β : Type}

/-- A value, or an error among `raises`, and never a panic. -/
def Within (raises : ε → Prop) : Outcome ε α → Prop
  | .ok _ => True
  | .err e => raises e
  | .panic => False

variable {raises raises' : ε → Prop} {x : Outcome ε α}

theorem Within.mapErr {raises' : ε' → Prop} (h : x.Within raises) {g : ε → ε'}
    (himp : ∀ e, raises e → raises' (g e)) : (x.mapErr g).Within raises' := by
  cases x with
  | ok a => exact trivial
  | err e => exact himp e h
  | panic => exact h

theorem Within.bind {f : α → Outcome ε β} (h : x.Within raises)
    (hf : ∀ a, x = .ok a → (f a).Within raises) : (x >>= f).Within raises := by
  cases x with
  | ok a => exact hf a rfl
  | err e => exact h
  | panic => exact h

theorem Within.okOr {e : ε} (he : raises e) (o : Option α) : (Outcome.okOr e o).Within raises := by
  cases o with
  | none => exact he
  | some a => exact trivial

end Effect.Outcome

variable {B T : Type}

/-! ## The contract -/

/-- The errors by which a call turns its arguments down. -/
def Api.Refuses [Byte B] : {β : Type} → Api B β → CryptoError → Prop
  | _, .deriveMasterKey .., e => ∃ d, e = .kdf d
  | _, .deriveSrpPassword .., e => ∃ d, e = .kdf d
  | _, .encryptVault .., e => e = .encryption
  | _, .decryptVault .., e => e = .decryption
  | _, .reencryptVault .., e => e = .decryption ∨ e = .encryption
  | _, .wrapVaultKeyWithMasterKey .., e => e = .keyWrap
  | _, .unwrapVaultKeyWithMasterKey wrapped _, e =>
      (wrapped.length < XCHACHA_NONCE_LEN + VAULT_KEY_LEN ∧
        e = .invalidInput "wrapped key too short") ∨ e = .keyUnwrap
  | _, .encryptPrivateKey .., e => e = .keyWrap
  | _, .decryptPrivateKey .., e => e = .keyUnwrap
  | _, .mlkemEncapsulate .., e => e = .invalidPublicKey
  | _, .mlkemDecapsulate _ ciphertext, e => e = .invalidInput
      s!"ML-KEM-768 ciphertext must be {MLKEM768_CIPHERTEXT_LEN} bytes, got {ciphertext.length}"
  | _, .wrapVaultKeyForUser .., e => e = .invalidPublicKey ∨ e = .keyWrap
  | _, .unwrapVaultKey wrapped _, e => e = .invalidPublicKey ∨
      e = .invalidInput s!"ML-KEM-768 ciphertext must be {MLKEM768_CIPHERTEXT_LEN} bytes, got {
        wrapped.mlkemCiphertext.length}" ∨
      (wrapped.encryptedVaultKey.length < XCHACHA_NONCE_LEN ∧
        e = .invalidInput "wrapped vault key too short") ∨ e = .keyUnwrap
  | _, .generateClientEphemeral, e =>
      e = .srp "Generated A = 0 mod N — this should be computationally impossible."
  | _, .computeClientProof _ _ _ serverPublicB _, e =>
      ((∀ b ∈ serverPublicB, b = Byte.lit 0) ∧
        e = .srp "Server sent B = 0 — possible attack or server bug") ∨
      ∃ d : String, e = .srp s!"SRP process_reply failed: {d}"
  | _, .verifyServerProof .., e =>
      e = .srp "Server proof verification failed — possible MITM or server error"
  | _, _, _ => False

/-- What the length checks after an opening report. -/
def Api.WrongLength : {β : Type} → Api B β → CryptoError → Prop
  | _, .unwrapVaultKeyWithMasterKey .., e => e = .invalidInput "decrypted key wrong length"
  | _, .decryptPrivateKey .., e => ∃ n, n ≠ ED25519_PRIVATE_LEN ∧
      e = .invalidInput s!"expected {ED25519_PRIVATE_LEN} byte seed, got {n}"
  | _, .unwrapVaultKey .., e => e = .invalidInput "decrypted vault key wrong length"
  | _, _, _ => False

/-- The errors a call can return. -/
def Api.Raises [Byte B] {β : Type} (call : Api B β) (e : CryptoError) : Prop :=
  call.Refuses e ∨ call.WrongLength e

variable {P : Crates B}

/-- Whatever opens under XChaCha20-Poly1305 is a 32-byte secret. -/
def World.OpensSecrets (w : World P) : Prop :=
  ∀ k n c m, (P.aead .xchacha20Poly1305).decrypt (w.history .xchacha20Poly1305).sealings k n [] c =
    some m → m.length = 32

variable {raises : CryptoError → Prop}

theorem openedKey_within {message : String} {opened : Option (List B)} (hopen : raises .keyUnwrap)
    (hlen : (∀ m, opened = some m → m.length = VAULT_KEY_LEN) ∨ raises (.invalidInput message)) :
    (openedKey message opened).Within raises := by
  cases opened with
  | none => exact hopen
  | some plaintext =>
      by_cases h : plaintext.length = VAULT_KEY_LEN
      · rw [openedKey, dif_pos h]
        exact trivial
      · rw [openedKey, dif_neg h]
        rcases hlen with hlen | hlen
        · exact (h (hlen plaintext rfl)).elim
        · exact hlen

theorem argon2Derive_within (h : ∀ d, raises (.kdf d)) (domain password : List B)
    (salt : List.Vector B SALT_LEN) (n : ℕ) :
    (argon2Derive P domain password salt n).Within raises := by
  unfold argon2Derive
  split
  · exact trivial
  · exact h _

theorem encryptVault_within (h : raises .encryption) (p : List B) (vk : VaultKey B) (aad : List B)
    (w : World P) : (encryptVault P p vk aad w).1.Within raises := by
  rcases encryptVault_cases p vk aad w with ⟨ct, henc, heq⟩ | heq
  · rw [heq]
    exact trivial
  · rw [heq]
    exact h

/-! ### The three openings of a key -/

section
variable [Byte B] {w : World P}

theorem unwrapVaultKeyWithMasterKey_within {bytes : List B} {mk : MasterKey B}
    (hrefuse : ∀ e, Api.Refuses (.unwrapVaultKeyWithMasterKey bytes mk) e → raises e)
    (hlen : w.OpensSecrets ∨
      ∀ e, Api.WrongLength (.unwrapVaultKeyWithMasterKey bytes mk) e → raises e) :
    (unwrapVaultKeyWithMasterKey P bytes mk w).1.Within raises := by
  by_cases h : bytes.length < XCHACHA_NONCE_LEN + VAULT_KEY_LEN
  · rw [unwrapVaultKeyWithMasterKey_short mk w h]
    exact hrefuse _ (.inl ⟨h, rfl⟩)
  · rw [unwrapVaultKeyWithMasterKey_apply mk w (not_lt.mp h)]
    apply openedKey_within (hrefuse _ (.inr rfl))
    exact hlen.imp (fun hw m hm => hw _ _ _ m hm) fun hw => hw _ rfl

theorem decryptPrivateKey_within {enc : EncryptedPrivateKey B} {mk : MasterKey B}
    (hrefuse : ∀ e, Api.Refuses (.decryptPrivateKey enc mk) e → raises e)
    (hlen : w.OpensSecrets ∨ ∀ e, Api.WrongLength (.decryptPrivateKey enc mk) e → raises e) :
    (decryptPrivateKey P enc mk w).1.Within raises := by
  rcases Option.eq_none_or_eq_some ((P.aead .xchacha20Poly1305).decrypt
    (w.history .xchacha20Poly1305).sealings (P.sealSubkey mk).toList
    enc.nonce.toList [] enc.ciphertext) with h | ⟨opened, h⟩
  · rw [decryptPrivateKey_of_none h]
    exact hrefuse _ rfl
  · by_cases hopened : opened.length = ED25519_PRIVATE_LEN
    · rw [← asArray_toList hopened] at h
      rw [decryptPrivateKey_of_some h]
      exact trivial
    · rw [decryptPrivateKey_of_length h hopened]
      rcases hlen with hw | hlen
      · exact (hopened (hw _ _ _ _ h)).elim
      · exact hlen _ ⟨_, hopened, rfl⟩

theorem unwrapVaultKey_within {wrapped : WrappedVaultKey B} {kp : UserKeypair B}
    (hrefuse : ∀ e, Api.Refuses (.unwrapVaultKey wrapped kp) e → raises e)
    (hlen : w.OpensSecrets ∨ ∀ e, Api.WrongLength (.unwrapVaultKey wrapped kp) e → raises e) :
    (unwrapVaultKey P wrapped kp w).1.Within raises := by
  cases hc : P.wasContributory (P.diffieHellman (P.x25519StaticSecret kp.x25519Private)
      wrapped.ephPubKey) with
  | false =>
      rw [unwrapVaultKey_of_weak hc]
      exact hrefuse _ (.inl rfl)
  | true =>
      cases hkem : P.decapsulateSlice kp.mlkemDecap wrapped.mlkemCiphertext with
      | none =>
          rw [unwrapVaultKey_of_not_decapsulated hc hkem]
          exact hrefuse _ (.inr (.inl rfl))
      | some ss =>
          rw [unwrapVaultKey_of_secrets hc hkem]
          by_cases hshort : wrapped.encryptedVaultKey.length < XCHACHA_NONCE_LEN
          · rw [if_pos hshort]
            exact hrefuse _ (.inr (.inr (.inl ⟨hshort, rfl⟩)))
          · rw [if_neg hshort]
            apply openedKey_within (hrefuse _ (.inr (.inr (.inr rfl))))
            exact hlen.imp (fun hw m hm => hw _ _ _ m hm) fun hw => hw _ rfl

end

/-! ### The checks of the login -/

section
variable [Byte B] [DecidableEq B] {S : SrpClient B}

theorem generateClientEphemeral_within
    (h : ∀ e, Api.Refuses (B := B) .generateClientEphemeral e → raises e) (w : World P) :
    (generateClientEphemeral S P w).1.Within raises := by
  unfold generateClientEphemeral
  rw [Run.bind_of_ok (fillBytes_apply .srpEphemeral SRP_PRIVATE_LEN w)]
  cases hzero : allZero
      (S.computePublicEphemeral (w.next .srpEphemeral SRP_PRIVATE_LEN).toList) with
  | true =>
      simp only [hzero, if_true]
      exact h _ rfl
  | false =>
      simp only [hzero, Bool.false_eq_true, if_false]
      exact trivial

theorem computeClientProof_within {email : String} {pw salt b : List B}
    {ephemeral : SrpClientEphemeral B}
    (h : ∀ e, Api.Refuses (.computeClientProof email pw salt b ephemeral) e → raises e) :
    (computeClientProof S email pw salt b ephemeral).Within raises := by
  unfold computeClientProof
  cases hzero : allZero b with
  | true =>
      rw [if_pos rfl]
      exact h _ (.inl ⟨allZero_eq_true.mp hzero, rfl⟩)
  | false =>
      rw [if_neg Bool.false_ne_true]
      cases S.processReply ephemeral.privateA (asBytes email) pw salt b with
      | ok verifier => exact trivial
      | error d => exact h _ (.inr ⟨d, rfl⟩)

omit [DecidableEq B] in
theorem verifyServerProof_within {m2 : List B} {proof : SrpClientProof B}
    (h : ∀ e, Api.Refuses (.verifyServerProof m2 proof) e → raises e) :
    (verifyServerProof m2 proof).Within raises := by
  unfold verifyServerProof
  cases hok : proof.verifier.verifyServer m2 with
  | true =>
      rw [if_pos rfl]
      exact trivial
  | false =>
      rw [if_neg Bool.false_ne_true]
      exact h _ rfl

/-- A call ends with a value or one of its own errors; the length checks are needed
only where something else than a secret can open. -/
theorem Api.call_within {β : Type} {call : Api B β} {w : World P}
    (hrefuse : ∀ e, call.Refuses e → raises e)
    (hlen : w.OpensSecrets ∨ ∀ e, call.WrongLength e → raises e) :
    (Api.call P S β call w).1.Within raises := by
  cases call with
  | generateSalt => exact trivial
  | deriveMasterKey password salt =>
      apply (argon2Derive_within (fun d => hrefuse _ ⟨d, rfl⟩) ..).bind
      intro key _
      exact trivial
  | deriveSrpPassword password salt =>
      apply (argon2Derive_within (fun d => hrefuse _ ⟨d, rfl⟩) ..).bind
      intro key _
      exact trivial
  | generateVaultKey => exact trivial
  | encryptVault p vk aad => exact encryptVault_within (hrefuse _ rfl) p vk aad w
  | decryptVault blob vk aad =>
      rw [Api.call, decryptVault_apply]
      exact .okOr (hrefuse _ rfl) _
  | reencryptVault blob old new aad =>
      rcases Option.eq_none_or_eq_some ((P.aead .aes256Gcm).decrypt
        (w.history .aes256Gcm).sealings old.expose.toList blob.nonce.toList aad
        blob.ciphertext) with h | ⟨p, h⟩
      · rw [Api.call, reencryptVault_of_none h]
        exact hrefuse _ (.inl rfl)
      · rw [Api.call, reencryptVault_of_some h]
        exact encryptVault_within (hrefuse _ (.inr rfl)) p new aad w
  | wrapVaultKeyWithMasterKey vk mk =>
      rcases wrapVaultKeyWithMasterKey_cases vk mk w with ⟨ct, henc, heq⟩ | heq
      · rw [Api.call, heq]
        exact trivial
      · rw [Api.call, heq]
        exact hrefuse _ rfl
  | unwrapVaultKeyWithMasterKey bytes mk => exact unwrapVaultKeyWithMasterKey_within hrefuse hlen
  | generateKeypair =>
      rw [Api.call, generateKeypair_apply]
      exact trivial
  | encryptPrivateKey kp mk =>
      rcases encryptPrivateKey_cases kp mk w with ⟨ct, henc, heq⟩ | heq
      · rw [Api.call, heq]
        exact trivial
      · rw [Api.call, heq]
        exact hrefuse _ rfl
  | decryptPrivateKey enc mk => exact decryptPrivateKey_within hrefuse hlen
  | mlkemEncapsulate pk =>
      cases h : P.mlkemKeyIsValid pk.bytes with
      | false =>
          rw [Api.call, mlkemEncapsulate_of_invalid h]
          exact hrefuse _ rfl
      | true =>
          rw [Api.call, mlkemEncapsulate_of_valid h]
          exact trivial
  | mlkemDecapsulate kp ct =>
      change (kp.mlkemDecapsulate P ct).Within raises
      cases h : P.decapsulateSlice kp.mlkemDecap ct with
      | none =>
          rw [mlkemDecapsulate_of_none h]
          exact hrefuse _ rfl
      | some ss =>
          rw [mlkemDecapsulate_of_some h]
          exact trivial
  | wrapVaultKeyForUser vk r =>
      rcases wrapVaultKeyForUser_cases (P := P) (w := w) with ⟨ct, henc, -, heq⟩ | heq | heq
      · rw [Api.call, heq]
        exact trivial
      · rw [Api.call, heq]
        exact hrefuse _ (.inr rfl)
      · rw [Api.call, heq]
        exact hrefuse _ (.inl rfl)
  | unwrapVaultKey wrapped kp => exact unwrapVaultKey_within hrefuse hlen
  | computeVerifier => exact trivial
  | generateClientEphemeral => exact generateClientEphemeral_within hrefuse w
  | computeClientProof email pw salt b ephemeral => exact computeClientProof_within hrefuse
  | verifyServerProof m2 proof => exact verifyServerProof_within hrefuse

end

/-! ## Only secrets are sealed -/

/-- Whatever is on record under XChaCha20-Poly1305 is a 32-byte secret. -/
def World.SealsSecrets (w : World P) : Prop :=
  ∀ s ∈ w.history .xchacha20Poly1305, s.msg.length = 32

theorem World.SealsSecrets.opens {w : World P} (h : w.SealsSecrets)
    (hideal : (P.aead .xchacha20Poly1305).Ideal) : w.OpensSecrets := by
  intro k n c m hopen
  exact h _ ((hideal _ _ _ _ _ _).mp hopen)

section
variable [Byte B]

theorem World.SealsSecrets.key {w : World P} (h : w.SealsSecrets) (r : KeyRequest B) :
    (r.call P w).2.SealsSecrets := by
  have hstep := r.call_step w
  cases hx : (r.call P w).1 with
  | ok a =>
      rw [hx] at hstep
      cases hstep with
      | sealed _ _ ikm t behind sealings =>
          intro s hs
          rw [History.mem_def, sealings] at hs
          rcases List.mem_cons.mp hs with rfl | hs
          · rw [behind.msg]
            exact r.secret.toList_length
          · exact h s hs
  | err e =>
      rw [hx] at hstep
      cases hstep with
      | failed _ _ history =>
          intro s hs
          rw [history] at hs
          exact h s hs
  | panic =>
      rw [hx] at hstep
      cases hstep

variable [DecidableEq B] {S : SrpClient B}

theorem World.SealsSecrets.api {β : Type} (call : Api B β) {w : World P} (h : w.SealsSecrets) :
    (Api.call P S β call w).2.SealsSecrets := by
  cases Api.call_moves (S := S) call w with
  | frame hframe =>
      unfold World.SealsSecrets
      rw [hframe.history]
      exact h
  | vault p vk aad hw =>
      rw [hw]
      rcases encryptVault_cases p vk aad w with ⟨ct, henc, heq⟩ | heq
      · rw [heq]
        unfold World.SealsSecrets
        rw [World.record_history_of_ne _ _ (by decide)]
        exact h
      · rw [heq]
        exact h
  | key r hw =>
      rw [hw]
      exact h.key r

end

/-! ## What the decoders say -/

section
variable (base64 : Codec (List B) T)

variable {base64} {raises : CryptoError → Prop}

end

/-! ## What clients show -/

section
variable [Byte B] (base64 hex : Codec (List B) T)

end

section
variable [Byte B] [DecidableEq B] {S : SrpClient B} {base64 hex : Codec (List B) T}
variable {shows' : JsError → Prop} {α β : Type} {w : World P}

theorem call_within {call : Api B α} (hlen : w.OpensSecrets ∨ ∀ e, ¬ call.WrongLength e)
    (h : ∀ e, call.Refuses e → shows' (js e)) :
    ((Api.call P S α call w).1.mapErr js).Within shows' := by
  refine Outcome.Within.mapErr (Api.call_within h ?_) fun _ he => he
  exact hlen.imp_right fun hnone e he => (hnone e he).elim

/-- No call of a native program fails a length check. -/
theorem World.SealsSecrets.program {α : Type} (hideal : (P.aead .xchacha20Poly1305).Ideal)
    (t : Program B α) {w : World P} (h : w.SealsSecrets) :
    (∀ e ∈ t.trace (Api.call P S) w, e.answer.Within e.call.Refuses) ∧
      (t.final (Api.call P S) w).SealsSecrets := by
  apply t.invariant (Q := fun trace (u : World P) =>
    (∀ e ∈ trace, e.answer.Within e.call.Refuses) ∧ u.SealsSecrets) ⟨by simp, h⟩
  rintro before u β call ⟨hbefore, hu⟩
  refine ⟨?_, hu.api call⟩
  intro e he
  rcases List.mem_append.mp he with he | he
  · exact hbefore e he
  · obtain rfl := List.mem_singleton.mp he
    exact Api.call_within (fun _ he => he) (.inl (hu.opens hideal))

end

/-! ## A text that is not base64, an odd hex text, a wrong version -/

section
open Symbolic Classical

end
end EvnxCrypto
