import EvnxCrypto.KeyRuns
import EvnxCrypto.SymbolicCrates

/-!
# No nonce is used twice

The world keeps what every encryption was given, the failing ones included. In
any run of the five operations that encrypt, the nonces given are a subsequence
of the values drawn: each was drawn for one encryption and for nothing else. So
as long as the generator does not repeat itself, no two encryptions share a
nonce, whatever keys, messages and recipients the calls were made with.
-/
namespace EvnxCrypto
open Effect ByteString AuthenticatedEncryption

variable {B : Type}

inductive EncryptionRequest (B : Type) where
  | encryptVault (plaintext : List B) (vaultKey : VaultKey B) (aad : List B)
  | reencryptVault (blob : EncryptedBlob B) (oldKey newKey : VaultKey B) (aad : List B)
  | key (request : KeyRequest B)
  deriving DecidableEq

inductive EncryptionAnswer (B : Type) where
  | blob (blob : EncryptedBlob B)
  | key (answer : KeyAnswer B)
  deriving DecidableEq

/-- The ciphertext an answer carries, behind its nonce. -/
def KeyAnswer.ciphertext : KeyAnswer B → List B
  | .encrypted enc => enc.ciphertext
  | .wrapped bytes => bytes.drop XCHACHA_NONCE_LEN
  | .shared w => w.encryptedVaultKey.drop XCHACHA_NONCE_LEN

namespace EncryptionAnswer

def nonce : EncryptionAnswer B → List B
  | .blob b => b.nonce.toList
  | .key answer => answer.nonce

def ciphertext : EncryptionAnswer B → List B
  | .blob b => b.ciphertext
  | .key answer => answer.ciphertext

end EncryptionAnswer

variable {P : Crates B}

/-! ## What one call may do -/

/-- One encryption under the nonce drawn last. -/
structure EncryptsWith (e : Encryption B) (w w' : World P) : Prop where
  encryptions : w'.encryptions = e :: w.encryptions
  drawn : ∃ used, w'.drawn.map Draw.bytes = e.nonce :: used ∧ w.drawn.map Draw.bytes <:+ used

theorem EncryptsWith.subset {e : Encryption B} {w w' : World P} (h : EncryptsWith e w w') :
    w.encryptions ⊆ w'.encryptions := by
  rw [h.encryptions]
  exact List.subset_cons_self _ _

/-- Everything one call can do about encryptions. -/
inductive EncryptionStep (w : World P) : Result (EncryptionAnswer B) → World P → Prop
  | sealed (a : EncryptionAnswer B) (w' : World P) (c : Cipher) (s : Sealing B)
      (encrypts : EncryptsWith ⟨c, s.key, s.nonce⟩ w w') (recorded : s ∈ w'.history c)
      (nonce : a.nonce = s.nonce) (ciphertext : a.ciphertext = s.ct) (extends' : w.Extends w') :
      EncryptionStep w (.ok a) w'
  | refused (error : CryptoError) (w' : World P) (e : Encryption B)
      (encrypts : EncryptsWith e w w') (extends' : w.Extends w') :
      EncryptionStep w (.err error) w'
  | failed (error : CryptoError) (w' : World P) (encryptions : w'.encryptions = w.encryptions)
      (extends' : w.Extends w') :
      EncryptionStep w (.err error) w'

namespace EncryptionStep

/-- A call that ends by putting a sealing on record. -/
theorem of_record {a : EncryptionAnswer B} {c : Cipher} {key nonce aad msg ct : List B}
    {w v : World P} (henc : (P.aead c).encrypt key nonce aad msg = some ct)
    (hnonce : a.nonce = nonce) (hct : a.ciphertext = ct)
    (encryptions : v.encryptions = w.encryptions)
    (drawn : ∃ used, v.drawn.map Draw.bytes = nonce :: used ∧ w.drawn.map Draw.bytes <:+ used)
    (hext : w.Extends v) : EncryptionStep w (.ok a) (v.record c henc) := by
  refine .sealed a _ c ⟨key, nonce, aad, msg, ct⟩ ⟨?_, drawn⟩ ?_ hnonce hct
    (hext.trans (World.extends_record v henc))
  · exact congrArg _ encryptions
  · rw [World.record_history_self, History.mem_add]
    exact .inl rfl

/-- A call that ends with an encryption the cipher turned down. -/
theorem of_refuse {c : Cipher} {key nonce : List B} {w v : World P} (error : CryptoError)
    (encryptions : v.encryptions = w.encryptions)
    (drawn : ∃ used, v.drawn.map Draw.bytes = nonce :: used ∧ w.drawn.map Draw.bytes <:+ used)
    (hext : w.Extends v) : EncryptionStep w (.err error) (v.refuse c key nonce) :=
  .refused error _ ⟨c, key, nonce⟩ ⟨congrArg _ encryptions, drawn⟩
    (hext.trans (World.extends_refuse v c key nonce))

end EncryptionStep

abbrev Encryptions (B : Type) : Type :=
  List (EncryptionRequest B × Result (EncryptionAnswer B))

/-- The nonces given to encryptions stand among the draws in the same order,
each draw serving one of them at most. -/
def World.NoncesDrawn (w : World P) : Prop :=
  (w.encryptions.map Encryption.nonce).Sublist (w.drawn.map Draw.bytes)

/-- An answer carries the nonce and the ciphertext of a sealing on record. -/
def World.Sealed (w : World P) (a : EncryptionAnswer B) : Prop :=
  ∃ c s, s ∈ w.history c ∧ ⟨c, s.key, s.nonce⟩ ∈ w.encryptions ∧ a.nonce = s.nonce ∧
    a.ciphertext = s.ct

structure NonceInvariant (answered : Encryptions B) (w : World P) : Prop where
  drawn : w.NoncesDrawn
  sealed : ∀ r a, (r, .ok a) ∈ answered → w.Sealed a

theorem World.NoncesDrawn.encrypts {w w' : World P} {e : Encryption B} (h : w.NoncesDrawn)
    (he : EncryptsWith e w w') : w'.NoncesDrawn := by
  obtain ⟨used, hused, hsuffix⟩ := he.drawn
  unfold World.NoncesDrawn
  rw [he.encryptions, hused, List.map_cons]
  exact (h.trans hsuffix.sublist).cons_cons _

theorem World.Sealed.mono {w w' : World P} {a : EncryptionAnswer B} (h : w.Sealed a)
    (hext : w.Extends w') (hsuffix : w.encryptions ⊆ w'.encryptions) : w'.Sealed a := by
  obtain ⟨c, s, hs, he, hnonce, hct⟩ := h
  exact ⟨c, s, hext.mem hs, hsuffix he, hnonce, hct⟩

/-- Answers stay on record, and an error adds none. -/
theorem NonceInvariant.sealed_of_err {answered : Encryptions B} {w w' : World P}
    {r : EncryptionRequest B} {error : CryptoError} (h : NonceInvariant answered w)
    (hext : w.Extends w') (hsubset : w.encryptions ⊆ w'.encryptions) :
    ∀ r' a, (r', .ok a) ∈ answered ++ [(r, .err error)] → w'.Sealed a := by
  intro r' a hmem
  rcases List.mem_append.mp hmem with hold | hnew
  · exact (h.sealed r' a hold).mono hext hsubset
  · cases List.mem_singleton.mp hnew

theorem NonceInvariant.init (tape : ℕ → Purpose → (n : ℕ) → List.Vector B n) :
    NonceInvariant [] (World.init P tape) :=
  ⟨List.Sublist.slnil, by simp⟩

theorem NonceInvariant.step {answered : Encryptions B} {w w' : World P}
    {r : EncryptionRequest B} {x : Result (EncryptionAnswer B)} (h : NonceInvariant answered w)
    (hstep : EncryptionStep w x w') : NonceInvariant (answered ++ [(r, x)]) w' := by
  cases hstep with
  | sealed a _ c s encrypts recorded nonce ciphertext hext =>
      have hnew : ⟨c, s.key, s.nonce⟩ ∈ w'.encryptions := by
        rw [encrypts.encryptions]
        exact List.mem_cons_self
      refine ⟨h.drawn.encrypts encrypts, ?_⟩
      intro r' a' hmem
      rcases List.mem_append.mp hmem with hold | hlast
      · exact (h.sealed r' a' hold).mono hext encrypts.subset
      · cases List.mem_singleton.mp hlast
        exact ⟨c, s, recorded, hnew, nonce, ciphertext⟩
  | refused error _ e encrypts hext =>
      exact ⟨h.drawn.encrypts encrypts, h.sealed_of_err hext encrypts.subset⟩
  | failed error _ encryptions hext =>
      refine ⟨?_, h.sealed_of_err hext (encryptions ▸ List.Subset.refl _)⟩
      unfold World.NoncesDrawn
      rw [encryptions]
      exact h.drawn.trans (hext.drawn.map _).sublist

theorem World.NoncesDrawn.nodup {w : World P} (h : w.NoncesDrawn) (hfresh : w.Fresh) :
    (w.encryptions.map fun e => (e.key, e.nonce)).Nodup := by
  have hnonces : (w.encryptions.map Encryption.nonce).Nodup := hfresh.sublist h
  apply List.Nodup.of_map Prod.snd
  rw [List.map_map]
  exact hnonces

theorem reencryptVault_of_err {blob : EncryptedBlob B} {oldKey : VaultKey B} {aad : List B}
    {e : CryptoError} {w : World P} (h : (decryptVault P blob oldKey aad w).1 = .err e)
    (newKey : VaultKey B) : reencryptVault P blob oldKey newKey aad w = (.err e, w) := by
  have hopen : decryptVault P blob oldKey aad w = (.err e, w) := by
    rw [← h, decryptVault_apply]
  unfold reencryptVault
  rw [Run.bind_of_err hopen]

/-! ## The five operations -/

variable [Byte B]

def EncryptionRequest.call (P : Crates B) : EncryptionRequest B → Prog P (EncryptionAnswer B)
  | .encryptVault plaintext vaultKey aad => do
      let blob ← EvnxCrypto.encryptVault P plaintext vaultKey aad
      pure (.blob blob)
  | .reencryptVault blob oldKey newKey aad => do
      let fresh ← EvnxCrypto.reencryptVault P blob oldKey newKey aad
      pure (.blob fresh)
  | .key request => do
      let answer ← request.call P
      pure (.key answer)

theorem encryptVault_encryptionStep (plaintext : List B) (vaultKey : VaultKey B) (aad : List B)
    (w : World P) :
    EncryptionStep w ((EncryptionRequest.encryptVault plaintext vaultKey aad).call P w).1
      ((EncryptionRequest.encryptVault plaintext vaultKey aad).call P w).2 := by
  have hext := w.extends_draw .nonce NONCE_LEN
  rcases encryptVault_cases plaintext vaultKey aad w with ⟨ct, henc, heq⟩ | heq
  · rw [EncryptionRequest.call, Run.bind_of_ok heq]
    exact .of_record henc rfl rfl rfl ⟨_, rfl, List.suffix_refl _⟩ hext
  · rw [EncryptionRequest.call, Run.bind_of_err heq]
    exact .of_refuse _ rfl ⟨_, rfl, List.suffix_refl _⟩ hext

theorem reencryptVault_encryptionStep (blob : EncryptedBlob B) (oldKey newKey : VaultKey B)
    (aad : List B) (w : World P) :
    EncryptionStep w ((EncryptionRequest.reencryptVault blob oldKey newKey aad).call P w).1
      ((EncryptionRequest.reencryptVault blob oldKey newKey aad).call P w).2 := by
  rcases Option.eq_none_or_eq_some ((P.aead .aes256Gcm).decrypt
    (w.history .aes256Gcm).sealings oldKey.expose.toList blob.nonce.toList aad
    blob.ciphertext) with hopen | ⟨plaintext, hopen⟩
  · rw [EncryptionRequest.call, Run.bind_of_err (reencryptVault_of_none hopen)]
    exact .failed _ _ rfl (World.Extends.refl w)
  · have hcall : (EncryptionRequest.reencryptVault blob oldKey newKey aad).call P w =
        (EncryptionRequest.encryptVault plaintext newKey aad).call P w := by
      rw [EncryptionRequest.call, EncryptionRequest.call, Run.bind_apply, Run.bind_apply,
        reencryptVault_of_some hopen]
    rw [hcall]
    exact encryptVault_encryptionStep plaintext newKey aad w

theorem encryptPrivateKey_encryptionStep (keypair : UserKeypair B) (masterKey : MasterKey B)
    (w : World P) :
    EncryptionStep w
      ((EncryptionRequest.key (.encryptPrivateKey keypair masterKey)).call P w).1
      ((EncryptionRequest.key (.encryptPrivateKey keypair masterKey)).call P w).2 := by
  have hext := (w.extends_subkey masterKey.expose.toList HKDF_INFO_PRIVATE_KEY_ENC).trans
    (World.extends_draw _ .nonce XCHACHA_NONCE_LEN)
  rcases encryptPrivateKey_cases keypair masterKey w with ⟨ct, henc, heq⟩ | heq
  · rw [EncryptionRequest.call, KeyRequest.call, Run.bind_of_ok (Run.bind_of_ok heq)]
    exact .of_record henc rfl rfl rfl ⟨_, rfl, List.suffix_refl _⟩ hext
  · rw [EncryptionRequest.call, KeyRequest.call, Run.bind_of_err (Run.bind_of_err heq)]
    exact .of_refuse _ rfl ⟨_, rfl, List.suffix_refl _⟩ hext

theorem wrapWithMasterKey_encryptionStep (vaultKey : VaultKey B) (masterKey : MasterKey B)
    (w : World P) :
    EncryptionStep w
      ((EncryptionRequest.key (.wrapWithMasterKey vaultKey masterKey)).call P w).1
      ((EncryptionRequest.key (.wrapWithMasterKey vaultKey masterKey)).call P w).2 := by
  have hext := (w.extends_subkey masterKey.expose.toList HKDF_INFO_VAULT_KEY_WRAP_MK).trans
    (World.extends_draw _ .nonce XCHACHA_NONCE_LEN)
  have hlen := (w.next .nonce XCHACHA_NONCE_LEN).toList_length
  rcases wrapVaultKeyWithMasterKey_cases vaultKey masterKey w with ⟨ct, henc, heq⟩ | heq
  · rw [EncryptionRequest.call, KeyRequest.call, Run.bind_of_ok (Run.bind_of_ok heq)]
    exact .of_record henc (take_append_of_length hlen) (drop_append_of_length hlen) rfl
      ⟨_, rfl, List.suffix_refl _⟩ hext
  · rw [EncryptionRequest.call, KeyRequest.call, Run.bind_of_err (Run.bind_of_err heq)]
    exact .of_refuse _ rfl ⟨_, rfl, List.suffix_refl _⟩ hext

theorem wrapForUser_encryptionStep (vaultKey : VaultKey B) (recipient : UserPublicKeys B)
    (w : World P) :
    EncryptionStep w
      ((EncryptionRequest.key (.wrapForUser vaultKey recipient)).call P w).1
      ((EncryptionRequest.key (.wrapForUser vaultKey recipient)).call P w).2 := by
  have hext := w.extends_wrapReady recipient
  have hlen := w.wrapCoins.nonce.toList_length
  have hused : w.drawn.map Draw.bytes <:+
      ((w.draw .ephemeralSecret 32).draw .encapsulation 32).drawn.map Draw.bytes :=
    ((w.extends_draw _ _).trans (World.extends_draw _ _ _)).drawn.map _
  rcases wrapVaultKeyForUser_cases (P := P) (w := w) with ⟨ct, henc, -, heq⟩ | heq | heq
  · rw [EncryptionRequest.call, KeyRequest.call, Run.bind_of_ok (Run.bind_of_ok heq)]
    exact .of_record henc (take_append_of_length hlen) (drop_append_of_length hlen) rfl
      ⟨_, rfl, hused⟩ hext
  · rw [EncryptionRequest.call, KeyRequest.call, Run.bind_of_err (Run.bind_of_err heq)]
    exact .of_refuse _ rfl ⟨_, rfl, hused⟩ hext
  · rw [EncryptionRequest.call, KeyRequest.call, Run.bind_of_err (Run.bind_of_err heq)]
    exact .failed _ _ rfl (w.extends_draw _ _)

theorem EncryptionRequest.call_step (r : EncryptionRequest B) (w : World P) :
    EncryptionStep w (r.call P w).1 (r.call P w).2 := by
  cases r with
  | encryptVault plaintext vaultKey aad =>
      exact encryptVault_encryptionStep plaintext vaultKey aad w
  | reencryptVault blob oldKey newKey aad =>
      exact reencryptVault_encryptionStep blob oldKey newKey aad w
  | key request =>
      cases request with
      | encryptPrivateKey keypair masterKey =>
          exact encryptPrivateKey_encryptionStep keypair masterKey w
      | wrapWithMasterKey vaultKey masterKey =>
          exact wrapWithMasterKey_encryptionStep vaultKey masterKey w
      | wrapForUser vaultKey recipient => exact wrapForUser_encryptionStep vaultKey recipient w

/-! ## Whole runs -/

/-- The requests one after another from the start, with their answers. -/
def encryptionRun (P : Crates B) (tape : ℕ → Purpose → (n : ℕ) → List.Vector B n)
    (requests : List (EncryptionRequest B)) : Encryptions B × World P :=
  transcript (EncryptionRequest.call P) requests (World.init P tape)

theorem nonceInvariant_run (tape : ℕ → Purpose → (n : ℕ) → List.Vector B n)
    (requests : List (EncryptionRequest B)) :
    NonceInvariant (encryptionRun P tape requests).1 (encryptionRun P tape requests).2 :=
  transcript_invariant (NonceInvariant.init tape) (fun _ _ r h => h.step (r.call_step _))
    requests

/-- While no draw repeats, no key and nonce are given to two encryptions; every
answer carries the nonce it was sealed with; and a re-encryption that cannot open
its blob does nothing at all. -/
theorem encryptions_nodup (tape : ℕ → Purpose → (n : ℕ) → List.Vector B n)
    (requests : List (EncryptionRequest B)) :
    ((encryptionRun P tape requests).2.Fresh →
      ((encryptionRun P tape requests).2.encryptions.map fun e => (e.key, e.nonce)).Nodup) ∧
    (∀ r a, (r, .ok a) ∈ (encryptionRun P tape requests).1 →
      ∃ c s, s ∈ (encryptionRun P tape requests).2.history c ∧
        ⟨c, s.key, s.nonce⟩ ∈ (encryptionRun P tape requests).2.encryptions ∧
        a.nonce = s.nonce ∧ a.ciphertext = s.ct) ∧
    ∀ (w : World P) blob oldKey newKey aad e, (decryptVault P blob oldKey aad w).1 = .err e →
      reencryptVault P blob oldKey newKey aad w = (.err e, w) := by
  have hinv : NonceInvariant (encryptionRun P tape requests).1
      (encryptionRun P tape requests).2 := nonceInvariant_run tape requests
  refine ⟨hinv.drawn.nodup, hinv.sealed, ?_⟩
  intro w blob oldKey newKey aad e h
  exact reencryptVault_of_err h newKey

/-! ## One plaintext sealed twice under one key -/

section
open Symbolic

def sealAgain : EncryptionRequest SByte :=
  .encryptVault (atoms (.plaintext 0) 5).toList ⟨atoms (.draw .vaultKey 7) VAULT_KEY_LEN⟩ []

theorem encryptions_nodup_sealAgain :
    [((atoms (.draw .vaultKey 7) VAULT_KEY_LEN : List.Vector SByte _).toList,
        (symbolicTape 1 .nonce NONCE_LEN).toList),
      ((atoms (.draw .vaultKey 7) VAULT_KEY_LEN).toList,
        (symbolicTape 0 .nonce NONCE_LEN).toList)].Nodup := by
  have hfresh : (encryptionRun symbolicCrates symbolicTape [sealAgain, sealAgain]).2.Fresh := by
    change ([(symbolicTape 1 .nonce NONCE_LEN).toList,
      (symbolicTape 0 .nonce NONCE_LEN).toList] : List SString).Nodup
    rw [List.nodup_cons, List.mem_singleton]
    refine ⟨?_, List.nodup_singleton _⟩
    intro h
    have hatom := (atoms_inj (by decide) h).1
    cases hatom
  exact (encryptions_nodup symbolicTape [sealAgain, sealAgain]).1 hfresh

end
end EvnxCrypto
