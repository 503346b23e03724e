import EvnxCrypto.Api
import EvnxCrypto.KeyIntegrity
import EvnxCrypto.Rekeying

/-!
# The program refines a ledger

What the crate is for, said without encryption: a ledger keeps what was put away
and under which key, and a request to open is looked up in it. Under ideal
ciphers, and while no two HKDF inputs collide, the answers of every sequence of
calls are answers of the ledger: nothing opens that was not put away for that very
key and context, and everything that was put away opens.
-/
namespace EvnxCrypto
open Effect ByteString AuthenticatedEncryption

variable {B : Type}

/-- A plaintext put away under a vault key and associated data. -/
structure VaultEntry (B : Type) where
  vaultKey : VaultKey B
  aad : List B
  plaintext : List B
  blob : EncryptedBlob B

/-- What has been put away, and what was handed out for it. -/
structure Ledger (B : Type) where
  vaults : Set (VaultEntry B)
  keys : Set (KeyRequest B × KeyAnswer B)

namespace Ledger

def empty : Ledger B := ⟨∅, ∅⟩

def store (L : Ledger B) (e : VaultEntry B) : Ledger B := { L with vaults := insert e L.vaults }

/-- Whatever the old blob holds under the old key, the fresh one holds under the new. -/
def move (L : Ledger B) (blob fresh : EncryptedBlob B) (oldKey newKey : VaultKey B)
    (aad : List B) : Ledger B :=
  { L with vaults := L.vaults ∪
      {e | e.vaultKey = newKey ∧ e.aad = aad ∧ e.blob = fresh ∧
        ⟨oldKey, aad, e.plaintext, blob⟩ ∈ L.vaults} }

def issue (L : Ledger B) (r : KeyRequest B) (a : KeyAnswer B) : Ledger B :=
  { L with keys := insert (r, a) L.keys }

/-- The ledger after a call. Only calls that succeeded in sealing change it. -/
def next (L : Ledger B) {β : Type} : Api B β → Result β → Ledger B
  | .encryptVault plaintext vaultKey aad, .ok blob => L.store ⟨vaultKey, aad, plaintext, blob⟩
  | .reencryptVault blob oldKey newKey aad, .ok fresh => L.move blob fresh oldKey newKey aad
  | .encryptPrivateKey keypair masterKey, .ok enc =>
      L.issue (.encryptPrivateKey keypair masterKey) (.encrypted enc)
  | .wrapVaultKeyWithMasterKey vaultKey masterKey, .ok bytes =>
      L.issue (.wrapWithMasterKey vaultKey masterKey) (.wrapped bytes)
  | .wrapVaultKeyForUser vaultKey recipient, .ok wrapped =>
      L.issue (.wrapForUser vaultKey recipient) (.shared wrapped)
  | _, _ => L

variable [Byte B]

/-- The answers the ledger allows. A wrap for a user is found by the X25519 key;
it is sure to open for the key pair whose public keys it was made for. -/
def allows (P : Crates B) (L : Ledger B) {β : Type} : Api B β → Result β → Prop
  | .decryptVault blob vaultKey aad, x => ∀ p, x = .ok p ↔ ⟨vaultKey, aad, p, blob⟩ ∈ L.vaults
  | .reencryptVault blob oldKey _ aad, x =>
      (∃ fresh, x = .ok fresh) ↔ ∃ p, ⟨oldKey, aad, p, blob⟩ ∈ L.vaults
  | .unwrapVaultKeyWithMasterKey bytes masterKey, x =>
      ∀ vk, x = .ok vk ↔ (.wrapWithMasterKey vk masterKey, .wrapped bytes) ∈ L.keys
  | .decryptPrivateKey enc masterKey, x => ∀ kp, x = .ok kp ↔
      ∃ sealed, (.encryptPrivateKey sealed masterKey, .encrypted enc) ∈ L.keys ∧
        kp = P.keypairOf sealed.ed25519PrivateSeed
  | .unwrapVaultKey wrapped kp, x => ∀ vk,
      (x = .ok vk → ∃ recipient, (.wrapForUser vk recipient, .shared wrapped) ∈ L.keys ∧
        kp.x25519Public = recipient.x25519) ∧
      (kp = P.keypairOf kp.ed25519PrivateSeed →
        (.wrapForUser vk kp.publicKeys, .shared wrapped) ∈ L.keys → x = .ok vk)
  | _, _ => True

/-- The ledger as a specification of the native interface. -/
def monitor (P : Crates B) : Monitor (Api B) CryptoError where
  State := Ledger B
  allows := allows P
  next := next

end Ledger

/-! ## What the world keeps of a ledger -/

def VaultEntry.sealing (e : VaultEntry B) : Sealing B :=
  ⟨e.vaultKey.expose.toList, e.blob.nonce.toList, e.aad, e.plaintext, e.blob.ciphertext⟩

theorem VaultEntry.sealing_inj {e e' : VaultEntry B} (h : e.sealing = e'.sealing) : e = e' := by
  rcases e with ⟨key, aad, plaintext, nonce, ct⟩
  rcases e' with ⟨key', aad', plaintext', nonce', ct'⟩
  simp only [sealing, Sealing.mk.injEq, toList_inj] at h
  obtain ⟨hkey, rfl, rfl, rfl, rfl⟩ := h
  rw [VaultKey.ext hkey]

variable [Byte B] {P : Crates B} {S : SrpClient B}

/-- The records of the two ciphers hold the ledger and nothing else. -/
structure Ledger.Describes (L : Ledger B) (w : World P) : Prop where
  vaults : ∀ s, s ∈ w.history .aes256Gcm ↔ ∃ e ∈ L.vaults, s = e.sealing
  nonces : w.NoncesTagged
  keys : ∃ answered, KeyInvariant answered w ∧ ∀ r a, (r, a) ∈ L.keys ↔ (r, .ok a) ∈ answered
  made : ∀ r a, (r, a) ∈ L.keys → ∃ v v', r.call P v = (.ok a, v') ∧ v'.Extends w

theorem KeyInvariant.frame {answered : KeyCalls B} {w w' : World P} (h : KeyInvariant answered w)
    (hext : w.Extends w')
    (hhistory : w'.history .xchacha20Poly1305 = w.history .xchacha20Poly1305) :
    KeyInvariant answered w' := by
  constructor
  · intro s hs
    rw [hhistory] at hs
    exact h.explained (List.Subset.refl _) hext hs
  · exact h.nonces.mono (hext.drawn.map _)

/-- The operations on keys leave the record of the other cipher alone. -/
theorem KeyRequest.call_history_aes (r : KeyRequest B) (w : World P) :
    (r.call P w).2.history .aes256Gcm = w.history .aes256Gcm := by
  have hne : Cipher.aes256Gcm ≠ .xchacha20Poly1305 := by decide
  cases r with
  | encryptPrivateKey keypair masterKey =>
      rcases encryptPrivateKey_cases keypair masterKey w with ⟨ct, henc, heq⟩ | heq
      · rw [KeyRequest.call, Run.bind_of_ok heq]
        exact World.record_history_of_ne _ henc hne
      · rw [KeyRequest.call, Run.bind_of_err heq]
        rfl
  | wrapWithMasterKey vaultKey masterKey =>
      rcases wrapVaultKeyWithMasterKey_cases vaultKey masterKey w with ⟨ct, henc, heq⟩ | heq
      · rw [KeyRequest.call, Run.bind_of_ok heq]
        exact World.record_history_of_ne _ henc hne
      · rw [KeyRequest.call, Run.bind_of_err heq]
        rfl
  | wrapForUser vaultKey recipient =>
      rcases wrapVaultKeyForUser_cases (P := P) (w := w) with ⟨ct, henc, -, heq⟩ | heq | heq
      · rw [KeyRequest.call, Run.bind_of_ok heq]
        exact World.record_history_of_ne _ henc hne
      · rw [KeyRequest.call, Run.bind_of_err heq]
        rfl
      · rw [KeyRequest.call, Run.bind_of_err heq]
        rfl

namespace Ledger.Describes
variable {L : Ledger B} {w w' : World P}

theorem init (tape : ℕ → Purpose → (n : ℕ) → List.Vector B n) :
    Ledger.empty.Describes (World.init P tape) where
  vaults := by simp [Ledger.empty]
  nonces := Tagged.nil _ _
  keys := ⟨[], .init tape, by simp [Ledger.empty]⟩
  made := by simp [Ledger.empty]

theorem made_mono (h : L.Describes w) (hext : w.Extends w') (r : KeyRequest B) (a : KeyAnswer B)
    (hmem : (r, a) ∈ L.keys) : ∃ v v', r.call P v = (.ok a, v') ∧ v'.Extends w' := by
  obtain ⟨v, v', hcall, hv⟩ := h.made r a hmem
  exact ⟨v, v', hcall, hv.trans hext⟩

/-- Draws, derivations and refused encryptions add nothing to a ledger. -/
theorem frame (h : L.Describes w) (hext : w.Extends w') (hhistory : w'.history = w.history) :
    L.Describes w' where
  vaults := by
    rw [hhistory]
    exact h.vaults
  nonces := by
    have hmono := Tagged.mono h.nonces (hext.drawn.map Draw.bytes)
    rwa [← hhistory] at hmono
  keys := by
    obtain ⟨answered, hinv, hmem⟩ := h.keys
    exact ⟨answered, hinv.frame hext (congrFun hhistory _), hmem⟩
  made := h.made_mono hext

theorem mem_vaults (h : L.Describes w) (e : VaultEntry B) :
    e ∈ L.vaults ↔ e.sealing ∈ w.history .aes256Gcm := by
  rw [h.vaults]
  constructor
  · intro he
    exact ⟨e, he, rfl⟩
  · rintro ⟨e', he', heq⟩
    rwa [VaultEntry.sealing_inj heq]

/-! ### Vaults -/

theorem opens_iff (h : L.Describes w) (hideal : (P.aead .aes256Gcm).Ideal)
    {blob : EncryptedBlob B} {vk : VaultKey B} {aad p : List B} :
    (P.aead .aes256Gcm).decrypt (w.history .aes256Gcm).sealings vk.expose.toList
      blob.nonce.toList aad blob.ciphertext = some p ↔ ⟨vk, aad, p, blob⟩ ∈ L.vaults := by
  rw [hideal, h.mem_vaults]
  rfl

theorem store (h : L.Describes w) {plaintext aad : List B} {vk : VaultKey B}
    {blob : EncryptedBlob B} (hcall : encryptVault P plaintext vk aad w = (.ok blob, w')) :
    (L.store ⟨vk, aad, plaintext, blob⟩).Describes w' := by
  have hext := encryptVault_ok_extends hcall
  have hnonces := encryptVault_noncesTagged h.nonces hcall
  obtain ⟨-, henc, rfl⟩ := encryptVault_eq_ok.mp hcall
  refine ⟨?_, hnonces, ?_, h.made_mono hext⟩
  · intro s
    rw [World.record_history_self, World.draw_history, History.mem_add, h.vaults]
    simp only [Ledger.store, Set.mem_insert_iff, exists_eq_or_imp]
    rfl
  · obtain ⟨answered, hinv, hmem⟩ := h.keys
    refine ⟨answered, hinv.frame hext ?_, hmem⟩
    rw [World.record_history_of_ne _ _ (by decide)]
    rfl

/-- A re-encryption that succeeds stores what the old blob held. -/
theorem move_eq_store (h : L.Describes w) (hideal : (P.aead .aes256Gcm).Ideal)
    {blob fresh : EncryptedBlob B} {oldKey newKey : VaultKey B} {aad p : List B}
    (hmem : ⟨oldKey, aad, p, blob⟩ ∈ L.vaults) :
    L.move blob fresh oldKey newKey aad = L.store ⟨newKey, aad, p, fresh⟩ := by
  have hopen := (h.opens_iff hideal).mpr hmem
  unfold Ledger.move Ledger.store
  congr 1
  ext e
  simp only [Set.mem_union, Set.mem_ofPred_eq, Set.mem_insert_iff]
  rw [or_comm]
  apply or_congr_left
  constructor
  · rintro ⟨rfl, rfl, rfl, he⟩
    have hsame := hopen.symm.trans ((h.opens_iff hideal).mpr he)
    rw [Option.some.inj hsame]
  · rintro rfl
    exact ⟨rfl, rfl, rfl, hmem⟩

theorem encryptVault (h : L.Describes w) (plaintext : List B) (vk : VaultKey B) (aad : List B) :
    (L.next (.encryptVault plaintext vk aad) (EvnxCrypto.encryptVault P plaintext vk aad w).1
      ).Describes (EvnxCrypto.encryptVault P plaintext vk aad w).2 := by
  rcases encryptVault_cases plaintext vk aad w with ⟨ct, henc, heq⟩ | heq
  · rw [heq]
    exact h.store heq
  · rw [heq]
    exact h.frame ((w.extends_draw _ _).trans (World.extends_refuse _ _ _ _)) rfl

theorem reencryptVault (h : L.Describes w) (hideal : (P.aead .aes256Gcm).Ideal)
    (blob : EncryptedBlob B) (oldKey newKey : VaultKey B) (aad : List B) :
    (L.next (.reencryptVault blob oldKey newKey aad)
      (EvnxCrypto.reencryptVault P blob oldKey newKey aad w).1).Describes
        (EvnxCrypto.reencryptVault P blob oldKey newKey aad w).2 := by
  rcases Option.eq_none_or_eq_some ((P.aead .aes256Gcm).decrypt
    (w.history .aes256Gcm).sealings oldKey.expose.toList blob.nonce.toList aad
    blob.ciphertext) with hnone | ⟨p, hopen⟩
  · rw [reencryptVault_of_none hnone]
    exact h
  · have hmem := (h.opens_iff hideal).mp hopen
    rw [reencryptVault_of_some hopen]
    rcases encryptVault_cases p newKey aad w with ⟨ct, henc, heq⟩ | heq
    · rw [heq]
      change (L.move _ _ _ _ _).Describes _
      rw [h.move_eq_store hideal hmem]
      exact h.store heq
    · rw [heq]
      exact h.frame ((w.extends_draw _ _).trans (World.extends_refuse _ _ _ _)) rfl

/-! ### Keys -/

theorem issue (h : L.Describes w) {r : KeyRequest B} {a : KeyAnswer B}
    (hcall : r.call P w = (.ok a, w')) : (L.issue r a).Describes w' := by
  have hstep := r.call_step w
  have haes := r.call_history_aes w
  rw [hcall] at hstep haes
  have hext := hstep.extends
  obtain ⟨answered, hinv, hmem⟩ := h.keys
  refine ⟨?_, ?_, ⟨_, hinv.step hstep, ?_⟩, ?_⟩
  · rw [haes]
    exact h.vaults
  · have hmono := Tagged.mono h.nonces (hext.drawn.map Draw.bytes)
    rwa [← haes] at hmono
  · intro r' a'
    simp only [Ledger.issue, Set.mem_insert_iff, Prod.mk.injEq, List.mem_append,
      List.mem_singleton, Outcome.ok.injEq, hmem]
    exact or_comm
  · intro r' a' hnew
    rcases Set.mem_insert_iff.mp hnew with heq | hold
    · cases heq
      exact ⟨w, w', hcall, .refl w'⟩
    · exact h.made_mono hext r' a' hold

theorem key_failed (h : L.Describes w) {r : KeyRequest B} {e : CryptoError}
    (hcall : r.call P w = (.err e, w')) : L.Describes w' := by
  have hstep := r.call_step w
  rw [hcall] at hstep
  cases hstep with
  | failed _ _ history hext => exact h.frame hext history

/-- The three operations on keys, through the request each of them answers. -/
theorem key (h : L.Describes w) {α : Type} {r : KeyRequest B} {x : Prog P α} {f : α → KeyAnswer B}
    (hcall : r.call P = do let a ← x; pure (f a)) (L' : Result α → Ledger B)
    (hok : ∀ a, L' (.ok a) = L.issue r (f a)) (herr : ∀ e, L' (.err e) = L) :
    (L' (x w).1).Describes (x w).2 := by
  rcases hx : x w with ⟨a | e | _, w'⟩
  · have hr : r.call P w = (.ok (f a), w') := by
      rw [hcall, Run.bind_of_ok hx]
      rfl
    rw [hok]
    exact h.issue hr
  · have hr : r.call P w = (.err e, w') := by
      rw [hcall, Run.bind_of_err hx]
    rw [herr]
    exact h.key_failed hr
  · have hr : r.call P w = (.panic, w') := by
      rw [hcall, Run.bind_of_panic hx]
    have hstep := r.call_step w
    rw [hr] at hstep
    cases hstep

/-! ### Opening a key -/

theorem unwrap_allowed (h : L.Describes w) (hideal : (P.aead .xchacha20Poly1305).Ideal)
    (hcorrect : P.AeadCorrect) {bytes : List B} {mk : MasterKey B}
    (hfree : (unwrapVaultKeyWithMasterKey P bytes mk w).2.CollisionFree) (vk : VaultKey B) :
    (unwrapVaultKeyWithMasterKey P bytes mk w).1 = .ok vk ↔
      (.wrapWithMasterKey vk mk, .wrapped bytes) ∈ L.keys := by
  constructor
  · intro hok
    obtain ⟨answered, hinv, hmem⟩ := h.keys
    exact (hmem _ _).mpr (hinv.unwrap_wrapped hideal (Prod.ext hok rfl) hfree)
  · intro hmem
    obtain ⟨v, v', hcall, hext⟩ := h.made _ _ hmem
    obtain ⟨bytes', u, hwrap, hpure⟩ := Run.bind_eq_ok.mp hcall
    cases hpure
    rw [unwrap_of_wrapWithMasterKey hcorrect hwrap hext]

theorem decrypt_allowed (h : L.Describes w) (hideal : (P.aead .xchacha20Poly1305).Ideal)
    (hcorrect : P.AeadCorrect) {enc : EncryptedPrivateKey B} {mk : MasterKey B}
    (hfree : (decryptPrivateKey P enc mk w).2.CollisionFree) (kp : UserKeypair B) :
    (decryptPrivateKey P enc mk w).1 = .ok kp ↔
      ∃ sealed, (.encryptPrivateKey sealed mk, .encrypted enc) ∈ L.keys ∧
        kp = P.keypairOf sealed.ed25519PrivateSeed := by
  constructor
  · intro hok
    have hcall : decryptPrivateKey P enc mk w = (.ok kp, _) := Prod.ext hok rfl
    obtain ⟨answered, hinv, hmem⟩ := h.keys
    obtain ⟨sealed, hsealed, hseed⟩ := hinv.decrypt_encrypted hideal hcall hfree
    refine ⟨sealed, (hmem _ _).mpr hsealed, ?_⟩
    rw [← hseed]
    exact (decryptPrivateKey_eq_ok.mp hcall).1
  · rintro ⟨sealed, hmem, rfl⟩
    obtain ⟨v, v', hcall, hext⟩ := h.made _ _ hmem
    obtain ⟨enc', u, hseal, hpure⟩ := Run.bind_eq_ok.mp hcall
    cases hpure
    rw [decrypt_of_encryptPrivateKey hcorrect hseal hext]

theorem shared_sound (h : L.Describes w) (hideal : (P.aead .xchacha20Poly1305).Ideal)
    {wrapped : WrappedVaultKey B} {kp : UserKeypair B} {vk : VaultKey B}
    (hfree : (unwrapVaultKey P wrapped kp w).2.CollisionFree)
    (hok : (unwrapVaultKey P wrapped kp w).1 = .ok vk) :
    ∃ recipient, (.wrapForUser vk recipient, .shared wrapped) ∈ L.keys ∧
      kp.x25519Public = recipient.x25519 := by
  obtain ⟨answered, hinv, hmem⟩ := h.keys
  obtain ⟨recipient, hshared, hpublic⟩ := hinv.unwrap_shared hideal (Prod.ext hok rfl) hfree
  exact ⟨recipient, (hmem _ _).mpr hshared, hpublic⟩

theorem shared_complete (h : L.Describes w) (hcorrect : P.AeadCorrect) (hdh : P.DhCommutes)
    (hkem : P.KemCorrect) {wrapped : WrappedVaultKey B} {kp : UserKeypair B} {vk : VaultKey B}
    (hkp : kp = P.keypairOf kp.ed25519PrivateSeed)
    (hmem : (.wrapForUser vk kp.publicKeys, .shared wrapped) ∈ L.keys) :
    (unwrapVaultKey P wrapped kp w).1 = .ok vk := by
  obtain ⟨v, v', hcall, hext⟩ := h.made _ _ hmem
  obtain ⟨wrapped', u, hwrap, hpure⟩ := Run.bind_eq_ok.mp hcall
  cases hpure
  rw [hkp] at hwrap ⊢
  obtain ⟨u', hunwrap, -⟩ := unwrap_of_wrapForUser hcorrect hdh hkem hwrap hext
  rw [hunwrap]

end Ledger.Describes

/-! ## Every sequence of calls -/

variable [DecidableEq B]

/-- The hypotheses of the idealised primitives. -/
structure Crates.Idealised (P : Crates B) : Prop where
  aead : ∀ c, (P.aead c).Ideal
  dh : P.DhCommutes
  kem : P.KemCorrect

omit [Byte B] [DecidableEq B] in
theorem Crates.Idealised.aeadCorrect (h : P.Idealised) : P.AeadCorrect :=
  fun c => (h.aead c).correct

theorem Ledger.Describes.next {L : Ledger B} {w : World P} (h : L.Describes w)
    (hideal : P.Idealised) {β : Type} (call : Api B β) :
    (L.next call (Api.call P S β call w).1).Describes (Api.call P S β call w).2 := by
  by_cases hseals : call.Seals
  · cases hseals with
    | encryptVault plaintext vk aad => exact h.encryptVault plaintext vk aad
    | reencryptVault blob oldKey newKey aad =>
        exact h.reencryptVault (hideal.aead _) blob oldKey newKey aad
    | wrapVaultKeyWithMasterKey vk mk =>
        exact h.key (r := .wrapWithMasterKey vk mk) (f := .wrapped) rfl
          (L.next (.wrapVaultKeyWithMasterKey vk mk)) (fun _ => rfl) fun _ => rfl
    | encryptPrivateKey kp mk =>
        exact h.key (r := .encryptPrivateKey kp mk) (f := .encrypted) rfl
          (L.next (.encryptPrivateKey kp mk)) (fun _ => rfl) fun _ => rfl
    | wrapVaultKeyForUser vk recipient =>
        exact h.key (r := .wrapForUser vk recipient) (f := .shared) rfl
          (L.next (.wrapVaultKeyForUser vk recipient)) (fun _ => rfl) fun _ => rfl
  · have hframe := Api.call_frames (S := S) call hseals w
    have hsame : L.next call (Api.call P S β call w).1 = L := by
      cases call <;> first
        | rfl
        | exact (hseals (by constructor)).elim
    rw [hsame]
    exact h.frame hframe.extends' hframe.history

theorem Ledger.Describes.allowed {L : Ledger B} {w : World P} (h : L.Describes w)
    (hideal : P.Idealised) {β : Type} (call : Api B β)
    (hfree : (Api.call P S β call w).2.CollisionFree) :
    L.allows P call (Api.call P S β call w).1 := by
  cases call with
  | decryptVault blob vk aad =>
      intro p
      rw [Api.call, decryptVault_apply, Outcome.okOr_eq_ok]
      exact h.opens_iff (hideal.aead _)
  | reencryptVault blob oldKey newKey aad =>
      constructor
      · rintro ⟨fresh, hok⟩
        have hcall : EvnxCrypto.reencryptVault P blob oldKey newKey aad w = (.ok fresh, _) :=
          Prod.ext hok rfl
        obtain ⟨p, hopen, -⟩ := reencryptVault_eq_ok.mp hcall
        exact ⟨p, (h.opens_iff (hideal.aead _)).mp hopen⟩
      · rintro ⟨p, hmem⟩
        obtain ⟨fresh, w', hre, -⟩ := reencryptVault_of_recorded (hideal.aead _).correct newKey
          ((h.mem_vaults _).mp hmem)
        exact ⟨fresh, congrArg Prod.fst hre⟩
  | unwrapVaultKeyWithMasterKey bytes mk =>
      exact h.unwrap_allowed (hideal.aead _) hideal.aeadCorrect hfree
  | decryptPrivateKey enc mk => exact h.decrypt_allowed (hideal.aead _) hideal.aeadCorrect hfree
  | unwrapVaultKey wrapped kp =>
      intro vk
      constructor
      · exact h.shared_sound (hideal.aead _) hfree
      · exact h.shared_complete hideal.aeadCorrect hideal.dh hideal.kem
  | _ => exact trivial

theorem Ledger.simulation (hideal : P.Idealised) :
    Monitor.Simulation (Ledger.monitor P) (Api.call P S) World.CollisionFree
      fun (L : Ledger B) w => L.Describes w where
  good_before _ call w hfree := hfree.of_extends (Api.call_extends call w)
  allowed h _ call hfree := h.allowed hideal call hfree
  preserved h _ call := h.next hideal call

omit [DecidableEq B] in
/-- While no draw repeats, nothing handed out stands for two things. -/
theorem Ledger.Describes.unique {L : Ledger B} {w : World P} (h : L.Describes w)
    (hfresh : w.Fresh) :
    (∀ e ∈ L.vaults, ∀ e' ∈ L.vaults, e.blob = e'.blob → e = e') ∧
      ∀ r r' a, (r, a) ∈ L.keys → (r', a) ∈ L.keys → r = r' := by
  constructor
  · intro e he e' he' hblob
    apply VaultEntry.sealing_inj
    apply h.nonces.once hfresh _ ((h.mem_vaults e).mp he) _ ((h.mem_vaults e').mp he')
    rw [VaultEntry.sealing, VaultEntry.sealing, hblob]
  · intro r r' a hr hr'
    obtain ⟨answered, hinv, hmem⟩ := h.keys
    have hsame := hinv.nonces.once hfresh _ (mem_successes.mpr ((hmem r a).mp hr)) _
      (mem_successes.mpr ((hmem r' a).mp hr')) rfl
    exact congrArg Prod.fst hsame

/-- Every sequence of calls of the native interface is one the ledger allows, answer
by answer, and where no draw repeats each handle in the ledger has one meaning. -/
theorem Ledger.refined_by_api {α : Type} (hideal : P.Idealised) (S : SrpClient B)
    (tape : ℕ → Purpose → (n : ℕ) → List.Vector B n) (t : Program B α) {w : World P}
    (hw : w = t.final (Api.call P S) (World.init P tape)) {trace : ApiTrace B}
    (htrace : trace = t.trace (Api.call P S) (World.init P tape)) :
    (w.CollisionFree → (Ledger.monitor P).Accepts Ledger.empty trace) ∧
    (w.Fresh → ∀ L, L = (Ledger.monitor P).after Ledger.empty trace →
      (∀ e ∈ L.vaults, ∀ e' ∈ L.vaults, e.blob = e'.blob → e = e') ∧
        ∀ r r' a, (r, a) ∈ L.keys → (r', a) ∈ L.keys → r = r') := by
  have hsim := Ledger.simulation (S := S) hideal
  have hstart : Ledger.empty.Describes (World.init P tape) := .init tape
  subst hw htrace
  constructor
  · exact hsim.accepts t hstart
  · rintro hfresh L rfl
    have hfinal : Ledger.Describes _ _ := hsim.related t hstart
    exact hfinal.unique hfresh

/-! ## A note sealed and opened again -/

section
open Symbolic Classical

/-- An SRP crate for sequences of calls that do not log in. -/
def noServer : SrpClient SByte := ⟨id, fun _ _ _ _ _ => .error "no server"⟩

/-- Seals a note and opens what came back. -/
def sealAndOpen : Program SByte Unit :=
  .ask (.encryptVault teamNote.plaintext teamNote.vaultKey (vaultAad "team" 1)) fun
    | .ok blob =>
        .ask (.decryptVault blob teamNote.vaultKey (vaultAad "team" 1)) fun _ => .done ()
    | _ => .done ()

theorem idealCrates_idealised : idealCrates.Idealised :=
  ⟨idealCrates_ideal, idealCrates_dhCommutes, idealCrates_kemCorrect⟩

theorem refined_by_api_sealAndOpen : (Ledger.monitor idealCrates).Accepts Ledger.empty
    (sealAndOpen.trace (Api.call idealCrates noServer) (World.init idealCrates symbolicTape)) :=
  (Ledger.refined_by_api idealCrates_idealised noServer symbolicTape sealAndOpen rfl rfl).1
    (idealCrates_collisionFree _)

end
end EvnxCrypto
