import EvnxCrypto.Sharing
import EvnxCrypto.SymbolicCrates

/-!
# What was sealed opens, in every later world

Each sealing operation is inverted by its opening operation as long as the world
has only moved on. For a shared vault key the two sides mix the same input from
different data, which rests on the commuting scalar multiplications of X25519
and on the correctness of ML-KEM.
-/
namespace EvnxCrypto
open Effect ByteString AuthenticatedEncryption

variable {B : Type} {P : Crates B}

/-- Both ciphers open what they sealed. -/
def Crates.AeadCorrect (P : Crates B) : Prop := ∀ c, (P.aead c).Correct

def Crates.DhCommutes (P : Crates B) : Prop :=
  ∀ a b, P.diffieHellman a (P.x25519PublicKey b) = P.diffieHellman b (P.x25519PublicKey a)

/-- Decapsulation returns what was encapsulated to the key of the same seed. -/
def Crates.KemCorrect (P : Crates B) : Prop :=
  ∀ seed m,
    let kem := P.encapsulateDeterministic (P.mlkemEncapsulationKey (P.mlkemFromSeed seed)) m
    P.decapsulateSlice (P.mlkemFromSeed seed) kem.1.toList = some kem.2

theorem symbolicCrates_aeadCorrect : symbolicCrates.AeadCorrect :=
  fun c => symbolicAead_correct (cipherFn c)

theorem symbolicCratesWith_dhCommutes (aead : Cipher → Aead SByte) :
    (symbolicCratesWith aead).DhCommutes :=
  fun a b => scalarMul_comm a.toList b.toList

theorem symbolicCratesWith_kemCorrect (aead : Cipher → Aead SByte) :
    (symbolicCratesWith aead).KemCorrect := by
  intro seed m
  have hlen (v : List.Vector SByte 1088) : v.toList.length = 1088 := v.toList_length
  simp only [symbolicCratesWith, hlen, if_true]
  exact congrArg some (symbolicDecapsulate_encapsulation _ m.toList)

theorem symbolicCrates_dhCommutes : symbolicCrates.DhCommutes := symbolicCratesWith_dhCommutes _

theorem symbolicCrates_kemCorrect : symbolicCrates.KemCorrect := symbolicCratesWith_kemCorrect _

theorem idealCrates_aeadCorrect : idealCrates.AeadCorrect :=
  fun c => (idealCrates_ideal c).correct

theorem idealCrates_dhCommutes : idealCrates.DhCommutes := symbolicCratesWith_dhCommutes _

theorem idealCrates_kemCorrect : idealCrates.KemCorrect := symbolicCratesWith_kemCorrect _

theorem Crates.AeadCorrect.opens (h : P.AeadCorrect) {c : Cipher} {k n a m ct : List B}
    {w u : World P} (henc : (P.aead c).encrypt k n a m = some ct)
    (hext : (w.record c henc).Extends u) :
    (P.aead c).decrypt (u.history c).sealings k n a ct = some m := by
  have hmem : (⟨k, n, a, m, ct⟩ : Sealing B) ∈ u.history c := by
    apply hext.mem
    rw [World.record_history_self, History.mem_add]
    exact .inl rfl
  exact h c (u.history c) _ hmem

theorem decryptVault_of_encryptVault {plaintext aad : List B} {vaultKey : VaultKey B}
    {blob : EncryptedBlob B} {w w' u : World P} (hcorrect : P.AeadCorrect)
    (hseal : encryptVault P plaintext vaultKey aad w = (.ok blob, w')) (hext : w'.Extends u) :
    decryptVault P blob vaultKey aad u = (.ok plaintext, u) := by
  obtain ⟨-, henc, rfl⟩ := encryptVault_eq_ok.mp hseal
  rw [decryptVault_apply, hcorrect.opens henc hext]
  rfl

variable [Byte B]

theorem unwrap_of_wrapWithMasterKey {vaultKey : VaultKey B} {masterKey : MasterKey B}
    {wrapped : List B} {w w' u : World P} (hcorrect : P.AeadCorrect)
    (hwrap : wrapVaultKeyWithMasterKey P vaultKey masterKey w = (.ok wrapped, w'))
    (hext : w'.Extends u) :
    unwrapVaultKeyWithMasterKey P wrapped masterKey u =
      (.ok vaultKey, u.wrapSubkey masterKey) := by
  obtain ⟨ct, rfl, henc, rfl⟩ := wrapVaultKeyWithMasterKey_eq_ok.mp hwrap
  have hnonce := (w.next .nonce XCHACHA_NONCE_LEN).toList_length
  have hct : ct.length = vaultKey.expose.toList.length + TAG_LEN :=
    (P.aead .xchacha20Poly1305).encrypt_length henc
  apply unwrapVaultKeyWithMasterKey_eq_ok.mpr
  refine ⟨?_, rfl, ?_⟩
  · simp only [List.length_append, List.Vector.toList_length, hct]
    omega
  · rw [take_append_of_length hnonce, drop_append_of_length hnonce]
    exact hcorrect.opens henc hext

theorem decrypt_of_encryptPrivateKey {keypair : UserKeypair B} {masterKey : MasterKey B}
    {enc : EncryptedPrivateKey B} {w w' u : World P} (hcorrect : P.AeadCorrect)
    (hseal : encryptPrivateKey P keypair masterKey w = (.ok enc, w')) (hext : w'.Extends u) :
    decryptPrivateKey P enc masterKey u =
      (.ok (P.keypairOf keypair.ed25519PrivateSeed),
        (u.sealSubkey masterKey).deriveIdentity keypair.ed25519PrivateSeed) := by
  obtain ⟨-, henc, rfl⟩ := encryptPrivateKey_eq_ok.mp hseal
  exact decryptPrivateKey_of_some (hcorrect.opens henc hext)

/-- A key pair some call of the program has returned. -/
def Crates.Issued (P : Crates B) (keypair : UserKeypair B) : Prop :=
  (∃ w w', generateKeypair P w = (.ok keypair, w')) ∨
    ∃ enc masterKey w w', decryptPrivateKey P enc masterKey w = (.ok keypair, w')

theorem Crates.Issued.eq_keypairOf {keypair : UserKeypair B} (h : P.Issued keypair) :
    keypair = P.keypairOf keypair.ed25519PrivateSeed := by
  rcases h with h | h
  · rcases h with ⟨w, w', h⟩
    rw [generateKeypair_apply] at h
    cases h
    rfl
  · obtain ⟨enc, masterKey, w, w', h⟩ := h
    exact (decryptPrivateKey_eq_ok.mp h).1

/-! ## The two sides of a shared wrap -/

/-- Sender and recipient compute one X25519 secret. -/
theorem recipient_secret (hdh : P.DhCommutes) (seed ephSecret : List.Vector B 32) :
    P.diffieHellman (P.x25519StaticSecret (P.keypairOf seed).x25519Private)
        (P.x25519PublicKey ephSecret) =
      P.diffieHellman ephSecret (P.keypairOf seed).x25519Public.bytes := by
  change P.diffieHellman (P.x25519StaticSecret (P.x25519StaticSecret _)) _ = _
  rw [P.x25519StaticSecret_idem]
  exact hdh _ _

/-- Sender and recipient mix one input. -/
theorem recipientIkm_wrapOf (hdh : P.DhCommutes) (seed : List.Vector B 32)
    (coins : WrapCoins B) (ct : List B) :
    P.recipientIkm (P.keypairOf seed) (P.wrapOf (P.keypairOf seed).publicKeys coins ct)
        (P.encapsulateDeterministic (P.keypairOf seed).mlkemPublic.bytes coins.m).2 =
      P.senderIkm (P.keypairOf seed).publicKeys coins := by
  change hybridIkm _ (P.diffieHellman _ (P.x25519PublicKey coins.ephSecret)) _ _ _ = _
  rw [recipient_secret hdh]
  rfl

/-- A wrap opens for its recipient once its sealing is on record, whoever made it. -/
theorem unwrap_of_sealed {vaultKey : VaultKey B} {seed : List.Vector B 32}
    {coins : WrapCoins B} {ct : List B} {v u : World P} (hcorrect : P.AeadCorrect)
    (hdh : P.DhCommutes) (hkem : P.KemCorrect)
    (haccepts : P.Accepts (P.keypairOf seed).publicKeys coins)
    (henc : (P.aead .xchacha20Poly1305).encrypt
      (P.hybridKey (P.senderIkm (P.keypairOf seed).publicKeys coins)).toList coins.nonce.toList []
      vaultKey.expose.toList = some ct)
    (hext : (v.record .xchacha20Poly1305 henc).Extends u) :
    ∃ u', unwrapVaultKey P (P.wrapOf (P.keypairOf seed).publicKeys coins ct)
      (P.keypairOf seed) u = (.ok vaultKey, u') ∧ u.Extends u' := by
  have hnonce := coins.nonce.toList_length
  refine ⟨_, unwrapVaultKey_eq_ok.mpr ⟨?_, _, hkem _ coins.m, ?_, rfl, ?_⟩,
    u.extends_subkey _ _⟩
  · change P.wasContributory (P.diffieHellman _ (P.x25519PublicKey coins.ephSecret)) = true
    rw [recipient_secret hdh]
    exact haccepts.contributory
  · simp only [Crates.wrapOf, List.length_append, hnonce]
    omega
  · change (P.aead .xchacha20Poly1305).decrypt _ (P.subkey (P.recipientIkm (P.keypairOf seed)
      (P.wrapOf _ coins ct)
      (P.encapsulateDeterministic (P.keypairOf seed).mlkemPublic.bytes coins.m).2) _).toList
      ((coins.nonce.toList ++ ct).take _) [] ((coins.nonce.toList ++ ct).drop _) = _
    rw [recipientIkm_wrapOf hdh, take_append_of_length hnonce, drop_append_of_length hnonce]
    exact hcorrect.opens henc hext

theorem unwrap_of_wrapForUser {vaultKey : VaultKey B} {seed : List.Vector B 32}
    {wrapped : WrappedVaultKey B} {w w' u : World P} (hcorrect : P.AeadCorrect)
    (hdh : P.DhCommutes) (hkem : P.KemCorrect)
    (hwrap : wrapVaultKeyForUser P vaultKey (P.keypairOf seed).publicKeys w = (.ok wrapped, w'))
    (hext : w'.Extends u) :
    ∃ u', unwrapVaultKey P wrapped (P.keypairOf seed) u = (.ok vaultKey, u') ∧ u.Extends u' := by
  obtain ⟨haccepts, ct, henc, rfl, rfl⟩ := wrapVaultKeyForUser_eq_ok.mp hwrap
  exact unwrap_of_sealed hcorrect hdh hkem haccepts henc hext

/-! ## Wraps over symbolic bytes always succeed -/

section Symbolic
open Symbolic

theorem symbolicCratesWith_contributory (aead : Cipher → Aead SByte)
    (a b : List.Vector SByte 32) :
    (symbolicCratesWith aead).wasContributory
      ((symbolicCratesWith aead).diffieHellman a ((symbolicCratesWith aead).x25519PublicKey b)) =
      true := by
  simp only [symbolicCratesWith, decide_eq_true_eq]
  rw [scalarMul_base, scalarMul_point]
  exact out_ne_lits (by decide) _

theorem symbolicCratesWith_accepts (aead : Cipher → Aead SByte) (seed : List.Vector SByte 32)
    (coins : WrapCoins SByte) :
    (symbolicCratesWith aead).Accepts ((symbolicCratesWith aead).keypairOf seed).publicKeys
      coins :=
  ⟨symbolicCratesWith_contributory aead coins.ephSecret _, rfl⟩

theorem symbolicCratesWith_wrapForUser {aead : Cipher → Aead SByte}
    (htotal : ∀ c k n a m, ∃ ct, (aead c).encrypt k n a m = some ct)
    (vaultKey : VaultKey SByte) (seed : List.Vector SByte 32)
    (w : World (symbolicCratesWith aead)) :
    ∃ wrapped w', wrapVaultKeyForUser (symbolicCratesWith aead) vaultKey
      ((symbolicCratesWith aead).keypairOf seed).publicKeys w = (.ok wrapped, w') := by
  obtain ⟨ct, henc⟩ := htotal .xchacha20Poly1305
    ((symbolicCratesWith aead).hybridKey ((symbolicCratesWith aead).senderIkm
      ((symbolicCratesWith aead).keypairOf seed).publicKeys w.wrapCoins)).toList
    w.wrapCoins.nonce.toList [] vaultKey.expose.toList
  exact ⟨_, _, wrapVaultKeyForUser_of_some (symbolicCratesWith_accepts aead seed _) henc⟩

theorem symbolicCratesWith_wrapWithMasterKey {aead : Cipher → Aead SByte}
    (htotal : ∀ c k n a m, ∃ ct, (aead c).encrypt k n a m = some ct)
    (vaultKey : VaultKey SByte) (masterKey : MasterKey SByte)
    (w : World (symbolicCratesWith aead)) :
    ∃ wrapped w', wrapVaultKeyWithMasterKey (symbolicCratesWith aead) vaultKey masterKey w =
      (.ok wrapped, w') := by
  obtain ⟨ct, henc⟩ := htotal .xchacha20Poly1305
    ((symbolicCratesWith aead).wrapSubkey masterKey).toList
    (w.next .nonce XCHACHA_NONCE_LEN).toList [] vaultKey.expose.toList
  exact ⟨_, _, wrapVaultKeyWithMasterKey_of_some henc⟩

theorem symbolicCrates_wrapForUser (vaultKey : VaultKey SByte) (seed : List.Vector SByte 32)
    (w : World symbolicCrates) :
    ∃ wrapped w', wrapVaultKeyForUser symbolicCrates vaultKey
      (symbolicCrates.keypairOf seed).publicKeys w = (.ok wrapped, w') :=
  symbolicCratesWith_wrapForUser (fun _ _ _ _ _ => ⟨_, rfl⟩) vaultKey seed w

theorem idealCrates_wrapForUser (vaultKey : VaultKey SByte) (seed : List.Vector SByte 32)
    (w : World idealCrates) :
    ∃ wrapped w', wrapVaultKeyForUser idealCrates vaultKey
      (idealCrates.keypairOf seed).publicKeys w = (.ok wrapped, w') :=
  symbolicCratesWith_wrapForUser (fun _ _ _ _ _ => ⟨_, rfl⟩) vaultKey seed w

theorem idealCrates_wrapWithMasterKey (vaultKey : VaultKey SByte) (masterKey : MasterKey SByte)
    (w : World idealCrates) :
    ∃ wrapped w', wrapVaultKeyWithMasterKey idealCrates vaultKey masterKey w =
      (.ok wrapped, w') :=
  symbolicCratesWith_wrapWithMasterKey (fun _ _ _ _ _ => ⟨_, rfl⟩) vaultKey masterKey w

theorem idealCrates_collisionFree (w : World idealCrates) : w.CollisionFree :=
  Crates.HkdfInjective.collisionFree (symbolicCratesWith_hkdfInjective _) w

end Symbolic
end EvnxCrypto
