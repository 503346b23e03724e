import EvnxCrypto.KeyRuns
import EvnxCrypto.RoundTrip

/-!
# An accepted key or seed was sealed by the matching operation

Under an ideal cipher, and where no two HKDF inputs of the run collide, each of
the three opening operations accepts only what its own sealing operation put
out. The tags keep the operations apart and the mixed input keeps the fields of a
shared wrap together.
-/
namespace EvnxCrypto
open Effect ByteString AuthenticatedEncryption

variable {B : Type} [Byte B] {P : Crates B}

section
omit [Byte B]

theorem KeyRequest.eq_encryptPrivateKey {r : KeyRequest B}
    (h : r.operation = .encryptPrivateKey) :
    ∃ keypair masterKey, r = .encryptPrivateKey keypair masterKey := by
  cases r with
  | encryptPrivateKey keypair masterKey => exact ⟨keypair, masterKey, rfl⟩
  | wrapWithMasterKey _ _ => cases h
  | wrapForUser _ _ => cases h

theorem KeyRequest.eq_wrapWithMasterKey {r : KeyRequest B}
    (h : r.operation = .wrapWithMasterKey) :
    ∃ vaultKey masterKey, r = .wrapWithMasterKey vaultKey masterKey := by
  cases r with
  | encryptPrivateKey _ _ => cases h
  | wrapWithMasterKey vaultKey masterKey => exact ⟨vaultKey, masterKey, rfl⟩
  | wrapForUser _ _ => cases h

theorem KeyRequest.eq_wrapForUser {r : KeyRequest B} (h : r.operation = .wrapForUser) :
    ∃ vaultKey recipient, r = .wrapForUser vaultKey recipient := by
  cases r with
  | encryptPrivateKey _ _ => cases h
  | wrapWithMasterKey _ _ => cases h
  | wrapForUser vaultKey recipient => exact ⟨vaultKey, recipient, rfl⟩

theorem Carries.encrypted_inv {keypair : UserKeypair B} {masterKey : MasterKey B}
    {a : KeyAnswer B} {ikm nonce ct : List B}
    (h : Carries P (.encryptPrivateKey keypair masterKey) a ikm nonce ct) :
    ikm = masterKey.expose.toList ∧
      ∃ enc, a = .encrypted enc ∧ nonce = enc.nonce.toList ∧ ct = enc.ciphertext := by
  cases h with
  | encrypted _ _ enc => exact ⟨rfl, enc, rfl, rfl, rfl⟩

theorem Carries.wrapped_inv {vaultKey : VaultKey B} {masterKey : MasterKey B}
    {a : KeyAnswer B} {ikm nonce ct : List B}
    (h : Carries P (.wrapWithMasterKey vaultKey masterKey) a ikm nonce ct) :
    ikm = masterKey.expose.toList ∧ a = .wrapped (nonce ++ ct) := by
  cases h with
  | wrapped _ _ _ _ => exact ⟨rfl, rfl⟩

theorem Carries.shared_inv {vaultKey : VaultKey B} {recipient : UserPublicKeys B}
    {a : KeyAnswer B} {ikm nonce ct : List B}
    (h : Carries P (.wrapForUser vaultKey recipient) a ikm nonce ct) :
    ∃ coins, ikm = P.senderIkm recipient coins ∧ nonce = coins.nonce.toList ∧
      a = .shared (P.wrapOf recipient coins ct) := by
  cases h with
  | shared _ _ coins _ => exact ⟨coins, rfl, rfl, rfl⟩

end

section
variable {answered : KeyCalls B} {w w' : World P}

/-- An accepted wrap for a user is a wrap of the run, field by field. -/
theorem KeyInvariant.unwrap_shared (h : KeyInvariant answered w)
    (hideal : (P.aead .xchacha20Poly1305).Ideal) {wrapped : WrappedVaultKey B}
    {keypair : UserKeypair B} {vk : VaultKey B}
    (hok : unwrapVaultKey P wrapped keypair w = (.ok vk, w')) (hfree : w'.CollisionFree) :
    ∃ recipient, (.wrapForUser vk recipient, .ok (.shared wrapped)) ∈ answered ∧
      keypair.x25519Public = recipient.x25519 := by
  obtain ⟨-, ss, -, -, rfl, hopen⟩ := unwrapVaultKey_eq_ok.mp hok
  obtain ⟨r, a, hra, hop, hcarries, hmsg⟩ := h.opened hideal (w.extends_subkey _ _) hfree
    (o := .wrapForUser) List.mem_cons_self hopen
  obtain ⟨vaultKey, recipient, rfl⟩ := KeyRequest.eq_wrapForUser hop
  obtain ⟨coins, hikm, hnonce, rfl⟩ := hcarries.shared_inv
  obtain ⟨-, -, hct, heph, hpublic⟩ := hybridIkm_inj hikm
  have hvk : vk = vaultKey := VaultKey.ext (toList_injective hmsg)
  have hwrapped : wrapped = P.wrapOf recipient coins
      (wrapped.encryptedVaultKey.drop XCHACHA_NONCE_LEN) := by
    apply WrappedVaultKey.ext heph hct
    change _ = coins.nonce.toList ++ _
    rw [← hnonce, List.take_append_drop]
  refine ⟨recipient, ?_, X25519PublicKeyBytes.ext hpublic⟩
  rw [hvk, hwrapped]
  exact hra

theorem KeyInvariant.unwrap_wrapped (h : KeyInvariant answered w)
    (hideal : (P.aead .xchacha20Poly1305).Ideal) {bytes : List B} {masterKey : MasterKey B}
    {vk : VaultKey B} (hok : unwrapVaultKeyWithMasterKey P bytes masterKey w = (.ok vk, w'))
    (hfree : w'.CollisionFree) :
    (.wrapWithMasterKey vk masterKey, .ok (.wrapped bytes)) ∈ answered := by
  obtain ⟨-, rfl, hopen⟩ := unwrapVaultKeyWithMasterKey_eq_ok.mp hok
  obtain ⟨r, a, hra, hop, hcarries, hmsg⟩ := h.opened hideal (w.extends_subkey _ _) hfree
    (o := .wrapWithMasterKey) List.mem_cons_self hopen
  obtain ⟨vaultKey, masterKey', rfl⟩ := KeyRequest.eq_wrapWithMasterKey hop
  obtain ⟨hikm, rfl⟩ := hcarries.wrapped_inv
  have hvk : vk = vaultKey := VaultKey.ext (toList_injective hmsg)
  have hmaster : masterKey = masterKey' := MasterKey.ext (toList_injective hikm)
  rw [List.take_append_drop] at hra
  rw [hvk, hmaster]
  exact hra

theorem KeyInvariant.decrypt_encrypted (h : KeyInvariant answered w)
    (hideal : (P.aead .xchacha20Poly1305).Ideal) {enc : EncryptedPrivateKey B}
    {masterKey : MasterKey B} {keypair : UserKeypair B}
    (hok : decryptPrivateKey P enc masterKey w = (.ok keypair, w')) (hfree : w'.CollisionFree) :
    ∃ sealed, (.encryptPrivateKey sealed masterKey, .ok (.encrypted enc)) ∈ answered ∧
      keypair.ed25519PrivateSeed = sealed.ed25519PrivateSeed := by
  obtain ⟨-, rfl, hopen⟩ := decryptPrivateKey_eq_ok.mp hok
  have hderived : ⟨masterKey.expose.toList, HKDF_INFO_PRIVATE_KEY_ENC, 32,
      (P.sealSubkey masterKey).toList⟩ ∈
      ((w.sealSubkey masterKey).deriveIdentity keypair.ed25519PrivateSeed).derived := by
    exact (World.extends_deriveIdentity _ _).derived.subset List.mem_cons_self
  obtain ⟨r, a, hra, hop, hcarries, hmsg⟩ := h.opened hideal
    ((w.extends_subkey _ _).trans (World.extends_deriveIdentity _ _)) hfree
    (o := .encryptPrivateKey) hderived hopen
  obtain ⟨sealed, masterKey', rfl⟩ := KeyRequest.eq_encryptPrivateKey hop
  obtain ⟨hikm, enc', rfl, hnonce, hct⟩ := hcarries.encrypted_inv
  have henc : enc = enc' := EncryptedPrivateKey.ext (toList_injective hnonce) hct
  have hmaster : masterKey = masterKey' := MasterKey.ext (toList_injective hikm)
  refine ⟨sealed, ?_, toList_injective hmsg⟩
  rw [henc, hmaster]
  exact hra

end

/-! ## Shared wraps -/

/-- A wrap that reuses the sealed part of one honest wrap is accepted only with
the other two fields of that wrap and by its recipient, and yields its key. -/
theorem unwrapVaultKey_binds_transcript (hideal : (P.aead .xchacha20Poly1305).Ideal)
    (tape : ℕ → Purpose → (n : ℕ) → List.Vector B n) (requests : List (KeyRequest B))
    (vaultKey : VaultKey B) (recipient : UserPublicKeys B) (honest : WrappedVaultKey B)
    (hmem : (.wrapForUser vaultKey recipient, .ok (.shared honest)) ∈
      (keyRun P tape requests).1)
    (served : WrappedVaultKey B) (hsame : served.encryptedVaultKey = honest.encryptedVaultKey)
    (honly : ∀ vk r other,
      (.wrapForUser vk r, .ok (.shared other)) ∈ (keyRun P tape requests).1 →
      other.encryptedVaultKey = honest.encryptedVaultKey →
      vk = vaultKey ∧ r = recipient ∧ other = honest)
    (keypair : UserKeypair B) (vk : VaultKey B) (w' : World P)
    (hok : unwrapVaultKey P served keypair (keyRun P tape requests).2 = (.ok vk, w'))
    (hfree : w'.CollisionFree) :
    served.ephPubKey = honest.ephPubKey ∧ served.mlkemCiphertext = honest.mlkemCiphertext ∧
      keypair.x25519Public = recipient.x25519 ∧ vk = vaultKey := by
  have hinv := keyInvariant_run tape requests (P := P)
  obtain ⟨r, hra, hpublic⟩ := hinv.unwrap_shared hideal hok hfree
  obtain ⟨rfl, rfl, rfl⟩ := honly vk r served hra hsame
  exact ⟨rfl, rfl, hpublic, rfl⟩

section
open Symbolic

noncomputable def friend : UserKeypair SByte :=
  idealCrates.keypairOf (symbolicTape 7 .seed ED25519_PRIVATE_LEN)

def teamKey : VaultKey SByte := ⟨atoms (.draw .vaultKey 8) VAULT_KEY_LEN⟩

def nextTeamKey : VaultKey SByte := ⟨atoms (.draw .vaultKey 10) VAULT_KEY_LEN⟩

/-- Two wraps for one friend. -/
noncomputable def shareTwice : List (KeyRequest SByte) :=
  [.wrapForUser teamKey friend.publicKeys, .wrapForUser nextTeamKey friend.publicKeys]

theorem idealCrates_encapsulate (ek : List.Vector SByte 1184) (m : List.Vector SByte 32) :
    (idealCrates.encapsulateDeterministic ek m).1 =
      out .encapsulation [ek.toList, m.toList] 1088 := rfl

/-- Wraps made at different places of the tape share no field. -/
theorem wrapOf_fields_ne {recipient recipient' : UserPublicKeys SByte} {ct ct' : List SByte}
    (w w' : World idealCrates) (hw : w.tape = symbolicTape) (hw' : w'.tape = symbolicTape)
    (hne : w.drawn.length ≠ w'.drawn.length) :
    (idealCrates.wrapOf recipient w.wrapCoins ct).ephPubKey ≠
        (idealCrates.wrapOf recipient' w'.wrapCoins ct').ephPubKey ∧
      (idealCrates.wrapOf recipient w.wrapCoins ct).mlkemCiphertext ≠
        (idealCrates.wrapOf recipient' w'.wrapCoins ct').mlkemCiphertext ∧
      (idealCrates.wrapOf recipient w.wrapCoins ct).encryptedVaultKey ≠
        (idealCrates.wrapOf recipient' w'.wrapCoins ct').encryptedVaultKey := by
  have hsecret : w.wrapCoins.ephSecret.toList ≠ w'.wrapCoins.ephSecret.toList := by
    intro h
    exact hne (length_drawn_of_next_eq w w' hw hw' (by decide) h)
  have hm : w.wrapCoins.m.toList ≠ w'.wrapCoins.m.toList := by
    intro h
    have hlen := length_drawn_of_next_eq (w.draw .ephemeralSecret 32)
      (w'.draw .ephemeralSecret 32) hw hw' (by decide) h
    exact hne (Nat.succ.inj hlen)
  have hnonce : w.wrapCoins.nonce.toList ≠ w'.wrapCoins.nonce.toList := by
    intro h
    have hlen := length_drawn_of_next_eq ((w.draw .ephemeralSecret 32).draw .encapsulation 32)
      ((w'.draw .ephemeralSecret 32).draw .encapsulation 32) hw hw' (by decide) h
    exact hne (Nat.succ.inj (Nat.succ.inj hlen))
  refine ⟨?_, ?_, ?_⟩
  · intro h
    have hpoint := congrArg List.Vector.toList h
    change (scalarMul _ _).toList = (scalarMul _ _).toList at hpoint
    rw [scalarMul_base, scalarMul_base] at hpoint
    have hargs := (out_inj (by decide) hpoint).2.1
    simp only [List.cons.injEq, and_true, true_and] at hargs
    exact hsecret hargs
  · intro h
    unfold Crates.wrapOf at h
    simp only [idealCrates_encapsulate] at h
    have hargs := (out_inj (by simp) h).2.1
    simp only [List.cons.injEq, and_true] at hargs
    exact hm hargs.2
  · intro h
    exact hnonce (List.append_inj_left h (by simp))

theorem shareTwice_answers : ∃ first second,
    (keyRun idealCrates symbolicTape shareTwice).1 =
      [(.wrapForUser teamKey friend.publicKeys, .ok (.shared first)),
        (.wrapForUser nextTeamKey friend.publicKeys, .ok (.shared second))] ∧
    first.ephPubKey ≠ second.ephPubKey ∧ first.mlkemCiphertext ≠ second.mlkemCiphertext ∧
    first.encryptedVaultKey ≠ second.encryptedVaultKey ∧
    ∃ w', unwrapVaultKey idealCrates first friend
      (keyRun idealCrates symbolicTape shareTwice).2 = (.ok teamKey, w') := by
  obtain ⟨first, w₁, hfirst⟩ := idealCrates_wrapForUser teamKey
    (symbolicTape 7 .seed ED25519_PRIVATE_LEN) (World.init idealCrates symbolicTape)
  obtain ⟨second, w₂, hsecond⟩ := idealCrates_wrapForUser nextTeamKey
    (symbolicTape 7 .seed ED25519_PRIVATE_LEN) w₁
  have hcall : KeyRequest.call idealCrates (.wrapForUser teamKey friend.publicKeys)
      (World.init idealCrates symbolicTape) = (.ok (.shared first), w₁) :=
    Run.bind_of_ok hfirst
  have hcall' : KeyRequest.call idealCrates (.wrapForUser nextTeamKey friend.publicKeys) w₁ =
      (.ok (.shared second), w₂) :=
    Run.bind_of_ok hsecond
  have hrun : keyRun idealCrates symbolicTape shareTwice =
      ([(.wrapForUser teamKey friend.publicKeys, .ok (.shared first)),
        (.wrapForUser nextTeamKey friend.publicKeys, .ok (.shared second))], w₂) := by
    rw [keyRun, shareTwice, transcript, transcript, transcript, hcall, hcall']
  obtain ⟨w₃, hunwrap, -⟩ := unwrap_of_wrapForUser idealCrates_aeadCorrect
    idealCrates_dhCommutes idealCrates_kemCorrect hfirst (wrapVaultKeyForUser_extends hsecond)
  have htape := (wrapVaultKeyForUser_extends hfirst).tape
  obtain ⟨-, ct, henc, rfl, hw₁⟩ := wrapVaultKeyForUser_eq_ok.mp hfirst
  obtain ⟨-, ct', -, rfl, -⟩ := wrapVaultKeyForUser_eq_ok.mp hsecond
  have hplaces : (World.init idealCrates symbolicTape).drawn.length ≠ w₁.drawn.length := by
    rw [hw₁]
    exact (Nat.succ_ne_zero 2).symm
  obtain ⟨heph, hkem, hkey⟩ := wrapOf_fields_ne _ w₁ rfl htape hplaces
  rw [hrun]
  exact ⟨_, _, rfl, heph, hkem, hkey, w₃, hunwrap⟩

theorem unwrapVaultKey_binds_transcript_shareTwice : ∃ first second,
    (keyRun idealCrates symbolicTape shareTwice).1 =
      [(.wrapForUser teamKey friend.publicKeys, .ok (.shared first)),
        (.wrapForUser nextTeamKey friend.publicKeys, .ok (.shared second))] ∧
    (∃ w', unwrapVaultKey idealCrates first friend
      (keyRun idealCrates symbolicTape shareTwice).2 = (.ok teamKey, w')) ∧
    (∀ keypair vk w', unwrapVaultKey idealCrates { first with ephPubKey := second.ephPubKey }
      keypair (keyRun idealCrates symbolicTape shareTwice).2 ≠ (.ok vk, w')) ∧
    ∀ keypair vk w', unwrapVaultKey idealCrates
      { first with mlkemCiphertext := second.mlkemCiphertext } keypair
      (keyRun idealCrates symbolicTape shareTwice).2 ≠ (.ok vk, w') := by
  obtain ⟨first, second, hanswers, heph, hkem, hkey, hopen⟩ := shareTwice_answers
  have hmem : (.wrapForUser teamKey friend.publicKeys, .ok (.shared first)) ∈
      (keyRun idealCrates symbolicTape shareTwice).1 := by
    rw [hanswers]
    exact List.mem_cons_self
  have honly : ∀ vk r other, (.wrapForUser vk r, .ok (.shared other)) ∈
      (keyRun idealCrates symbolicTape shareTwice).1 →
      other.encryptedVaultKey = first.encryptedVaultKey →
      vk = teamKey ∧ r = friend.publicKeys ∧ other = first := by
    intro vk r other hother hsame
    rw [hanswers] at hother
    rcases List.mem_cons.mp hother with hother | hother
    · cases hother
      exact ⟨rfl, rfl, rfl⟩
    · cases List.mem_singleton.mp hother
      exact (hkey hsame.symm).elim
  have hbinds := fun served hsame keypair vk w' hok =>
    unwrapVaultKey_binds_transcript (idealCrates_ideal _) symbolicTape shareTwice teamKey
      friend.publicKeys first hmem served hsame honly keypair vk w' hok
      (idealCrates_collisionFree w')
  refine ⟨first, second, hanswers, hopen, ?_, ?_⟩
  · intro keypair vk w' hok
    obtain ⟨hsame, -⟩ := hbinds ⟨second.ephPubKey, _, _⟩ rfl keypair vk w' hok
    exact heph hsame.symm
  · intro keypair vk w' hok
    obtain ⟨-, hsame, -⟩ := hbinds ⟨_, second.mlkemCiphertext, _⟩ rfl keypair vk w' hok
    exact hkem hsame.symm

end

/-! ## The master-key path -/

/-- A successful call sealed under this key. -/
def KeyRequest.Uses (P : Crates B) (r : KeyRequest B) (w : World P) (key : List B) : Prop :=
  ∃ a w' s, r.call P w = (.ok a, w') ∧
    (w'.history .xchacha20Poly1305).sealings = s :: (w.history .xchacha20Poly1305).sealings ∧
    s.key = key

theorem KeyRequest.Uses.derived {r : KeyRequest B} {w : World P} {key : List B}
    (h : r.Uses P w key) : ∃ ikm, key = (P.subkey ikm r.operation.info).toList ∧
      ⟨ikm, r.operation.info, 32, (P.subkey ikm r.operation.info).toList⟩ ∈
        (r.call P w).2.derived := by
  obtain ⟨a, w', s, hcall, hsealings, rfl⟩ := h
  have hstep := r.call_step w
  rw [hcall] at hstep ⊢
  cases hstep with
  | sealed _ _ ikm t behind sealings derived _ _ =>
      obtain ⟨rfl, -⟩ := List.cons.inj (hsealings.symm.trans sealings)
      have hkey := behind.key
      rw [hkey] at derived
      exact ⟨ikm, hkey, derived⟩

/-- What a prefix of the run and the next call have derived stays on record. -/
theorem keyRun_derived {tape : ℕ → Purpose → (n : ℕ) → List.Vector B n}
    {requests before after : List (KeyRequest B)} {r : KeyRequest B}
    (h : requests = before ++ r :: after) :
    (r.call P (keyRun P tape before).2).2.derived ⊆ (keyRun P tape requests).2.derived := by
  have hext : (r.call P (keyRun P tape before).2).2.Extends (keyRun P tape requests).2 := by
    rw [h]
    unfold keyRun
    rw [transcript_append]
    exact transcript_rel World.Extends.refl World.Extends.trans
      (fun i s => (i.call_step s).extends) after _
  exact hext.derived.subset

/-- Operations whose ciphers share a key are the same operation. -/
theorem KeyRequest.Uses.operation_eq {tape : ℕ → Purpose → (n : ℕ) → List.Vector B n}
    {requests before after before' after' : List (KeyRequest B)} {r r' : KeyRequest B}
    (hfree : (keyRun P tape requests).2.CollisionFree)
    (hr : requests = before ++ r :: after) (hr' : requests = before' ++ r' :: after')
    {key : List B} (huse : r.Uses P (keyRun P tape before).2 key)
    (huse' : r'.Uses P (keyRun P tape before').2 key) : r.operation = r'.operation := by
  obtain ⟨ikm, rfl, hderived⟩ := huse.derived
  obtain ⟨ikm', hkey, hderived'⟩ := huse'.derived
  obtain ⟨-, hinfo⟩ := hfree.subkey_inj (keyRun_derived hr hderived)
    (keyRun_derived hr' hderived') (toList_injective hkey)
  exact Operation.info_inj hinfo

section
variable {answered : KeyCalls B} {w w' : World P}

/-- In another slot a sealed seed opens as nothing. -/
theorem KeyInvariant.seed_not_wrapped (h : KeyInvariant answered w) (hfresh : w.Fresh)
    {keypair : UserKeypair B} {masterKey : MasterKey B} {enc : EncryptedPrivateKey B}
    (hmem : (.encryptPrivateKey keypair masterKey, .ok (.encrypted enc)) ∈ answered)
    {r : KeyRequest B} {bytes : List B} (hother : (r, .ok (.wrapped bytes)) ∈ answered) :
    bytes ≠ enc.nonce.toList ++ enc.ciphertext := by
  intro hbytes
  have htag : (KeyAnswer.wrapped bytes).nonce = (KeyAnswer.encrypted enc).nonce := by
    rw [hbytes]
    exact take_append_of_length enc.nonce.toList_length
  have hsame := h.nonces.once hfresh _ (mem_successes.mpr hother) _ (mem_successes.mpr hmem) htag
  cases hsame

end

/-- Only what the matching operation put out under the same master key opens,
no operation's cipher key is another's, and a blob in the wrong slot is refused. -/
theorem masterKey_path_integrity (hideal : (P.aead .xchacha20Poly1305).Ideal)
    (tape : ℕ → Purpose → (n : ℕ) → List.Vector B n) (requests : List (KeyRequest B)) :
    (∀ bytes masterKey vk w',
      unwrapVaultKeyWithMasterKey P bytes masterKey (keyRun P tape requests).2 = (.ok vk, w') →
      w'.CollisionFree →
      (.wrapWithMasterKey vk masterKey, .ok (.wrapped bytes)) ∈ (keyRun P tape requests).1) ∧
    (∀ enc masterKey keypair w',
      decryptPrivateKey P enc masterKey (keyRun P tape requests).2 = (.ok keypair, w') →
      w'.CollisionFree →
      ∃ sealed, (.encryptPrivateKey sealed masterKey, .ok (.encrypted enc)) ∈
          (keyRun P tape requests).1 ∧
        keypair.ed25519PrivateSeed = sealed.ed25519PrivateSeed) ∧
    ((keyRun P tape requests).2.Fresh →
      ∀ sealed masterKey enc, (.encryptPrivateKey sealed masterKey, .ok (.encrypted enc)) ∈
          (keyRun P tape requests).1 →
        ∀ mk vk w', w'.CollisionFree →
          unwrapVaultKeyWithMasterKey P (enc.nonce.toList ++ enc.ciphertext) mk
            (keyRun P tape requests).2 ≠ (.ok vk, w')) ∧
    ((keyRun P tape requests).2.Fresh →
      ∀ vaultKey masterKey (enc : EncryptedPrivateKey B),
        (.wrapWithMasterKey vaultKey masterKey,
          .ok (.wrapped (enc.nonce.toList ++ enc.ciphertext))) ∈ (keyRun P tape requests).1 →
        ∀ mk keypair w', w'.CollisionFree →
          decryptPrivateKey P enc mk (keyRun P tape requests).2 ≠ (.ok keypair, w')) ∧
    ((keyRun P tape requests).2.CollisionFree →
      ∀ before r after before' r' after' key,
        requests = before ++ r :: after → requests = before' ++ r' :: after' →
        r.Uses P (keyRun P tape before).2 key → r'.Uses P (keyRun P tape before').2 key →
        r.operation = r'.operation) := by
  have hinv := keyInvariant_run tape requests (P := P)
  refine ⟨?_, ?_, ?_, ?_, ?_⟩
  · intro bytes masterKey vk w' hok hfree
    exact hinv.unwrap_wrapped hideal hok hfree
  · intro enc masterKey keypair w' hok hfree
    exact hinv.decrypt_encrypted hideal hok hfree
  · intro hfresh sealed masterKey enc hmem mk vk w' hfree hok
    have hwrapped := hinv.unwrap_wrapped hideal hok hfree
    exact hinv.seed_not_wrapped hfresh hmem hwrapped rfl
  · intro hfresh vaultKey masterKey enc hmem mk keypair w' hfree hok
    obtain ⟨sealed, hsealed, -⟩ := hinv.decrypt_encrypted hideal hok hfree
    exact hinv.seed_not_wrapped hfresh hsealed hmem rfl
  · intro hfree before r after before' r' after' key hr hr' huse huse'
    exact huse.operation_eq hfree hr hr' huse'

section
open Symbolic

def teamMasterKey : MasterKey SByte := ⟨atoms (.draw .salt 9) MASTER_KEY_LEN⟩

/-- A seed and a vault key under one master key: two blobs of one length. -/
noncomputable def sealBoth : List (KeyRequest SByte) :=
  [.encryptPrivateKey friend teamMasterKey, .wrapWithMasterKey teamKey teamMasterKey]

theorem masterKey_path_integrity_sealBoth : ∃ bytes w',
    unwrapVaultKeyWithMasterKey idealCrates bytes teamMasterKey
      (keyRun idealCrates symbolicTape sealBoth).2 = (.ok teamKey, w') ∧
    (.wrapWithMasterKey teamKey teamMasterKey, .ok (.wrapped bytes)) ∈
      (keyRun idealCrates symbolicTape sealBoth).1 := by
  obtain ⟨hunwrap, -⟩ :=
    masterKey_path_integrity (idealCrates_ideal _) symbolicTape sealBoth
  obtain ⟨bytes, w, hwrap⟩ := idealCrates_wrapWithMasterKey teamKey teamMasterKey
    ((KeyRequest.encryptPrivateKey friend teamMasterKey).call idealCrates
      (World.init idealCrates symbolicTape)).2
  have hcall := Run.bind_of_ok (f := fun x => (pure (.wrapped x) : Prog _ (KeyAnswer SByte))) hwrap
  have hworld : (keyRun idealCrates symbolicTape sealBoth).2 = w := congrArg Prod.snd hcall
  have hopen := unwrap_of_wrapWithMasterKey idealCrates_aeadCorrect hwrap (World.Extends.refl w)
  rw [← hworld] at hopen
  exact ⟨bytes, _, hopen, hunwrap bytes _ _ _ hopen (idealCrates_collisionFree _)⟩

end
end EvnxCrypto
