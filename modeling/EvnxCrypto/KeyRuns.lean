import EvnxCrypto.Sharing
import EvnxCrypto.Transcript

/-!
# Runs of the operations that seal under XChaCha20-Poly1305

Three operations seal a 32-byte value: a seed under a master key, a vault key
under a master key, and a vault key for another user. Each seals under one HKDF
subkey with a tag of its own. An invariant of every run says where each sealing
on record comes from, and under an ideal cipher that decides what can be opened.
-/
namespace EvnxCrypto
open Effect ByteString AuthenticatedEncryption

variable {B : Type}

inductive KeyRequest (B : Type) where
  | encryptPrivateKey (keypair : UserKeypair B) (masterKey : MasterKey B)
  | wrapWithMasterKey (vaultKey : VaultKey B) (masterKey : MasterKey B)
  | wrapForUser (vaultKey : VaultKey B) (recipient : UserPublicKeys B)
  deriving DecidableEq

inductive KeyAnswer (B : Type) where
  | encrypted (enc : EncryptedPrivateKey B)
  | wrapped (bytes : List B)
  | shared (wrapped : WrappedVaultKey B)
  deriving DecidableEq

inductive Operation where
  | encryptPrivateKey
  | wrapWithMasterKey
  | wrapForUser
  deriving DecidableEq, Repr

namespace KeyRequest

def operation : KeyRequest B → Operation
  | .encryptPrivateKey _ _ => .encryptPrivateKey
  | .wrapWithMasterKey _ _ => .wrapWithMasterKey
  | .wrapForUser _ _ => .wrapForUser

/-- The 32 bytes a request asks to seal. -/
def secret : KeyRequest B → List.Vector B 32
  | .encryptPrivateKey keypair _ => keypair.ed25519PrivateSeed
  | .wrapWithMasterKey vaultKey _ => vaultKey.expose
  | .wrapForUser vaultKey _ => vaultKey.expose

end KeyRequest

/-- The nonce an answer carries in the clear. -/
def KeyAnswer.nonce : KeyAnswer B → List B
  | .encrypted enc => enc.nonce.toList
  | .wrapped bytes => bytes.take XCHACHA_NONCE_LEN
  | .shared w => w.encryptedVaultKey.take XCHACHA_NONCE_LEN

variable [Byte B] {P : Crates B}

def Operation.info : Operation → List B
  | .encryptPrivateKey => HKDF_INFO_PRIVATE_KEY_ENC
  | .wrapWithMasterKey => HKDF_INFO_VAULT_KEY_WRAP_MK
  | .wrapForUser => HKDF_INFO_VAULT_KEY_WRAP

/-- Each operation has a tag of its own. -/
theorem Operation.info_inj {o o' : Operation} (h : (o.info : List B) = o'.info) : o = o' := by
  cases o <;> cases o' <;> first
    | rfl
    | (exfalso
       have htags := asBytes_injective h
       exact absurd htags (by decide))

def KeyRequest.call (P : Crates B) : KeyRequest B → Prog P (KeyAnswer B)
  | .encryptPrivateKey keypair masterKey => do
      let enc ← EvnxCrypto.encryptPrivateKey P keypair masterKey
      pure (.encrypted enc)
  | .wrapWithMasterKey vaultKey masterKey => do
      let bytes ← wrapVaultKeyWithMasterKey P vaultKey masterKey
      pure (.wrapped bytes)
  | .wrapForUser vaultKey recipient => do
      let wrapped ← wrapVaultKeyForUser P vaultKey recipient
      pure (.shared wrapped)

/-- What an answer says about the sealing behind it: the HKDF input of its key,
and where its nonce and ciphertext stand. -/
inductive Carries (P : Crates B) : KeyRequest B → KeyAnswer B → (ikm nonce ct : List B) → Prop
  | encrypted (keypair : UserKeypair B) (masterKey : MasterKey B) (enc : EncryptedPrivateKey B) :
      Carries P (.encryptPrivateKey keypair masterKey) (.encrypted enc) masterKey.expose.toList
        enc.nonce.toList enc.ciphertext
  | wrapped (vaultKey : VaultKey B) (masterKey : MasterKey B)
      (nonce : List.Vector B XCHACHA_NONCE_LEN) (ct : List B) :
      Carries P (.wrapWithMasterKey vaultKey masterKey) (.wrapped (nonce.toList ++ ct))
        masterKey.expose.toList nonce.toList ct
  | shared (vaultKey : VaultKey B) (recipient : UserPublicKeys B) (coins : WrapCoins B)
      (ct : List B) :
      Carries P (.wrapForUser vaultKey recipient) (.shared (P.wrapOf recipient coins ct))
        (P.senderIkm recipient coins) coins.nonce.toList ct

/-- A sealing that stands behind an answer, made under the subkey of `ikm`. -/
structure Behind (P : Crates B) (r : KeyRequest B) (a : KeyAnswer B) (ikm : List B)
    (s : Sealing B) : Prop where
  carries : Carries P r a ikm s.nonce s.ct
  key : s.key = (P.subkey ikm r.operation.info).toList
  aad : s.aad = []
  msg : s.msg = r.secret.toList

omit [Byte B] in
theorem Carries.nonce_eq {r : KeyRequest B} {a : KeyAnswer B} {ikm nonce ct : List B}
    (h : Carries P r a ikm nonce ct) : a.nonce = nonce := by
  cases h with
  | encrypted => rfl
  | wrapped _ _ n ct => exact take_append_of_length n.toList_length
  | shared _ _ coins ct => exact take_append_of_length coins.nonce.toList_length

/-! ## One call -/

/-- Everything one call can do. -/
inductive KeyStep (P : Crates B) (r : KeyRequest B) (w : World P) :
    Result (KeyAnswer B) → World P → Prop
  | sealed (a : KeyAnswer B) (w' : World P) (ikm : List B) (s : Sealing B)
      (behind : Behind P r a ikm s)
      (sealings : (w'.history .xchacha20Poly1305).sealings =
        s :: (w.history .xchacha20Poly1305).sealings)
      (derived : ⟨ikm, r.operation.info, 32, s.key⟩ ∈ w'.derived)
      (drawn : ∃ used, w'.drawn.map Draw.bytes = s.nonce :: used ∧
        w.drawn.map Draw.bytes <:+ used)
      (extends' : w.Extends w') :
      KeyStep P r w (.ok a) w'
  | failed (e : CryptoError) (w' : World P) (history : w'.history = w.history)
      (extends' : w.Extends w') :
      KeyStep P r w (.err e) w'

theorem KeyStep.extends {r : KeyRequest B} {w w' : World P} {x : Result (KeyAnswer B)}
    (h : KeyStep P r w x w') : w.Extends w' := by
  cases h with
  | sealed => assumption
  | failed => assumption

/-- A call that ends by putting one sealing on record. -/
theorem KeyStep.of_record {r : KeyRequest B} {a : KeyAnswer B} {ikm key nonce ct : List B}
    {w v : World P} (hext : w.Extends v) (hhist : v.history = w.history)
    (henc : (P.aead .xchacha20Poly1305).encrypt key nonce [] r.secret.toList = some ct)
    (carries : Carries P r a ikm nonce ct)
    (hkey : key = (P.subkey ikm r.operation.info).toList)
    (derived : ⟨ikm, r.operation.info, 32, key⟩ ∈ v.derived)
    (drawn : ∃ used, v.drawn.map Draw.bytes = nonce :: used ∧ w.drawn.map Draw.bytes <:+ used) :
    KeyStep P r w (.ok a) (v.record .xchacha20Poly1305 henc) := by
  refine .sealed a _ ikm ⟨key, nonce, [], r.secret.toList, ct⟩ ⟨carries, hkey, rfl, rfl⟩ ?_
    derived drawn (hext.trans (World.extends_record v henc))
  rw [World.record_history_self, History.add_sealings, hhist]

theorem encryptPrivateKey_step (keypair : UserKeypair B) (masterKey : MasterKey B)
    (w : World P) :
    KeyStep P (.encryptPrivateKey keypair masterKey) w
      ((KeyRequest.encryptPrivateKey keypair masterKey).call P w).1
      ((KeyRequest.encryptPrivateKey keypair masterKey).call P w).2 := by
  have hext := (w.extends_subkey masterKey.expose.toList HKDF_INFO_PRIVATE_KEY_ENC).trans
    (World.extends_draw _ .nonce XCHACHA_NONCE_LEN)
  rcases encryptPrivateKey_cases keypair masterKey w with ⟨ct, henc, heq⟩ | heq
  · rw [KeyRequest.call, Run.bind_of_ok heq]
    exact .of_record hext rfl henc (.encrypted _ _ _) rfl List.mem_cons_self
      ⟨_, rfl, List.suffix_refl _⟩
  · rw [KeyRequest.call, Run.bind_of_err heq]
    exact .failed _ _ rfl (hext.trans (World.extends_refuse _ _ _ _))

theorem wrapWithMasterKey_step (vaultKey : VaultKey B) (masterKey : MasterKey B)
    (w : World P) :
    KeyStep P (.wrapWithMasterKey vaultKey masterKey) w
      ((KeyRequest.wrapWithMasterKey vaultKey masterKey).call P w).1
      ((KeyRequest.wrapWithMasterKey vaultKey masterKey).call P w).2 := by
  have hext := (w.extends_subkey masterKey.expose.toList HKDF_INFO_VAULT_KEY_WRAP_MK).trans
    (World.extends_draw _ .nonce XCHACHA_NONCE_LEN)
  rcases wrapVaultKeyWithMasterKey_cases vaultKey masterKey w with ⟨ct, henc, heq⟩ | heq
  · rw [KeyRequest.call, Run.bind_of_ok heq]
    exact .of_record hext rfl henc (.wrapped _ _ _ _) rfl List.mem_cons_self
      ⟨_, rfl, List.suffix_refl _⟩
  · rw [KeyRequest.call, Run.bind_of_err heq]
    exact .failed _ _ rfl (hext.trans (World.extends_refuse _ _ _ _))

theorem wrapForUser_step (vaultKey : VaultKey B) (recipient : UserPublicKeys B)
    (w : World P) :
    KeyStep P (.wrapForUser vaultKey recipient) w
      ((KeyRequest.wrapForUser vaultKey recipient).call P w).1
      ((KeyRequest.wrapForUser vaultKey recipient).call P w).2 := by
  rcases wrapVaultKeyForUser_cases (P := P) (w := w) with ⟨ct, henc, -, heq⟩ | heq | heq
  · have hused : w.drawn.map Draw.bytes <:+
        ((w.draw .ephemeralSecret 32).draw .encapsulation 32).drawn.map Draw.bytes :=
      ((w.extends_draw _ _).trans (World.extends_draw _ _ _)).drawn.map _
    rw [KeyRequest.call, Run.bind_of_ok heq]
    exact .of_record (w.extends_wrapReady recipient) rfl henc (.shared _ _ _ _) rfl
      List.mem_cons_self ⟨_, rfl, hused⟩
  · rw [KeyRequest.call, Run.bind_of_err heq]
    exact .failed _ _ rfl ((w.extends_wrapReady recipient).trans (World.extends_refuse _ _ _ _))
  · rw [KeyRequest.call, Run.bind_of_err heq]
    exact .failed _ _ rfl (w.extends_draw _ _)

theorem KeyRequest.call_step (r : KeyRequest B) (w : World P) :
    KeyStep P r w (r.call P w).1 (r.call P w).2 := by
  cases r with
  | encryptPrivateKey keypair masterKey => exact encryptPrivateKey_step keypair masterKey w
  | wrapWithMasterKey vaultKey masterKey => exact wrapWithMasterKey_step vaultKey masterKey w
  | wrapForUser vaultKey recipient => exact wrapForUser_step vaultKey recipient w

/-! ## Whole runs -/

abbrev KeyCalls (B : Type) : Type := List (KeyRequest B × Result (KeyAnswer B))

/-- The requests one after another from the start, with their answers. -/
def keyRun (P : Crates B) (tape : ℕ → Purpose → (n : ℕ) → List.Vector B n)
    (requests : List (KeyRequest B)) : KeyCalls B × World P :=
  transcript (KeyRequest.call P) requests (World.init P tape)

/-- Every sealing on record stands behind an answer, and its key is on record
as derived. -/
structure KeyInvariant (answered : KeyCalls B) (w : World P) : Prop where
  record : ∀ s, s ∈ w.history .xchacha20Poly1305 → ∃ r a ikm, (r, .ok a) ∈ answered ∧
    Behind P r a ikm s ∧ ⟨ikm, r.operation.info, 32, s.key⟩ ∈ w.derived
  nonces : Tagged (fun x => x.2.nonce) (successes answered) (w.drawn.map Draw.bytes)

theorem KeyInvariant.init (tape : ℕ → Purpose → (n : ℕ) → List.Vector B n) :
    KeyInvariant [] (World.init P tape) :=
  ⟨by simp, Tagged.nil _ _⟩

/-- What is on record stays explained when the run goes on. -/
theorem KeyInvariant.explained {answered answered' : KeyCalls B} {w w' : World P}
    (h : KeyInvariant answered w) (hmem : answered ⊆ answered') (hext : w.Extends w')
    {s : Sealing B} (hs : s ∈ w.history .xchacha20Poly1305) :
    ∃ r a ikm, (r, .ok a) ∈ answered' ∧ Behind P r a ikm s ∧
      ⟨ikm, r.operation.info, 32, s.key⟩ ∈ w'.derived := by
  obtain ⟨r, a, ikm, hra, hbehind, hderived⟩ := h.record s hs
  exact ⟨r, a, ikm, hmem hra, hbehind, hext.derived.subset hderived⟩

theorem KeyInvariant.step {answered : KeyCalls B} {w w' : World P} {r : KeyRequest B}
    {x : Result (KeyAnswer B)} (h : KeyInvariant answered w) (hstep : KeyStep P r w x w') :
    KeyInvariant (answered ++ [(r, x)]) w' := by
  have hold : answered ⊆ answered ++ [(r, x)] := List.subset_append_left _ _
  cases hstep with
  | sealed a _ ikm s behind sealings derived drawn hext =>
      constructor
      · intro t ht
        rw [History.mem_def, sealings] at ht
        rcases List.mem_cons.mp ht with rfl | ht
        · exact ⟨r, a, ikm, by simp, behind, derived⟩
        · exact h.explained hold hext ht
      · rcases drawn with ⟨used, hused, hsuffix⟩
        rw [hused, successes_concat_ok, ← behind.carries.nonce_eq]
        exact h.nonces.concat hsuffix (r, a)
  | failed e _ history hext =>
      constructor
      · intro t ht
        rw [history] at ht
        exact h.explained hold hext ht
      · rw [successes_concat_err]
        exact h.nonces.mono (hext.drawn.map _)

theorem keyInvariant_run (tape : ℕ → Purpose → (n : ℕ) → List.Vector B n)
    (requests : List (KeyRequest B)) :
    KeyInvariant (keyRun P tape requests).1 (keyRun P tape requests).2 :=
  transcript_invariant (KeyInvariant.init tape) (fun _ _ r h => h.step (r.call_step _)) requests

/-- What opens under a subkey was sealed by an operation with the tag of that
subkey, from the same HKDF input. -/
theorem KeyInvariant.opened {answered : KeyCalls B} {w w' : World P}
    (h : KeyInvariant answered w) (hideal : (P.aead .xchacha20Poly1305).Ideal)
    (hext : w.Extends w') (hfree : w'.CollisionFree) {ikm nonce ct m : List B} {o : Operation}
    (hderived : ⟨ikm, o.info, 32, (P.subkey ikm o.info).toList⟩ ∈ w'.derived)
    (hopen : (P.aead .xchacha20Poly1305).decrypt (w.history .xchacha20Poly1305).sealings
      (P.subkey ikm o.info).toList nonce [] ct = some m) :
    ∃ r a, (r, .ok a) ∈ answered ∧ r.operation = o ∧ Carries P r a ikm nonce ct ∧
      m = r.secret.toList := by
  obtain ⟨r, a, ikm', hra, hbehind, hsealed⟩ := h.record _ ((hideal _ _ _ _ _ _).mp hopen)
  have hkey : P.subkey ikm o.info = P.subkey ikm' r.operation.info :=
    toList_injective hbehind.key
  rw [hbehind.key] at hsealed
  obtain ⟨rfl, hinfo⟩ := hfree.subkey_inj hderived (hext.derived.subset hsealed) hkey
  exact ⟨r, a, hra, (Operation.info_inj hinfo).symm, hbehind.carries, hbehind.msg⟩

end EvnxCrypto
