import EvnxCrypto.Genuine
import EvnxCrypto.Ledger
import EvnxCrypto.Secrecy
import EvnxCrypto.Substitution

/-!
# Clients of an active server

The server and the insiders that side with it serve any string they can compute:
salts, wraps, encrypted key pairs, blobs to move. Clients ask the public interface
for what they like, on what they hold and on what they are served, and take over
what they open. Two things are up to them: a vault key that a client drew is
wrapped for key pairs of their own only, and what they put under a key that
somebody planted is not secret.
-/
namespace EvnxCrypto
open Effect ByteString AuthenticatedEncryption Symbolic Classical

/-- Clients, with the vault keys they hold but none of them drew. -/
structure ServedClients extends Clients symbolicCrates where
  adopted : List (VaultKey SByte)

/-- Octets and unguessable bytes of a user's own. -/
def OwnData (x : SString) : Prop :=
  ∀ a ∈ x, (∃ c, a = .lit c) ∨ ∃ i j, a = .atom (.plaintext i) j

def VaultKey.Drawn (key : VaultKey SByte) : Prop :=
  ∃ i, key.expose = atoms (.draw .vaultKey i) VAULT_KEY_LEN

namespace ServedClients

noncomputable def start : ServedClients where
  toClients := .start (World.init symbolicCrates symbolicTape)
  adopted := []

/-- What the server and its insiders can compute by now. -/
def Computes (s : ServedClients) (x : SString) : Prop :=
  Derivable symbolicCrates {y | y ∈ s.sent} x

def Holds (s : ServedClients) (key : VaultKey SByte) : Prop :=
  key ∈ s.vaultKeys ∨ key ∈ s.adopted

/-- The calls that clients make; the others send nothing. -/
def Asks (s : ServedClients) : {β : Type} → Api SByte β → Prop
  | _, .deriveMasterKey password salt => password ∈ passwords ∧ s.Computes salt.toList
  | _, .encryptVault plaintext vaultKey aad => s.Computes aad ∧
      (vaultKey ∈ s.vaultKeys ∧ OwnData plaintext ∨ s.Holds vaultKey ∧ s.Computes plaintext)
  | _, .reencryptVault blob oldKey newKey aad => s.Computes aad ∧
      (∀ x ∈ blob.fields, s.Computes x) ∧ s.Holds oldKey ∧
      (newKey ∈ s.vaultKeys ∨ newKey ∈ s.adopted ∧ oldKey ∈ s.adopted)
  | _, .wrapVaultKeyWithMasterKey vaultKey masterKey =>
      s.Holds vaultKey ∧ masterKey ∈ s.masterKeys
  | _, .unwrapVaultKeyWithMasterKey wrapped masterKey =>
      s.Computes wrapped ∧ masterKey ∈ s.masterKeys
  | _, .encryptPrivateKey keypair masterKey =>
      keypair ∈ s.keypairs ∧ masterKey ∈ s.masterKeys
  | _, .decryptPrivateKey enc masterKey =>
      (∀ x ∈ enc.fields, s.Computes x) ∧ masterKey ∈ s.masterKeys
  | _, .wrapVaultKeyForUser vaultKey recipient =>
      (s.Holds vaultKey ∧ ∃ keypair ∈ s.keypairs, recipient = keypair.publicKeys) ∨
      (vaultKey ∈ s.adopted ∧ ∃ seed : List.Vector SByte 32, s.Computes seed.toList ∧
        recipient = (symbolicCrates.keypairOf seed).publicKeys)
  | _, .unwrapVaultKey wrapped keypair =>
      (∀ x ∈ wrapped.fields, s.Computes x) ∧ keypair ∈ s.keypairs
  | _, .computeVerifier _ srpPassword salt => s.Computes salt.toList ∧
      ∃ password ∈ passwords, deriveSrpPassword symbolicCrates password salt = .ok srpPassword
  | _, _ => True

/-! ## Steps -/

def send (s : ServedClients) (xs : List SString) : ServedClients :=
  { s with sent := xs ++ s.sent }

noncomputable def takeOver (s : ServedClients) (key : VaultKey SByte) : ServedClients :=
  if key.Drawn then { s with vaultKeys := key :: s.vaultKeys }
  else { s with adopted := key :: s.adopted }

noncomputable def next (s : ServedClients) : {β : Type} → Api SByte β → Result β → ServedClients
  | _, .generateSalt, .ok salt => s.send [salt.toList]
  | _, .deriveMasterKey _ _, .ok masterKey => { s with masterKeys := masterKey :: s.masterKeys }
  | _, .generateVaultKey, .ok vaultKey => { s with vaultKeys := vaultKey :: s.vaultKeys }
  | _, .encryptVault _ _ _, .ok blob => s.send blob.fields
  | _, .reencryptVault _ _ _ _, .ok blob => s.send blob.fields
  | _, .wrapVaultKeyWithMasterKey _ _, .ok wrapped => s.send [wrapped]
  | _, .unwrapVaultKeyWithMasterKey _ _, .ok vaultKey => s.takeOver vaultKey
  | _, .generateKeypair, .ok keypair =>
      { s with keypairs := keypair :: s.keypairs }.send
        (keypair.ed25519Public.bytes.toList :: keypair.publicKeys.fields)
  | _, .encryptPrivateKey _ _, .ok enc => s.send enc.fields
  | _, .decryptPrivateKey _ _, .ok keypair => { s with keypairs := keypair :: s.keypairs }
  | _, .wrapVaultKeyForUser _ _, .ok wrapped => s.send wrapped.fields
  | _, .unwrapVaultKey _ _, .ok vaultKey => s.takeOver vaultKey
  | _, .computeVerifier _ _ _, .ok verifier =>
      s.send [verifier.verifier, verifier.srpSalt.toList]
  | _, _, _ => s

def moveTo (s : ServedClients) (w : World symbolicCrates) : ServedClients :=
  { s with world := w }

/-- One call of one client, whether it succeeds or not. -/
inductive Step (S : SrpClient SByte) : ServedClients → ServedClients → Prop
  | ask {s : ServedClients} {β : Type} (call : Api SByte β) : s.Asks call →
      Step S s ((s.next call (Api.call symbolicCrates S β call s.world).1).moveTo
        (Api.call symbolicCrates S β call s.world).2)

def Reached (S : SrpClient SByte) (s : ServedClients) : Prop :=
  Relation.ReflTransGen (Step S) start s

end ServedClients

variable {b : Breach}

/-! ## What is sealed for insiders -/

section
variable {seed : List.Vector SByte 32} (hseed : b.Knows seed.toList)
include hseed

/-- An insider's private keys open what was wrapped for them, whoever made the coins. -/
theorem knows_insiderKey (coins : WrapCoins SByte) :
    b.Knows (symbolicCrates.hybridKey (symbolicCrates.senderIkm
      (symbolicCrates.keypairOf seed).publicKeys coins)).toList := by
  have hx25519 : b.Knows (symbolicCrates.x25519SecretOf seed).toList :=
    knows_subkey hseed (.lits _)
  have hdecap : b.Knows (symbolicCrates.mlkemDecapOf seed).encoding := by
    change b.Knows (symbolicCrates.okm seed.toList HKDF_INFO_MLKEM_DERIVE 64 (by decide)).toList
    rw [symbolicCrates_okm]
    exact knows_compute 64 (by simpa using ⟨hseed, KnownString.lits _⟩)
  have hsecret : b.Knows (symbolicCrates.encapsulateDeterministic
      (symbolicCrates.keypairOf seed).mlkemPublic.bytes coins.m).2.toList :=
    .out 32 (.decapsulated coins.m.toList rfl) (by simpa using hdecap)
  have hshared : b.Knows (symbolicCrates.diffieHellman coins.ephSecret
      (symbolicCrates.keypairOf seed).x25519Public.bytes).toList := by
    have hpoint : symbolicCrates.diffieHellman coins.ephSecret
        (symbolicCrates.keypairOf seed).x25519Public.bytes =
        scalarMul (symbolicCrates.x25519SecretOf seed).toList
          (scalarMul coins.ephSecret.toList basePoint).toList := scalarMul_comm _ _
    rw [hpoint]
    exact knows_scalarMul hx25519 (knows_x25519Public coins.ephSecret)
  apply knows_subkey _ (.lits _)
  simp only [Crates.senderIkm, hybridIkm, KnownString.append]
  exact ⟨⟨⟨⟨hsecret, hshared⟩, knows_encapsulated _ _⟩, knows_x25519Public _⟩,
    knows_x25519Public _⟩

theorem knows_insider_wrap {w w' : World symbolicCrates} (htape : w.tape = symbolicTape)
    {vaultKey : VaultKey SByte} {wrapped : WrappedVaultKey SByte}
    (hkey : b.Knows vaultKey.expose.toList)
    (hwrap : wrapVaultKeyForUser symbolicCrates vaultKey (symbolicCrates.keypairOf seed).publicKeys
      w = (.ok wrapped, w')) :
    ∀ x ∈ wrapped.fields, b.Knows x := by
  obtain ⟨-, ct, henc, rfl, -⟩ := wrapVaultKeyForUser_eq_ok.mp hwrap
  have hnonce : b.Knows w.wrapCoins.nonce.toList :=
    knows_nonce (w := (w.draw .ephemeralSecret 32).draw .encapsulation 32) htape _
  have hct : b.Knows ct := by
    cases henc
    exact knows_compute _ (by simpa using ⟨knows_insiderKey hseed _, hnonce, .nil, hkey⟩)
  have hsealed : b.Knows (w.wrapCoins.nonce.toList ++ ct) := KnownString.append.mpr ⟨hnonce, hct⟩
  simp only [WrappedVaultKey.fields, Crates.wrapOf]
  exact List.forall_mem_cons.mpr ⟨knows_x25519Public _,
    List.forall_mem_cons.mpr ⟨knows_encapsulated _ _, List.forall_mem_singleton.mpr hsealed⟩⟩

end

/-! ## What clients send is genuine -/

section
variable {w w' : World symbolicCrates} (htape : w.tape = symbolicTape)

include htape in
theorem genuine_next (p : Purpose) (n : ℕ) : Genuine (w.next p n).toList := by
  rw [World.next_atoms htape]
  exact .atoms _ n

theorem VaultKey.Drawn.genuine {key : VaultKey SByte} (h : key.Drawn) :
    Genuine key.expose.toList := by
  rcases h with ⟨i, hvalue⟩
  rw [hvalue]
  exact .atoms _ _

theorem OwnData.genuine {x : SString} (h : OwnData x) : Genuine x := by
  intro a ha
  rcases h a ha with ⟨c, rfl⟩ | ⟨i, j, rfl⟩
  · exact .lit c
  · exact .atom _ _

theorem genuine_x25519Public {a : List.Vector SByte 32} (ha : Genuine a.toList) :
    Genuine (symbolicCrates.x25519PublicKey a).toList :=
  genuine_scalarMul ha (.lits _)

theorem genuine_publicKeys {seed : List.Vector SByte 32} (hseed : Genuine seed.toList) :
    ∀ x ∈ (symbolicCrates.keypairOf seed).ed25519Public.bytes.toList ::
      (symbolicCrates.keypairOf seed).publicKeys.fields, Genuine x := by
  have hed25519 : Genuine (symbolicCrates.keypairOf seed).ed25519Public.bytes.toList :=
    genuine_out 32 (by decide) (by simpa using hseed)
  have hx25519 : Genuine (symbolicCrates.keypairOf seed).x25519Public.bytes.toList :=
    genuine_x25519Public (genuine_subkey hseed (.lits _))
  have hdecap : Genuine (symbolicCrates.mlkemDecapOf seed).encoding := by
    change Genuine (symbolicCrates.okm seed.toList HKDF_INFO_MLKEM_DERIVE 64 (by decide)).toList
    rw [symbolicCrates_okm]
    exact genuine_out 64 (by decide) (by simpa using ⟨hseed, .lits _⟩)
  have hmlkem : Genuine (symbolicCrates.keypairOf seed).mlkemPublic.bytes.toList :=
    genuine_encapsulationKey hdecap
  exact List.forall_mem_cons.mpr ⟨hed25519,
    List.forall_mem_cons.mpr ⟨hx25519, List.forall_mem_singleton.mpr hmlkem⟩⟩

include htape in
theorem genuine_blob {plaintext aad : SString} {vaultKey : VaultKey SByte}
    {blob : EncryptedBlob SByte} (hproper : Proper vaultKey.expose.toList plaintext)
    (hkey : Genuine vaultKey.expose.toList) (hplaintext : Genuine plaintext) (haad : Genuine aad)
    (hseal : encryptVault symbolicCrates plaintext vaultKey aad w = (.ok blob, w')) :
    ∀ x ∈ blob.fields, Genuine x := by
  obtain ⟨hnonce, henc, -⟩ := encryptVault_eq_ok.mp hseal
  have hhead : Genuine blob.nonce.toList := by
    rw [hnonce]
    exact genuine_next htape _ _
  have hct := genuine_sealed henc hproper hkey hhead haad hplaintext
  exact List.forall_mem_cons.mpr ⟨hhead, List.forall_mem_singleton.mpr hct⟩

include htape in
theorem genuine_encryptedPrivateKey {keypair : UserKeypair SByte} {masterKey : MasterKey SByte}
    {enc : EncryptedPrivateKey SByte} (hkeypair : keypair.FromSeed)
    (hmaster : Genuine masterKey.expose.toList)
    (hseal : encryptPrivateKey symbolicCrates keypair masterKey w = (.ok enc, w')) :
    ∀ x ∈ enc.fields, Genuine x := by
  obtain ⟨hnonce, henc, -⟩ := encryptPrivateKey_eq_ok.mp hseal
  have hhead : Genuine enc.nonce.toList := by
    rw [hnonce]
    exact genuine_next htape _ _
  obtain ⟨i, rfl⟩ := hkeypair
  have hct : Genuine enc.ciphertext := genuine_sealed henc (proper_subkey (.seed i))
    (genuine_subkey hmaster (.lits _)) hhead (.lits []) (.atoms _ _)
  exact List.forall_mem_cons.mpr ⟨hhead, List.forall_mem_singleton.mpr hct⟩

include htape in
theorem genuine_masterKey_wrap {vaultKey : VaultKey SByte} {masterKey : MasterKey SByte}
    {wrapped : SString} (hcontent : DrawnOrKnown vaultKey.expose.toList)
    (hkey : Genuine vaultKey.expose.toList) (hmaster : Genuine masterKey.expose.toList)
    (hwrap : wrapVaultKeyWithMasterKey symbolicCrates vaultKey masterKey w = (.ok wrapped, w')) :
    Genuine wrapped := by
  obtain ⟨ct, rfl, henc, -⟩ := wrapVaultKeyWithMasterKey_eq_ok.mp hwrap
  have hct := genuine_sealed henc (proper_subkey (.masterKeyWrap hcontent))
    (genuine_subkey hmaster (.lits _)) (genuine_next htape _ _) (.lits []) hkey
  exact (genuine_next htape _ _).append hct

include htape in
theorem genuine_shared_wrap {vaultKey : VaultKey SByte} {recipient : UserPublicKeys SByte}
    {wrapped : WrappedVaultKey SByte} (hcontent : DrawnOrKnown vaultKey.expose.toList)
    (hkey : Genuine vaultKey.expose.toList) (hrecipient : ∀ x ∈ recipient.fields, Genuine x)
    (hwrap : wrapVaultKeyForUser symbolicCrates vaultKey recipient w = (.ok wrapped, w')) :
    ∀ x ∈ wrapped.fields, Genuine x := by
  obtain ⟨-, ct, henc, rfl, -⟩ := wrapVaultKeyForUser_eq_ok.mp hwrap
  have hx25519 := hrecipient recipient.x25519.bytes.toList List.mem_cons_self
  have hmlkem := hrecipient recipient.mlkem.bytes.toList
    (List.mem_cons_of_mem _ List.mem_cons_self)
  have heph : Genuine w.wrapCoins.ephSecret.toList := genuine_next htape .ephemeralSecret 32
  have hm : Genuine w.wrapCoins.m.toList :=
    genuine_next (w := w.draw .ephemeralSecret 32) htape .encapsulation 32
  have hnonce : Genuine w.wrapCoins.nonce.toList :=
    genuine_next (w := (w.draw .ephemeralSecret 32).draw .encapsulation 32) htape .nonce
      XCHACHA_NONCE_LEN
  have hkem : Genuine (symbolicCrates.encapsulateDeterministic recipient.mlkem.bytes
      w.wrapCoins.m).1.toList := genuine_out 1088 (by decide) (by simpa using ⟨hmlkem, hm⟩)
  have hsecret : Genuine (symbolicCrates.encapsulateDeterministic recipient.mlkem.bytes
      w.wrapCoins.m).2.toList := genuine_out 32 (by decide) (by simpa using ⟨hmlkem, hm⟩)
  have hshared : Genuine (symbolicCrates.diffieHellman w.wrapCoins.ephSecret
      recipient.x25519.bytes).toList := genuine_scalarMul heph hx25519
  have hpublic := genuine_x25519Public heph
  have hikm : Genuine (symbolicCrates.senderIkm recipient w.wrapCoins) :=
    (((hsecret.append hshared).append hkem).append hpublic).append hx25519
  have hct := genuine_sealed henc (proper_subkey (.sharedWrap hcontent))
    (genuine_subkey hikm (.lits _)) hnonce (.lits []) hkey
  simp only [WrappedVaultKey.fields, Crates.wrapOf]
  exact List.forall_mem_cons.mpr ⟨hpublic,
    List.forall_mem_cons.mpr ⟨hkem, List.forall_mem_singleton.mpr (hnonce.append hct)⟩⟩

end

/-! ## The invariant -/

namespace ServedClients

structure Guarded (s : ServedClients) : Prop extends Clients.Guarded s.toClients where
  adopted : ∀ key ∈ s.adopted, ∀ b : Breach, b.Knows key.expose.toList
  adoptedGenuine : ∀ key ∈ s.adopted, Genuine key.expose.toList
  sentGenuine : ∀ x ∈ s.sent, Genuine x
  masterKeysGenuine : ∀ masterKey ∈ s.masterKeys, Genuine masterKey.expose.toList

namespace Guarded
variable {s : ServedClients} (h : s.Guarded)

theorem start : ServedClients.start.Guarded where
  toGuarded := Clients.Guarded.start
  adopted := by simp [ServedClients.start]
  adoptedGenuine := by simp [ServedClients.start]
  sentGenuine := by simp [ServedClients.start, Clients.start]
  masterKeysGenuine := by simp [ServedClients.start, Clients.start]

include h

theorem knows {x : SString} (hx : s.Computes x) (b : Breach) : b.Knows x :=
  knows_of_derivable (fun y hy => h.sent b y hy) hx

theorem genuine {x : SString} (hx : s.Computes x) : Genuine x :=
  genuine_of_derivable (fun y hy => h.sent .server y hy) h.sentGenuine hx

theorem holds {key : VaultKey SByte} (hkey : s.Holds key) :
    DrawnOrKnown key.expose.toList ∧ Genuine key.expose.toList := by
  rcases hkey with hkey | hkey
  · have hdrawn : key.Drawn := h.vaultKeys key hkey
    rcases hdrawn with ⟨i, hvalue⟩
    exact ⟨.inl ⟨i, congrArg List.Vector.toList hvalue⟩, VaultKey.Drawn.genuine ⟨i, hvalue⟩⟩
  · exact ⟨.inr (h.adopted key hkey), h.adoptedGenuine key hkey⟩

theorem send {xs : List SString} (hknown : ∀ b : Breach, ∀ x ∈ xs, b.Knows x)
    (hgenuine : ∀ x ∈ xs, Genuine x) : (s.send xs).Guarded :=
  { h with
    sent := h.sent_append hknown
    sentGenuine := List.forall_mem_append.mpr ⟨hgenuine, h.sentGenuine⟩ }

theorem takeOver {key : VaultKey SByte} (hcontent : DrawnOrKnown key.expose.toList)
    (hkey : Genuine key.expose.toList) : (s.takeOver key).Guarded := by
  unfold ServedClients.takeOver
  split
  · rename_i hdrawn
    exact { h with vaultKeys := List.forall_mem_cons.mpr ⟨hdrawn, h.vaultKeys⟩ }
  · rename_i hdrawn
    have hknown : ∀ b : Breach, b.Knows key.expose.toList := by
      apply hcontent.resolve_left
      intro hvalue
      rcases hvalue with ⟨i, hvalue⟩
      exact hdrawn ⟨i, List.Vector.toList_injective hvalue⟩
    exact { h with
      adopted := List.forall_mem_cons.mpr ⟨hknown, h.adopted⟩
      adoptedGenuine := List.forall_mem_cons.mpr ⟨hkey, h.adoptedGenuine⟩ }

theorem moveTo {w : World symbolicCrates} (hw : w.tape = symbolicTape) :
    (s.moveTo w).Guarded :=
  { h with tape := hw }

end Guarded

/-! ## Every call keeps it -/

section
variable {s : ServedClients} (h : s.Guarded) {w : World symbolicCrates}
include h

theorem guarded_generateSalt {salt : List.Vector SByte SALT_LEN}
    (hcall : generateSalt symbolicCrates s.world = (.ok salt, w)) :
    (s.send [salt.toList]).Guarded := by
  cases hcall
  have hvalue := World.next_atoms h.tape .salt SALT_LEN
  apply h.send
  · intro b
    rw [hvalue]
    exact List.forall_mem_singleton.mpr
      (KnownString.atoms _ ⟨.salt, _, by cases b <;> rfl, rfl⟩)
  · exact List.forall_mem_singleton.mpr (genuine_next h.tape _ _)

theorem guarded_deriveMasterKey {password : SString} {salt : List.Vector SByte SALT_LEN}
    {masterKey : MasterKey SByte} (hpassword : password ∈ passwords)
    (hsalt : s.Computes salt.toList)
    (hcall : deriveMasterKey symbolicCrates password salt = .ok masterKey) :
    Guarded { s with masterKeys := masterKey :: s.masterKeys } := by
  have hfrom := deriveMasterKey_fromPassword hpassword hcall
  have hgenuine : Genuine masterKey.expose.toList := by
    rcases hpassword with ⟨i, n, rfl⟩
    cases hcall
    exact genuine_out _ (by decide) (by simpa using ⟨.lits _, .atoms _ _, h.genuine hsalt⟩)
  exact { h with
    masterKeys := List.forall_mem_cons.mpr ⟨hfrom, h.masterKeys⟩
    masterKeysGenuine := List.forall_mem_cons.mpr ⟨hgenuine, h.masterKeysGenuine⟩ }

theorem guarded_generateVaultKey {vaultKey : VaultKey SByte}
    (hcall : VaultKey.generate symbolicCrates s.world = (.ok vaultKey, w)) :
    Guarded { s with vaultKeys := vaultKey :: s.vaultKeys } := by
  rw [VaultKey.generate_apply] at hcall
  cases hcall
  have hdrawn : ∃ i, s.world.next .vaultKey VAULT_KEY_LEN = atoms (.draw .vaultKey i) 32 :=
    ⟨_, World.next_atoms h.tape _ _⟩
  exact { h with vaultKeys := List.forall_mem_cons.mpr ⟨hdrawn, h.vaultKeys⟩ }

/-- A blob under a key that a client drew. -/
theorem guarded_drawnBlob {plaintext aad : SString} {vaultKey : VaultKey SByte}
    {blob : EncryptedBlob SByte} (hkey : vaultKey ∈ s.vaultKeys) (hplaintext : Genuine plaintext)
    (haad : Genuine aad)
    (hcall : encryptVault symbolicCrates plaintext vaultKey aad s.world = (.ok blob, w)) :
    (s.send blob.fields).Guarded := by
  have hproper : Proper vaultKey.expose.toList plaintext := by
    obtain ⟨i, hvalue⟩ := h.vaultKeys vaultKey hkey
    rw [hvalue]
    exact proper_vaultKey i plaintext
  have hgenuine := (h.holds (.inl hkey)).2
  exact h.send (fun b => knows_blob h.tape (h.vaultKeys vaultKey hkey) hcall)
    (genuine_blob h.tape hproper hgenuine hplaintext haad hcall)

/-- A blob under a key that somebody planted. -/
theorem guarded_plantedBlob {plaintext aad : SString} {vaultKey : VaultKey SByte}
    {blob : EncryptedBlob SByte} (hkey : vaultKey ∈ s.adopted)
    (hplaintext : ∀ b : Breach, b.Knows plaintext) (hgenuine : Genuine plaintext)
    (haad : s.Computes aad)
    (hcall : encryptVault symbolicCrates plaintext vaultKey aad s.world = (.ok blob, w)) :
    (s.send blob.fields).Guarded := by
  obtain ⟨hnonce, henc, -⟩ := encryptVault_eq_ok.mp hcall
  have hknown (b : Breach) : ∀ x ∈ blob.fields, b.Knows x := by
    have hhead : b.Knows blob.nonce.toList := by
      rw [hnonce]
      exact knows_nonce h.tape _
    have hct : b.Knows blob.ciphertext := by
      generalize blob.ciphertext = ct at henc
      cases henc
      exact knows_compute _
        (by simpa using ⟨h.adopted _ hkey b, hhead, h.knows haad b, hplaintext b⟩)
    exact List.forall_mem_cons.mpr ⟨hhead, List.forall_mem_singleton.mpr hct⟩
  exact h.send hknown (genuine_blob h.tape (proper_known (h.adopted _ hkey .server))
    (h.adoptedGenuine _ hkey) hgenuine (h.genuine haad) hcall)

theorem guarded_reencryptVault {blob fresh : EncryptedBlob SByte} {oldKey newKey : VaultKey SByte}
    {aad : SString} (haad : s.Computes aad) (hblob : ∀ x ∈ blob.fields, s.Computes x)
    (hnew : newKey ∈ s.vaultKeys ∨ newKey ∈ s.adopted ∧ oldKey ∈ s.adopted)
    (hcall : reencryptVault symbolicCrates blob oldKey newKey aad s.world = (.ok fresh, w)) :
    (s.send fresh.fields).Guarded := by
  obtain ⟨plaintext, hopen, hseal⟩ := reencryptVault_eq_ok.mp hcall
  have hct : s.Computes blob.ciphertext :=
    hblob _ (List.mem_cons_of_mem _ List.mem_cons_self)
  have hgenuine : Genuine plaintext := (genuine_opened hopen (h.genuine hct)).1
  rcases hnew with hnew | ⟨hnew, hold⟩
  · exact guarded_drawnBlob h hnew hgenuine (h.genuine haad) hseal
  · -- under a planted key the server reads the version already
    have hplaintext (b : Breach) : b.Knows plaintext := by
      have hknown := h.knows hct b
      have henc := symbolicAead_decrypt_eq_some.mp hopen
      generalize blob.ciphertext = ct at hknown henc
      cases henc
      rcases knows_sealed (c := .aes256Gcm) (Nat.succ_pos _) hknown with hmsg | hsecret
      · exact hmsg
      · exact absurd (h.adopted _ hold b) (not_knows_secretKey hsecret)
    exact guarded_plantedBlob h hnew hplaintext hgenuine haad hseal

theorem guarded_wrapWithMasterKey {vaultKey : VaultKey SByte} {masterKey : MasterKey SByte}
    {wrapped : SString} (hkey : s.Holds vaultKey) (hmaster : masterKey ∈ s.masterKeys)
    (hcall : wrapVaultKeyWithMasterKey symbolicCrates vaultKey masterKey s.world =
      (.ok wrapped, w)) : (s.send [wrapped]).Guarded := by
  have hfrom := h.masterKeys masterKey hmaster
  have hgenuine := genuine_masterKey_wrap h.tape (h.holds hkey).1 (h.holds hkey).2
    (h.masterKeysGenuine masterKey hmaster) hcall
  exact h.send (fun b => List.forall_mem_singleton.mpr (knows_masterKey_wrap h.tape hfrom hcall))
    (List.forall_mem_singleton.mpr hgenuine)

theorem guarded_unwrapWithMasterKey {wrapped : SString} {masterKey : MasterKey SByte}
    {vaultKey : VaultKey SByte} (hwrapped : s.Computes wrapped)
    (hcall : unwrapVaultKeyWithMasterKey symbolicCrates wrapped masterKey s.world =
      (.ok vaultKey, w)) : (s.takeOver vaultKey).Guarded := by
  obtain ⟨-, -, hopen⟩ := unwrapVaultKeyWithMasterKey_eq_ok.mp hcall
  have hct : s.Computes (wrapped.drop XCHACHA_NONCE_LEN) := .drop _ hwrapped
  exact h.takeOver (drawnOrKnown_of_opened (.inl rfl) hopen (h.knows hct) (h.genuine hct))
    (genuine_opened hopen (h.genuine hct)).1

theorem guarded_generateKeypair {keypair : UserKeypair SByte}
    (hcall : generateKeypair symbolicCrates s.world = (.ok keypair, w)) :
    (ServedClients.send { s with keypairs := keypair :: s.keypairs }
      (keypair.ed25519Public.bytes.toList :: keypair.publicKeys.fields)).Guarded := by
  rw [generateKeypair_apply] at hcall
  cases hcall
  have hseed : UserKeypair.FromSeed (symbolicCrates.keypairOf
      (s.world.next .seed ED25519_PRIVATE_LEN)) := by
    rw [World.next_atoms h.tape]
    exact ⟨_, rfl⟩
  have hkeypairs : Guarded { s with
      keypairs := symbolicCrates.keypairOf (s.world.next .seed ED25519_PRIVATE_LEN) ::
        s.keypairs } :=
    { h with keypairs := List.forall_mem_cons.mpr ⟨hseed, h.keypairs⟩ }
  exact hkeypairs.send (fun b => knows_publicKeys _) (genuine_publicKeys (genuine_next h.tape _ _))

theorem guarded_encryptPrivateKey {keypair : UserKeypair SByte} {masterKey : MasterKey SByte}
    {enc : EncryptedPrivateKey SByte} (hkeypair : keypair ∈ s.keypairs)
    (hmaster : masterKey ∈ s.masterKeys)
    (hcall : encryptPrivateKey symbolicCrates keypair masterKey s.world = (.ok enc, w)) :
    (s.send enc.fields).Guarded := by
  have hfrom := h.masterKeys masterKey hmaster
  exact h.send (fun b => knows_encryptedPrivateKey h.tape hfrom hcall)
    (genuine_encryptedPrivateKey h.tape (h.keypairs keypair hkeypair)
      (h.masterKeysGenuine masterKey hmaster) hcall)

/-- Nobody can plant a key pair: under a client's own subkey there are only seeds that
clients drew. -/
theorem fromSeed_of_decrypted {enc : EncryptedPrivateKey SByte} {masterKey : MasterKey SByte}
    {keypair : UserKeypair SByte} (henc : ∀ x ∈ enc.fields, s.Computes x)
    (hmaster : masterKey ∈ s.masterKeys)
    (hcall : decryptPrivateKey symbolicCrates enc masterKey s.world = (.ok keypair, w)) :
    keypair.FromSeed := by
  obtain ⟨hkeypair, -, hopen⟩ := decryptPrivateKey_eq_ok.mp hcall
  have hct : s.Computes enc.ciphertext :=
    henc _ (List.mem_cons_of_mem _ List.mem_cons_self)
  have hproper := (genuine_opened hopen (h.genuine hct)).2
  obtain ⟨i, hseed⟩ :=
    (hproper (.sealSubkey (h.masterKeys masterKey hmaster)) _ _ rfl).sealed rfl
  rw [hkeypair, List.Vector.toList_injective hseed]
  exact ⟨i, rfl⟩

theorem guarded_wrapForUser {vaultKey : VaultKey SByte} {recipient : UserPublicKeys SByte}
    {wrapped : WrappedVaultKey SByte}
    (hask : s.Asks (.wrapVaultKeyForUser vaultKey recipient))
    (hcall : wrapVaultKeyForUser symbolicCrates vaultKey recipient s.world = (.ok wrapped, w)) :
    (s.send wrapped.fields).Guarded := by
  rcases hask with ⟨hkey, keypair, hkeypair, rfl⟩ | ⟨hkey, seed, hseed, rfl⟩
  · have hfrom := h.keypairs keypair hkeypair
    have hpublic : ∀ x ∈ keypair.publicKeys.fields, Genuine x := by
      rcases hfrom with ⟨i, rfl⟩
      exact fun x hx => genuine_publicKeys (.atoms _ _) x (List.mem_cons_of_mem _ hx)
    exact h.send (fun b => knows_shared_wrap h.tape hfrom hcall)
      (genuine_shared_wrap h.tape (h.holds hkey).1 (h.holds hkey).2 hpublic hcall)
  · have hpublic : ∀ x ∈ (symbolicCrates.keypairOf seed).publicKeys.fields, Genuine x :=
      fun x hx => genuine_publicKeys (h.genuine hseed) x (List.mem_cons_of_mem _ hx)
    exact h.send
      (fun b => knows_insider_wrap (h.knows hseed b) h.tape (h.adopted vaultKey hkey b) hcall)
      (genuine_shared_wrap h.tape (h.holds (.inr hkey)).1 (h.holds (.inr hkey)).2 hpublic hcall)

theorem guarded_unwrapVaultKey {wrapped : WrappedVaultKey SByte} {keypair : UserKeypair SByte}
    {vaultKey : VaultKey SByte} (hwrapped : ∀ x ∈ wrapped.fields, s.Computes x)
    (hcall : unwrapVaultKey symbolicCrates wrapped keypair s.world = (.ok vaultKey, w)) :
    (s.takeOver vaultKey).Guarded := by
  obtain ⟨-, ss, -, -, -, hopen⟩ := unwrapVaultKey_eq_ok.mp hcall
  have hsealed : s.Computes wrapped.encryptedVaultKey :=
    hwrapped _ (by simp [WrappedVaultKey.fields])
  have hct : s.Computes (wrapped.encryptedVaultKey.drop XCHACHA_NONCE_LEN) := .drop _ hsealed
  exact h.takeOver (drawnOrKnown_of_opened (.inr rfl) hopen (h.knows hct) (h.genuine hct))
    (genuine_opened hopen (h.genuine hct)).1

theorem guarded_computeVerifier {email : String} {srpPassword : SString}
    {salt : List.Vector SByte SALT_LEN} {verifier : SrpVerifier SByte}
    (hask : s.Asks (.computeVerifier email srpPassword salt))
    (hcall : computeVerifier symbolicCrates email srpPassword salt = .ok verifier) :
    (s.send [verifier.verifier, verifier.srpSalt.toList]).Guarded := by
  obtain ⟨hsalt, password, hpassword, hderive⟩ := hask
  have hgenuine : Genuine srpPassword := by
    rcases hpassword with ⟨i, n, rfl⟩
    cases hderive
    exact genuine_out _ (by decide) (by simpa using ⟨.lits _, .atoms _ _, h.genuine hsalt⟩)
  apply h.send (fun b => knows_register (h.knows hsalt b) hcall)
  cases hcall
  exact List.forall_mem_cons.mpr
    ⟨genuine_out 256 (by decide) (by simpa using ⟨.lits _, hgenuine, h.genuine hsalt⟩),
      List.forall_mem_singleton.mpr (h.genuine hsalt)⟩

theorem Guarded.next {β : Type} {S : SrpClient SByte} (call : Api SByte β) {x : Result β}
    (hask : s.Asks call) (hcall : Api.call symbolicCrates S β call s.world = (x, w)) :
    (s.next call x).Guarded := by
  cases x with
  | ok a =>
      cases call with
      | generateSalt => exact guarded_generateSalt h hcall
      | deriveMasterKey password salt =>
          exact guarded_deriveMasterKey h hask.1 hask.2 (congrArg Prod.fst hcall)
      | generateVaultKey => exact guarded_generateVaultKey h hcall
      | encryptVault plaintext vaultKey aad =>
          rcases hask with ⟨haad, ⟨hkey, hown⟩ | ⟨hkey | hkey, hplaintext⟩⟩
          · exact guarded_drawnBlob h hkey hown.genuine (h.genuine haad) hcall
          · exact guarded_drawnBlob h hkey (h.genuine hplaintext) (h.genuine haad) hcall
          · exact guarded_plantedBlob h hkey (h.knows hplaintext) (h.genuine hplaintext) haad hcall
      | reencryptVault blob oldKey newKey aad =>
          exact guarded_reencryptVault h hask.1 hask.2.1 hask.2.2.2 hcall
      | wrapVaultKeyWithMasterKey vaultKey masterKey =>
          exact guarded_wrapWithMasterKey h hask.1 hask.2 hcall
      | unwrapVaultKeyWithMasterKey wrapped masterKey =>
          exact guarded_unwrapWithMasterKey h hask.1 hcall
      | generateKeypair => exact guarded_generateKeypair h hcall
      | encryptPrivateKey keypair masterKey =>
          exact guarded_encryptPrivateKey h hask.1 hask.2 hcall
      | decryptPrivateKey enc masterKey =>
          have hseed := fromSeed_of_decrypted h hask.1 hask.2 hcall
          exact { h with keypairs := List.forall_mem_cons.mpr ⟨hseed, h.keypairs⟩ }
      | wrapVaultKeyForUser vaultKey recipient => exact guarded_wrapForUser h hask hcall
      | unwrapVaultKey wrapped keypair => exact guarded_unwrapVaultKey h hask.1 hcall
      | computeVerifier email srpPassword salt =>
          exact guarded_computeVerifier h hask (congrArg Prod.fst hcall)
      | deriveSrpPassword | decryptVault | mlkemEncapsulate | mlkemDecapsulate
        | generateClientEphemeral | computeClientProof | verifyServerProof => exact h
  | err e => cases call <;> exact h
  | panic => cases call <;> exact h

end

theorem Guarded.step {S : SrpClient SByte} {s s' : ServedClients} (h : s.Guarded)
    (hstep : Step S s s') : s'.Guarded := by
  cases hstep with
  | ask call hask =>
      have htape := (Api.call_extends (S := S) call s.world).tape.trans h.tape
      exact (h.next call hask rfl).moveTo htape

theorem Reached.guarded {S : SrpClient SByte} {s : ServedClients} (h : s.Reached S) :
    s.Guarded := by
  induction h with
  | refl => exact Guarded.start
  | tail _ hstep ih => exact ih.step hstep

theorem Guarded.knows_of_derivable {s : ServedClients} (h : s.Guarded) {x : SString}
    (hx : Derivable symbolicCrates ({y | y ∈ s.sent} ∪ b.given) x) : b.Knows x := by
  apply EvnxCrypto.knows_of_derivable _ hx
  intro y hy
  rcases hy with hy | hy
  · exact h.sent b y hy
  · exact knows_given b y hy

/-- Under the invariant no vault key that was drawn can be computed. -/
theorem Guarded.vaultKey_secret {s : ServedClients} (h : s.Guarded) {key : VaultKey SByte}
    (hkey : key ∈ s.vaultKeys) (b : Breach) :
    ¬ Derivable symbolicCrates ({y | y ∈ s.sent} ∪ b.given) key.expose.toList := by
  intro hderivable
  obtain ⟨i, hvalue⟩ := h.vaultKeys key hkey
  have hknown := h.knows_of_derivable hderivable
  rw [hvalue] at hknown
  exact not_knows_vaultKey i hknown

theorem Guarded.not_derivable {s : ServedClients} (h : s.Guarded) {x : SString}
    (hx : s.Secret x) :
    ¬ Derivable symbolicCrates ({y | y ∈ s.sent} ∪ Breach.srpInput.given) x := by
  intro hderivable
  exact h.not_knows_secret (by decide) (by decide) hx (h.knows_of_derivable hderivable)

end ServedClients

theorem ServedClients.Reached.ask {S : SrpClient SByte} {s : ServedClients} (h : s.Reached S)
    {β : Type} (call : Api SByte β) {a : β} {w : World symbolicCrates} (hask : s.Asks call)
    (hcall : Api.call symbolicCrates S β call s.world = (.ok a, w)) :
    ((s.next call (.ok a)).moveTo w).Reached S := by
  have hstep := Step.ask (S := S) call hask
  rw [hcall] at hstep
  exact h.tail hstep

section
variable {K : Set SString} {seed : List.Vector SByte 32}

end

end EvnxCrypto
