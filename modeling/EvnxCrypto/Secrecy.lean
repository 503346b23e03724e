import EvnxCrypto.Clients
import EvnxCrypto.Knowledge
import EvnxCrypto.RoundTrip

/-!
# What stays secret in every run of the clients

The invariant: every secret the clients hold descends from a drawn value or a
password as it should, and everything sent is known in every breach already. So
sending it reveals nothing, and a string outside the closed set of a breach is
secret whatever the clients did.
-/
namespace EvnxCrypto
open Effect ByteString AuthenticatedEncryption Symbolic

/-- Passwords nobody guesses. -/
def passwords : Set SString := {x | ∃ i n, x = (atoms (.password i) (n + 1)).toList}

/-- The states of the clients over symbolic bytes. -/
abbrev Clients.Reached (s : Clients symbolicCrates) : Prop :=
  Clients.Reachable passwords (World.init symbolicCrates symbolicTape) s

structure Clients.Guarded (s : Clients symbolicCrates) : Prop where
  tape : s.world.tape = symbolicTape
  masterKeys : ∀ masterKey ∈ s.masterKeys, masterKey.FromPassword
  keypairs : ∀ keypair ∈ s.keypairs, keypair.FromSeed
  vaultKeys : ∀ vaultKey ∈ s.vaultKeys, ∃ i, vaultKey.expose = atoms (.draw .vaultKey i) 32
  sent : ∀ (b : Breach), ∀ x ∈ s.sent, b.Knows x

variable {b : Breach}

theorem World.next_atoms {w : World symbolicCrates} (h : w.tape = symbolicTape) (p : Purpose)
    (n : ℕ) : w.next p n = atoms (.draw p w.drawn.length) n := by
  rw [World.next, h]
  rfl

theorem knows_nonce {w : World symbolicCrates} (h : w.tape = symbolicTape) (n : ℕ) :
    b.Knows (w.next .nonce n).toList := by
  rw [World.next_atoms h]
  exact KnownString.atoms n ⟨.nonce, _, by cases b <;> rfl, rfl⟩

/-- What is sealed under a secret key may be sent. -/
theorem knows_ciphertext {c : Cipher} {key nonce aad msg ct : SString} (hkey : SecretKey key)
    (henc : (symbolicCrates.aead c).encrypt key nonce aad msg = some ct) : b.Knows ct := by
  cases henc
  exact .out _ (.sealed c nonce aad msg rfl hkey) (by simp)

theorem knows_x25519Public (a : List.Vector SByte 32) :
    b.Knows (symbolicCrates.x25519PublicKey a).toList := by
  have hvalue : symbolicCrates.x25519PublicKey a = out .point [basePoint, a.toList] 32 :=
    scalarMul_base a.toList
  have hbag : (([a.toList] : List SString) : Multiset SString) =
      a.toList ::ₘ (([] : List SString) : Multiset SString) := rfl
  rw [hvalue]
  exact .out 32 (.point hbag) (List.forall_mem_singleton.mpr (KnownString.lits _))

section
variable {s : Clients symbolicCrates}

theorem Clients.Guarded.sent_append (h : s.Guarded) {xs : List SString}
    (hxs : ∀ b : Breach, ∀ x ∈ xs, b.Knows x) : ∀ b : Breach, ∀ x ∈ xs ++ s.sent, b.Knows x := by
  intro b x hx
  rcases List.mem_append.mp hx with hx | hx
  · exact hxs b x hx
  · exact h.sent b x hx

theorem knows_blob {w w' : World symbolicCrates} (htape : w.tape = symbolicTape)
    {plaintext aad : SString} {vaultKey : VaultKey SByte} {blob : EncryptedBlob SByte}
    (hkey : ∃ i, vaultKey.expose = atoms (.draw .vaultKey i) 32)
    (hseal : encryptVault symbolicCrates plaintext vaultKey aad w = (.ok blob, w')) :
    ∀ x ∈ blob.fields, b.Knows x := by
  rcases hkey with ⟨i, hkey⟩
  obtain ⟨hnonce, henc, -⟩ := encryptVault_eq_ok.mp hseal
  have hsecret : SecretKey vaultKey.expose.toList := by
    rw [hkey]
    exact .vaultKey i
  have hhead : b.Knows blob.nonce.toList := by
    rw [hnonce]
    exact knows_nonce htape _
  have hct : b.Knows blob.ciphertext := knows_ciphertext hsecret henc
  exact List.forall_mem_cons.mpr ⟨hhead, List.forall_mem_singleton.mpr hct⟩

theorem knows_encryptedPrivateKey {w w' : World symbolicCrates} (htape : w.tape = symbolicTape)
    {keypair : UserKeypair SByte} {masterKey : MasterKey SByte} {enc : EncryptedPrivateKey SByte}
    (hmaster : masterKey.FromPassword)
    (hseal : encryptPrivateKey symbolicCrates keypair masterKey w = (.ok enc, w')) :
    ∀ x ∈ enc.fields, b.Knows x := by
  obtain ⟨hnonce, henc, -⟩ := encryptPrivateKey_eq_ok.mp hseal
  have hhead : b.Knows enc.nonce.toList := by
    rw [hnonce]
    exact knows_nonce htape _
  have hct : b.Knows enc.ciphertext := knows_ciphertext (.sealSubkey hmaster) henc
  exact List.forall_mem_cons.mpr ⟨hhead, List.forall_mem_singleton.mpr hct⟩

theorem knows_masterKey_wrap {w w' : World symbolicCrates} (htape : w.tape = symbolicTape)
    {vaultKey : VaultKey SByte} {masterKey : MasterKey SByte} {wrapped : SString}
    (hmaster : masterKey.FromPassword)
    (hwrap : wrapVaultKeyWithMasterKey symbolicCrates vaultKey masterKey w = (.ok wrapped, w')) :
    b.Knows wrapped := by
  obtain ⟨ct, rfl, henc, -⟩ := wrapVaultKeyWithMasterKey_eq_ok.mp hwrap
  exact KnownString.append.mpr
    ⟨knows_nonce htape _, knows_ciphertext (.wrapSubkey hmaster) henc⟩

theorem knows_shared_wrap {w w' : World symbolicCrates} (htape : w.tape = symbolicTape)
    {vaultKey : VaultKey SByte} {recipient : UserKeypair SByte} {wrapped : WrappedVaultKey SByte}
    (hrecipient : recipient.FromSeed)
    (hwrap : wrapVaultKeyForUser symbolicCrates vaultKey recipient.publicKeys w =
      (.ok wrapped, w')) :
    ∀ x ∈ wrapped.fields, b.Knows x := by
  obtain ⟨-, ct, henc, rfl, -⟩ := wrapVaultKeyForUser_eq_ok.mp hwrap
  have heph : w.wrapCoins.ephSecret = atoms (.draw .ephemeralSecret w.drawn.length) 32 :=
    World.next_atoms htape _ _
  have hm : w.wrapCoins.m = atoms (.draw .encapsulation (w.drawn.length + 1)) 32 :=
    World.next_atoms (w := w.draw .ephemeralSecret 32) htape _ _
  have hnonce : b.Knows w.wrapCoins.nonce.toList :=
    knows_nonce (w := (w.draw .ephemeralSecret 32).draw .encapsulation 32) htape _
  have hct : b.Knows ct := knows_ciphertext (.hybridKey _ _ hrecipient heph hm) henc
  have hsealed : b.Knows (w.wrapCoins.nonce.toList ++ ct) := KnownString.append.mpr ⟨hnonce, hct⟩
  have hpublic : b.Knows (symbolicCrates.x25519PublicKey w.wrapCoins.ephSecret).toList :=
    knows_x25519Public _
  have hkem : b.Knows (symbolicCrates.encapsulateDeterministic
      recipient.publicKeys.mlkem.bytes w.wrapCoins.m).1.toList := knows_encapsulated _ _
  simp only [WrappedVaultKey.fields, Crates.wrapOf]
  exact List.forall_mem_cons.mpr
    ⟨hpublic, List.forall_mem_cons.mpr ⟨hkem, List.forall_mem_singleton.mpr hsealed⟩⟩

/-! ## The invariant -/

theorem Clients.Guarded.start :
    (Clients.start (World.init symbolicCrates symbolicTape)).Guarded where
  tape := rfl
  masterKeys := by simp [Clients.start]
  keypairs := by simp [Clients.start]
  vaultKeys := by simp [Clients.start]
  sent := by simp [Clients.start]

theorem deriveMasterKey_fromPassword {password : SString} {salt : List.Vector SByte SALT_LEN}
    {masterKey : MasterKey SByte} (hpassword : password ∈ passwords)
    (h : deriveMasterKey symbolicCrates password salt = .ok masterKey) :
    masterKey.FromPassword := by
  rcases hpassword with ⟨i, n, rfl⟩
  cases h
  exact ⟨i, n, salt.toList, rfl⟩

theorem knows_register {email : String} {password : SString} {salt : List.Vector SByte SALT_LEN}
    {verifier : SrpVerifier SByte} (hsalt : b.Knows salt.toList)
    (h : computeVerifier symbolicCrates email password salt = .ok verifier) :
    ∀ x ∈ [verifier.verifier, verifier.srpSalt.toList], b.Knows x := by
  cases h
  exact List.forall_mem_cons.mpr
    ⟨knows_published _ 256 rfl, List.forall_mem_singleton.mpr hsalt⟩

theorem knows_publicKeys (seed : List.Vector SByte 32) :
    ∀ x ∈ (symbolicCrates.keypairOf seed).ed25519Public.bytes.toList ::
      (symbolicCrates.keypairOf seed).publicKeys.fields, b.Knows x := by
  have hed25519 : b.Knows (symbolicCrates.keypairOf seed).ed25519Public.bytes.toList :=
    knows_published [seed.toList] 32 rfl
  have hmlkem : b.Knows (symbolicCrates.keypairOf seed).mlkemPublic.bytes.toList :=
    knows_published [(symbolicCrates.mlkemDecapOf seed).encoding] 1184 rfl
  exact List.forall_mem_cons.mpr ⟨hed25519,
    List.forall_mem_cons.mpr ⟨knows_x25519Public _, List.forall_mem_singleton.mpr hmlkem⟩⟩

theorem Clients.Guarded.step {s' : Clients symbolicCrates} (h : s.Guarded)
    (hstep : ClientStep passwords s s') : s'.Guarded := by
  cases hstep with
  | generateSalt hsalt =>
      cases hsalt
      have hknown (b : Breach) : b.Knows (s.world.next .salt SALT_LEN).toList := by
        rw [World.next_atoms h.tape]
        exact KnownString.atoms _ ⟨.salt, _, by cases b <;> rfl, rfl⟩
      exact { h with
        tape := h.tape
        sent := fun b => List.forall_mem_cons.mpr ⟨hknown b, h.sent b⟩ }
  | deriveMasterKey hpassword hderive =>
      have hmaster := deriveMasterKey_fromPassword hpassword hderive
      exact { h with masterKeys := List.forall_mem_cons.mpr ⟨hmaster, h.masterKeys⟩ }
  | register hpassword hsalt _ hverifier =>
      have hknown (b : Breach) := knows_register (h.sent b _ hsalt) hverifier
      exact { h with sent := h.sent_append hknown }
  | generateKeypair hgenerate =>
      rw [generateKeypair_apply] at hgenerate
      cases hgenerate
      have hseed : UserKeypair.FromSeed (symbolicCrates.keypairOf
          (s.world.next .seed ED25519_PRIVATE_LEN)) := by
        rw [World.next_atoms h.tape]
        exact ⟨_, rfl⟩
      exact { h with
        tape := h.tape
        keypairs := List.forall_mem_cons.mpr ⟨hseed, h.keypairs⟩
        sent := h.sent_append fun b => knows_publicKeys _ }
  | encryptPrivateKey hkeypair hmaster hseal =>
      have hknown (b : Breach) :=
        knows_encryptedPrivateKey (b := b) h.tape (h.masterKeys _ hmaster) hseal
      exact { h with
        tape := (encryptPrivateKey_extends hseal).tape.trans h.tape
        sent := h.sent_append hknown }
  | generateVaultKey hgenerate =>
      rw [VaultKey.generate_apply] at hgenerate
      cases hgenerate
      have hdrawn : ∃ i, s.world.next .vaultKey VAULT_KEY_LEN = atoms (.draw .vaultKey i) 32 :=
        ⟨_, World.next_atoms h.tape _ _⟩
      exact { h with
        tape := h.tape
        vaultKeys := List.forall_mem_cons.mpr ⟨hdrawn, h.vaultKeys⟩ }
  | wrapWithMasterKey hkey hmaster hwrap =>
      have hknown (b : Breach) :=
        knows_masterKey_wrap (b := b) h.tape (h.masterKeys _ hmaster) hwrap
      exact { h with
        tape := (wrapVaultKeyWithMasterKey_extends hwrap).tape.trans h.tape
        sent := fun b => List.forall_mem_cons.mpr ⟨hknown b, h.sent b⟩ }
  | wrapForUser hkey hrecipient hwrap =>
      have hknown (b : Breach) := knows_shared_wrap (b := b) h.tape (h.keypairs _ hrecipient) hwrap
      exact { h with
        tape := (wrapVaultKeyForUser_extends hwrap).tape.trans h.tape
        sent := h.sent_append hknown }
  | encryptVault hkey hseal =>
      have hknown (b : Breach) := knows_blob (b := b) h.tape (h.vaultKeys _ hkey) hseal
      exact { h with
        tape := (encryptVault_ok_extends hseal).tape.trans h.tape
        sent := h.sent_append hknown }
  | reencryptVault hold hnew hre =>
      obtain ⟨plaintext, -, hseal⟩ := reencryptVault_eq_ok.mp hre
      have hknown (b : Breach) := knows_blob (b := b) h.tape (h.vaultKeys _ hnew) hseal
      exact { h with
        tape := (encryptVault_ok_extends hseal).tape.trans h.tape
        sent := h.sent_append hknown }
  | @blobHash ciphertext hct =>
      have hknown (b : Breach) : b.Knows (blobHash symbolicCrates id ciphertext) :=
        knows_compute 32 (by simpa using h.sent b _ hct)
      exact { h with sent := fun b => List.forall_mem_cons.mpr ⟨hknown b, h.sent b⟩ }
  | failed hext => exact { h with tape := hext.tape.trans h.tape }

theorem Clients.Reached.guarded (h : s.Reached) : s.Guarded := by
  induction h with
  | refl => exact Clients.Guarded.start
  | tail _ hstep ih => exact ih.step hstep

theorem Clients.Reached.knows_of_derivable (h : s.Reached) {x : SString}
    (hx : Derivable symbolicCrates ({y | y ∈ s.sent} ∪ b.given) x) : b.Knows x := by
  apply EvnxCrypto.knows_of_derivable _ hx
  intro y hy
  rcases hy with hy | hy
  · exact h.guarded.sent b y hy
  · exact knows_given b y hy

/-! ## The hybrid wrap -/

theorem Clients.Reached.vaultKey_secret (h : s.Reached) {vaultKey : VaultKey SByte}
    (hkey : vaultKey ∈ s.vaultKeys) (b : Breach) :
    ¬ Derivable symbolicCrates ({x | x ∈ s.sent} ∪ b.given) vaultKey.expose.toList := by
  intro hderivable
  obtain ⟨i, hvalue⟩ := h.guarded.vaultKeys vaultKey hkey
  have hknown := h.knows_of_derivable hderivable
  rw [hvalue] at hknown
  exact not_knows_vaultKey i hknown

/-- A vault key stays secret as long as one half of the hybrid does. -/
theorem vaultKey_secret_in_either_half (h : s.Reached) {vaultKey : VaultKey SByte}
    (hkey : vaultKey ∈ s.vaultKeys) :
    ¬ Derivable symbolicCrates ({x | x ∈ s.sent} ∪ Breach.x25519.given)
        vaultKey.expose.toList ∧
      ¬ Derivable symbolicCrates ({x | x ∈ s.sent} ∪ Breach.mlkem.given)
        vaultKey.expose.toList :=
  ⟨h.vaultKey_secret hkey .x25519, h.vaultKey_secret hkey .mlkem⟩

/-! ## A breach of the server -/

/-- What no server may learn. A plaintext counts once it holds an unguessable byte. -/
inductive Clients.Secret (s : Clients symbolicCrates) : SString → Prop
  | password {password : SString} : password ∈ passwords → Secret s password
  | masterKey {masterKey : MasterKey SByte} : masterKey ∈ s.masterKeys →
      Secret s masterKey.expose.toList
  | seed {keypair : UserKeypair SByte} : keypair ∈ s.keypairs →
      Secret s keypair.ed25519PrivateSeed.toList
  | x25519Private {keypair : UserKeypair SByte} : keypair ∈ s.keypairs →
      Secret s keypair.x25519Private.toList
  | mlkemDecap {keypair : UserKeypair SByte} : keypair ∈ s.keypairs →
      Secret s keypair.mlkemDecap.encoding
  | vaultKey {vaultKey : VaultKey SByte} : vaultKey ∈ s.vaultKeys →
      Secret s vaultKey.expose.toList
  | plaintext {plaintext : SString} {i j : ℕ} : .atom (.plaintext i) j ∈ plaintext →
      Secret s plaintext

theorem Clients.Guarded.not_knows_secret (h : s.Guarded) (hx25519 : b ≠ .x25519)
    (hmlkem : b ≠ .mlkem) {x : SString} (hx : s.Secret x) : ¬ b.Knows x := by
  intro hknown
  cases hx with
  | password hpassword =>
      rcases hpassword with ⟨i, n, rfl⟩
      exact not_knows_password i n hknown
  | masterKey hmaster => exact not_knows_masterKey (h.masterKeys _ hmaster) hknown
  | seed hkeypair =>
      obtain ⟨i, rfl⟩ := h.keypairs _ hkeypair
      exact not_knows_seed i hknown
  | x25519Private hkeypair => exact hx25519 (knows_x25519Private (h.keypairs _ hkeypair) hknown)
  | mlkemDecap hkeypair => exact hmlkem (knows_mlkemDecap (h.keypairs _ hkeypair) hknown)
  | vaultKey hkey =>
      obtain ⟨i, hvalue⟩ := h.vaultKeys _ hkey
      rw [hvalue] at hknown
      exact not_knows_vaultKey i hknown
  | plaintext hmem =>
      obtain ⟨p, i, -, heq⟩ := known_atom.mp (hknown _ hmem)
      cases heq

/-- The server learns no secret of any user, not even with the stretched passwords
that the clients proved to it. -/
theorem secret_from_server (h : s.Reached) {x : SString} (hx : s.Secret x) :
    ¬ Derivable symbolicCrates {y | y ∈ s.sent} x ∧
      ¬ Derivable symbolicCrates ({y | y ∈ s.sent} ∪ Breach.srpInput.given) x := by
  constructor
  · intro hderivable
    have hgiven : Derivable symbolicCrates ({y | y ∈ s.sent} ∪ Breach.server.given) x := by
      rwa [Breach.given, Set.union_empty]
    exact h.guarded.not_knows_secret (by decide) (by decide) hx (h.knows_of_derivable hgiven)
  · intro hderivable
    exact h.guarded.not_knows_secret (by decide) (by decide) hx (h.knows_of_derivable hderivable)

end

/-! ## One user who shares a vault with themselves -/

section

/-- The user's vault key, drawn after the seed and the nonce it is sealed with. -/
def soleVaultKey : VaultKey SByte := ⟨atoms (.draw .vaultKey 2) VAULT_KEY_LEN⟩

def soleMasterKey : MasterKey SByte :=
  ⟨out .argon2id [KDF_DOMAIN_MASTER_KEY, (atoms (.password 0) 8).toList,
    (atoms (.draw .salt 0) SALT_LEN).toList] 32⟩

theorem soleUser : ∃ s : Clients symbolicCrates, s.Reached ∧ soleVaultKey ∈ s.vaultKeys ∧
    (∃ keypair ∈ s.keypairs, keypair.ed25519PrivateSeed = atoms (.draw .seed 0) 32) ∧
    (∃ enc : EncryptedPrivateKey SByte, ∀ x ∈ enc.fields, x ∈ s.sent) ∧
    ∃ wrapped : WrappedVaultKey SByte, ∀ x ∈ wrapped.fields, x ∈ s.sent := by
  have hpassword : (atoms (.password 0) 8).toList ∈ passwords := ⟨0, 7, rfl⟩
  have hderive : deriveMasterKey symbolicCrates (atoms (.password 0) 8).toList
      (atoms (.draw .salt 0) SALT_LEN) = .ok soleMasterKey := rfl
  have hstart : (Clients.start (World.init symbolicCrates symbolicTape)).Reached := .refl
  have hmaster := hstart.tail (.deriveMasterKey hpassword hderive)
  have hkeypair := hmaster.tail (.generateKeypair (generateKeypair_apply _))
  have henc := hkeypair.tail (.encryptPrivateKey List.mem_cons_self List.mem_cons_self
    (encryptPrivateKey_of_some rfl))
  have hkey := henc.tail (.generateVaultKey (VaultKey.generate_apply _))
  obtain ⟨wrapped, w', hwrap⟩ := symbolicCrates_wrapForUser soleVaultKey
    (atoms (.draw .seed 0) 32) _
  have hshared := hkey.tail (.wrapForUser List.mem_cons_self List.mem_cons_self hwrap)
  exact ⟨_, hshared, List.mem_cons_self, ⟨_, List.mem_cons_self, rfl⟩,
    ⟨_, fun x hx => List.mem_append_right _ (List.mem_append_left _ hx)⟩,
    wrapped, fun x hx => List.mem_append_left _ hx⟩

theorem vaultKey_secret_in_either_half_soleUser : ∃ s : Clients symbolicCrates, s.Reached ∧
    (∃ wrapped : WrappedVaultKey SByte, ∀ x ∈ wrapped.fields, x ∈ s.sent) ∧
    ¬ Derivable symbolicCrates ({x | x ∈ s.sent} ∪ Breach.x25519.given)
      soleVaultKey.expose.toList ∧
    ¬ Derivable symbolicCrates ({x | x ∈ s.sent} ∪ Breach.mlkem.given)
      soleVaultKey.expose.toList := by
  obtain ⟨s, hrun, hkey, -, -, hwrapped⟩ := soleUser
  exact ⟨s, hrun, hwrapped, vaultKey_secret_in_either_half hrun hkey⟩

theorem secret_from_server_soleUser : ∃ s : Clients symbolicCrates, s.Reached ∧
    (∃ enc : EncryptedPrivateKey SByte, ∀ x ∈ enc.fields, x ∈ s.sent) ∧
    ¬ Derivable symbolicCrates {x | x ∈ s.sent} (atoms (.draw .seed 0) 32).toList ∧
    ¬ Derivable symbolicCrates ({x | x ∈ s.sent} ∪ Breach.srpInput.given)
      (atoms (.draw .seed 0) 32).toList := by
  obtain ⟨s, hrun, -, ⟨keypair, hkeypair, hseed⟩, henc, -⟩ := soleUser
  have hsecret : s.Secret (atoms (.draw .seed 0) 32).toList := by
    rw [← hseed]
    exact .seed hkeypair
  exact ⟨s, hrun, henc, secret_from_server hrun hsecret⟩

end
end EvnxCrypto
