import EvnxCrypto.Deduction
import EvnxCrypto.KeyRuns
import EvnxCrypto.RoundTrip
import Mathlib.Logic.Relation

/-!
# A wrap says nothing about who made it

An active server sees what clients send and seals under any key it can compute.
The mixed input of a shared wrap is made of the recipient's public keys and of
coins the sender picks, so the server computes it for coins of its own, and the
recipient accepts the vault key sealed under it.
-/
namespace EvnxCrypto
open Effect ByteString AuthenticatedEncryption

variable {B : Type}

def KeyAnswer.fields : KeyAnswer B → List (List B)
  | .encrypted enc => enc.fields
  | .wrapped bytes => [bytes]
  | .shared w => w.fields

/-- A server: the strings it has seen, in the world it shares with the clients. -/
structure Server (P : Crates B) where
  seen : List (List B)
  world : World P

variable [Byte B] {P : Crates B}

def Server.Derives (s : Server P) (x : List B) : Prop := Derivable P {y | y ∈ s.seen} x

/-- What can happen around a server: clients upload what they seal, and the
server seals under what it can compute. -/
inductive ServerStep : Server P → Server P → Prop
  | keyUpload (s : Server P) (r : KeyRequest B) (a : KeyAnswer B) (w : World P) :
      r.call P s.world = (.ok a, w) → ServerStep s ⟨a.fields ++ s.seen, w⟩
  | blobUpload (s : Server P) (plaintext aad : List B) (vaultKey : VaultKey B)
      (blob : EncryptedBlob B) (w : World P) :
      encryptVault P plaintext vaultKey aad s.world = (.ok blob, w) →
      ServerStep s ⟨blob.fields ++ s.seen, w⟩
  | seal (s : Server P) (c : Cipher) {key nonce aad msg ct : List B}
      (henc : (P.aead c).encrypt key nonce aad msg = some ct) :
      s.Derives key → s.Derives nonce → s.Derives aad → s.Derives msg →
      ServerStep s ⟨s.seen, s.world.record c henc⟩

/-- Whatever happens around a server that starts from the public keys, no wrap it
can compute unwraps to a vault key it can compute. -/
def ResistsSubstitution (P : Crates B) (keypair : UserKeypair B) (w : World P) : Prop :=
  ∀ s : Server P, Relation.ReflTransGen ServerStep ⟨keypair.publicKeys.fields, w⟩ s →
    ∀ (served : WrappedVaultKey B) (vaultKey : VaultKey B) (w' : World P),
      (∀ x ∈ served.fields, s.Derives x) →
      unwrapVaultKey P served keypair s.world = (.ok vaultKey, w') →
      ¬ s.Derives vaultKey.expose.toList

/-! ## The server wraps a key of its own -/

section
variable {K : Set (List B)} {recipient : UserPublicKeys B} {coins : WrapCoins B}

/-- Coins the adversary has picked itself. -/
structure WrapCoins.Picked (P : Crates B) (K : Set (List B)) (coins : WrapCoins B) : Prop where
  ephSecret : Derivable P K coins.ephSecret.toList
  m : Derivable P K coins.m.toList
  nonce : Derivable P K coins.nonce.toList

/-- The sender's mix takes nothing but the recipient's public keys and the coins. -/
theorem derivable_senderIkm (hrecipient : ∀ x ∈ recipient.fields, Derivable P K x)
    (hcoins : coins.Picked P K) : Derivable P K (P.senderIkm recipient coins) := by
  have hx25519 := hrecipient recipient.x25519.bytes.toList List.mem_cons_self
  have hmlkem := hrecipient recipient.mlkem.bytes.toList
    (List.mem_cons_of_mem _ List.mem_cons_self)
  have hsecret := Derivable.encapsulatedSecret hmlkem hcoins.m
  have hshared := Derivable.diffieHellman hcoins.ephSecret hx25519
  have hct := Derivable.encapsulated hmlkem hcoins.m
  have heph := Derivable.x25519PublicKey hcoins.ephSecret
  exact (((hsecret.append hshared).append hct).append heph).append hx25519

theorem derivable_hybridKey (hrecipient : ∀ x ∈ recipient.fields, Derivable P K x)
    (hcoins : coins.Picked P K) :
    Derivable P K (P.hybridKey (P.senderIkm recipient coins)).toList :=
  (derivable_senderIkm hrecipient hcoins).subkey (.asBytes _)

theorem derivable_wrapOf (hrecipient : ∀ x ∈ recipient.fields, Derivable P K x)
    (hcoins : coins.Picked P K) {ct : List B} (hct : Derivable P K ct) :
    ∀ x ∈ (P.wrapOf recipient coins ct).fields, Derivable P K x := by
  have hmlkem := hrecipient recipient.mlkem.bytes.toList
    (List.mem_cons_of_mem _ List.mem_cons_self)
  have heph := Derivable.x25519PublicKey hcoins.ephSecret
  have hkem := Derivable.encapsulated hmlkem hcoins.m
  have hsealed := hcoins.nonce.append hct
  exact List.forall_mem_cons.mpr
    ⟨heph, List.forall_mem_cons.mpr ⟨hkem, List.forall_mem_singleton.mpr hsealed⟩⟩

end

section
variable (hcorrect : P.AeadCorrect) (hdh : P.DhCommutes) (hkem : P.KemCorrect)
  (hfits : (P.aead .xchacha20Poly1305).fits 32 0 = true)
  (hcontributory : ∀ a b,
    P.wasContributory (P.diffieHellman a (P.x25519PublicKey b)) = true)
  (hvalid : ∀ seed, P.mlkemKeyIsValid (P.mlkemEncapsulationKey (P.mlkemFromSeed seed)) = true)
include hcorrect hdh hkem hfits hcontributory hvalid

/-- For any vault key and coins the server has picked, the recipient accepts the
wrap the server seals. -/
theorem server_substitutes (seed : List.Vector B 32) (w : World P) (vaultKey : VaultKey B)
    (coins : WrapCoins B)
    (hcoins : coins.Picked P {x | x ∈ (P.keypairOf seed).publicKeys.fields})
    (hkey : Derivable P {x | x ∈ (P.keypairOf seed).publicKeys.fields} vaultKey.expose.toList) :
    ∃ (s : Server P) (served : WrappedVaultKey B) (w' : World P),
      Relation.ReflTransGen ServerStep ⟨(P.keypairOf seed).publicKeys.fields, w⟩ s ∧
      (∀ x ∈ served.fields, s.Derives x) ∧
      unwrapVaultKey P served (P.keypairOf seed) s.world = (.ok vaultKey, w') ∧
      s.Derives vaultKey.expose.toList := by
  have hpublic : ∀ x ∈ (P.keypairOf seed).publicKeys.fields,
      Derivable P {y | y ∈ (P.keypairOf seed).publicKeys.fields} x := fun x hx => .known hx
  have haccepts : P.Accepts (P.keypairOf seed).publicKeys coins := ⟨hcontributory _ _, hvalid _⟩
  have hlen : (P.aead .xchacha20Poly1305).fits vaultKey.expose.toList.length
      ([] : List B).length = true := by
    rw [List.Vector.toList_length]
    exact hfits
  obtain ⟨ct, henc⟩ := Aead.exists_encrypt
    (k := (P.hybridKey (P.senderIkm (P.keypairOf seed).publicKeys coins)).toList)
    (n := coins.nonce.toList) hlen
  have hwrapKey := derivable_hybridKey hpublic hcoins
  have hct := Derivable.aeadEncrypt henc hwrapKey hcoins.nonce (.lits []) hkey
  obtain ⟨w', hunwrap, -⟩ := unwrap_of_sealed hcorrect hdh hkem haccepts henc
    (World.Extends.refl (w.record .xchacha20Poly1305 henc))
  refine ⟨⟨(P.keypairOf seed).publicKeys.fields, w.record .xchacha20Poly1305 henc⟩, _, w', ?_,
    derivable_wrapOf hpublic hcoins hct, hunwrap, hkey⟩
  exact .single (.seal _ .xchacha20Poly1305 henc hwrapKey hcoins.nonce (.lits []) hkey)

/-- No key pair of the program resists, in any world. -/
theorem not_resistsSubstitution {keypair : UserKeypair B} (hissued : P.Issued keypair)
    (w : World P) : ¬ ResistsSubstitution P keypair w := by
  have hzeros (n : ℕ) : (lits (List.replicate n 0) : List B).length = n := by
    rw [lits_length, List.length_replicate]
  -- any picks will do; the server picks zeros throughout
  let coins : WrapCoins B :=
    ⟨asArray _ (hzeros 32), asArray _ (hzeros 32), asArray _ (hzeros XCHACHA_NONCE_LEN)⟩
  intro hresists
  rw [hissued.eq_keypairOf] at hresists
  obtain ⟨s, served, w', hreach, hserved, hunwrap, hkey⟩ :=
    server_substitutes hcorrect hdh hkem hfits hcontributory hvalid keypair.ed25519PrivateSeed w
      ⟨asArray _ (hzeros VAULT_KEY_LEN)⟩ coins ⟨.lits _, .lits _, .lits _⟩ (.lits _)
  exact hresists s hreach served _ w' hserved hunwrap hkey

end

/-! ## A key of zeros, over symbolic bytes -/

section
open Symbolic

/-- The first key pair the generator yields. -/
noncomputable def targetKeypair : UserKeypair SByte :=
  idealCrates.keypairOf (atoms (.draw .seed 0) 32)

theorem targetKeypair_issued : idealCrates.Issued targetKeypair :=
  .inl ⟨World.init idealCrates symbolicTape, _, generateKeypair_apply _⟩

theorem idealCrates_contributory (a b : List.Vector SByte 32) :
    idealCrates.wasContributory (idealCrates.diffieHellman a (idealCrates.x25519PublicKey b)) =
      true :=
  symbolicCratesWith_contributory _ a b

def serverCoins : WrapCoins SByte where
  ephSecret := ⟨lits (List.replicate 32 7), rfl⟩
  m := ⟨lits (List.replicate 32 8), rfl⟩
  nonce := ⟨lits (List.replicate 24 9), rfl⟩

def zeroKey : VaultKey SByte := ⟨⟨lits (List.replicate 32 0), rfl⟩⟩

/-- The server makes the holder of the first key pair accept a vault key of zeros. -/
theorem zeroKey_substituted : ¬ ∀ (keypair : UserKeypair SByte) (w : World idealCrates),
    idealCrates.Issued keypair → ResistsSubstitution idealCrates keypair w := by
  intro h
  have hresists := h targetKeypair (World.init idealCrates symbolicTape) targetKeypair_issued
  obtain ⟨s, served, w', hreach, hserved, hunwrap, hkey⟩ :=
    server_substitutes idealCrates_aeadCorrect idealCrates_dhCommutes idealCrates_kemCorrect
      (rfl : (idealCrates.aead .xchacha20Poly1305).fits 32 0 = true) idealCrates_contributory
      (fun _ => rfl) (atoms (.draw .seed 0) 32) (World.init idealCrates symbolicTape) zeroKey
      serverCoins ⟨.lits _, .lits _, .lits _⟩ (.lits _)
  exact hresists s hreach served zeroKey w' hserved hunwrap hkey

theorem not_resistsSubstitution_targetKeypair :
    ¬ ResistsSubstitution idealCrates targetKeypair (World.init idealCrates symbolicTape) :=
  not_resistsSubstitution idealCrates_aeadCorrect idealCrates_dhCommutes idealCrates_kemCorrect
    rfl idealCrates_contributory (fun _ => rfl) targetKeypair_issued _

end
end EvnxCrypto
