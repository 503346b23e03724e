import EvnxCrypto.RoundTrip
import EvnxCrypto.Wire

/-!
# One sealed seed reconstructs the identity

A cycle seals the seed under a master key, stores it as bytes or as text, and
unseals it again; the master key may change from one cycle to the next. Only the
seed is stored, so the invariant is that the key pair in hand is the one that
descends from its seed.
-/
namespace EvnxCrypto
open Effect ByteString AuthenticatedEncryption

variable {B T : Type}

structure Cycle (B : Type) where
  masterKey : MasterKey B
  asText : Bool

/-- The sealed seed as it comes back from storage. -/
def EncryptedPrivateKey.stored (base64 : Codec (List B) T) (asText : Bool)
    (enc : EncryptedPrivateKey B) : Result (EncryptedPrivateKey B) :=
  if asText then EncryptedPrivateKey.fromBase64 base64 (enc.toBase64 base64) else .ok enc

section
variable [Byte B] (P : Crates B) (base64 : Codec (List B) T)

def Cycle.run (cycle : Cycle B) (keypair : UserKeypair B) : Prog P (UserKeypair B) := do
  let enc ← encryptPrivateKey P keypair cycle.masterKey
  let stored ← Run.lift (enc.stored base64 cycle.asText)
  decryptPrivateKey P stored cycle.masterKey

/-- The key pairs held before the first cycle and after each of them. -/
def held : List (Cycle B) → UserKeypair B → Prog P (List (UserKeypair B))
  | [], keypair => pure [keypair]
  | cycle :: cycles, keypair => do
      let next ← cycle.run P base64 keypair
      let rest ← held cycles next
      pure (keypair :: rest)

end

variable {base64 : Codec (List B) T}

theorem EncryptedPrivateKey.stored_eq (hbase : base64.Strict) (asText : Bool)
    {enc : EncryptedPrivateKey B} (hlen : POLY1305_TAG_LEN ≤ enc.ciphertext.length) :
    enc.stored base64 asText = .ok enc := by
  cases asText with
  | false => rfl
  | true => exact (EncryptedPrivateKey.fromBase64_decides hbase _).eq_ok ⟨rfl, hlen⟩

variable [Byte B] {P : Crates B}

theorem encryptPrivateKey_ciphertext_length {keypair : UserKeypair B} {masterKey : MasterKey B}
    {enc : EncryptedPrivateKey B} {w w' : World P}
    (h : encryptPrivateKey P keypair masterKey w = (.ok enc, w')) :
    POLY1305_TAG_LEN ≤ enc.ciphertext.length := by
  obtain ⟨-, henc, -⟩ := encryptPrivateKey_eq_ok.mp h
  rw [(P.aead .xchacha20Poly1305).encrypt_length henc]
  exact Nat.le_add_left _ _

/-- Sealing a seed fails on its length alone, so it does not fail. -/
theorem encryptPrivateKey_returns (hfits : (P.aead .xchacha20Poly1305).fits 32 0 = true)
    (keypair : UserKeypair B) (masterKey : MasterKey B) (w : World P) :
    ∃ enc w', encryptPrivateKey P keypair masterKey w = (.ok enc, w') := by
  have hlen : (P.aead .xchacha20Poly1305).fits keypair.ed25519PrivateSeed.toList.length
      ([] : List B).length = true := by
    rw [List.Vector.toList_length]
    exact hfits
  obtain ⟨ct, henc⟩ := Aead.exists_encrypt hlen
  exact ⟨_, _, encryptPrivateKey_of_some henc⟩

section
variable (hcorrect : P.AeadCorrect) (hfits : (P.aead .xchacha20Poly1305).fits 32 0 = true)
  (hbase : base64.Strict)
include hcorrect hfits hbase

/-- One cycle returns what descends from the seed it sealed. -/
theorem Cycle.run_apply (cycle : Cycle B) (keypair : UserKeypair B) (w : World P) :
    ∃ w', cycle.run P base64 keypair w =
      (.ok (P.keypairOf keypair.ed25519PrivateSeed), w') := by
  obtain ⟨enc, w₁, hseal⟩ := encryptPrivateKey_returns hfits keypair cycle.masterKey w
  have hstored := EncryptedPrivateKey.stored_eq hbase cycle.asText
    (encryptPrivateKey_ciphertext_length hseal)
  have hopen := decrypt_of_encryptPrivateKey hcorrect hseal (World.Extends.refl w₁)
  refine ⟨(w₁.sealSubkey cycle.masterKey).deriveIdentity keypair.ed25519PrivateSeed, ?_⟩
  rw [Cycle.run, Run.bind_of_ok hseal, hstored, Run.lift_ok_bind, hopen]

theorem held_apply (cycles : List (Cycle B)) (seed : List.Vector B 32) (w : World P) :
    ∃ w', held P base64 cycles (P.keypairOf seed) w =
      (.ok (List.replicate (cycles.length + 1) (P.keypairOf seed)), w') := by
  induction cycles generalizing w with
  | nil => exact ⟨w, rfl⟩
  | cons cycle cycles ih =>
      obtain ⟨w₁, hcycle⟩ := cycle.run_apply hcorrect hfits hbase (P.keypairOf seed) w
      obtain ⟨w₂, hrest⟩ := ih w₁
      refine ⟨w₂, ?_⟩
      rw [held, Run.bind_of_ok hcycle]
      exact Run.bind_of_ok hrest

/-- Every key pair of every sequence of cycles is the generated one, so a wrap
made for any of them opens with any other. -/
theorem held_all_generated (hdh : P.DhCommutes) (hkem : P.KemCorrect) (cycles : List (Cycle B))
    (w : World P) :
    ∃ keypair w₁, generateKeypair P w = (.ok keypair, w₁) ∧
      keypair.ed25519PrivateSeed = w.next .seed ED25519_PRIVATE_LEN ∧
      (∀ u, (UserKeypair.fromEd25519SeedForTest P keypair.ed25519PrivateSeed u).1 =
        .ok keypair) ∧
      ∃ keypairs w₂, held P base64 cycles keypair w₁ = (.ok keypairs, w₂) ∧
        keypairs.length = cycles.length + 1 ∧ (∀ k ∈ keypairs, k = keypair) ∧
        ∀ k ∈ keypairs, ∀ k' ∈ keypairs, ∀ vaultKey wrapped u u' v,
          wrapVaultKeyForUser P vaultKey k.publicKeys u = (.ok wrapped, u') → u'.Extends v →
          (unwrapVaultKey P wrapped k' v).1 = .ok vaultKey := by
  have hgenerate := generateKeypair_apply w
  obtain ⟨w₂, hheld⟩ := held_apply hcorrect hfits hbase cycles (w.next .seed ED25519_PRIVATE_LEN)
    ((w.draw .seed ED25519_PRIVATE_LEN).deriveIdentity (w.next .seed ED25519_PRIVATE_LEN))
  refine ⟨_, _, hgenerate, rfl, ?_, _, w₂, hheld, List.length_replicate, ?_, ?_⟩
  · intro u
    exact congrArg Prod.fst (fromEd25519SeedForTest_apply _ u)
  · intro k hk
    exact List.eq_of_mem_replicate hk
  · intro k hk k' hk' vaultKey wrapped u u' v hwrap hlater
    rw [List.eq_of_mem_replicate hk] at hwrap
    rw [List.eq_of_mem_replicate hk']
    obtain ⟨v', hunwrap, -⟩ := unwrap_of_wrapForUser hcorrect hdh hkem hwrap hlater
    rw [hunwrap]

end

/-! ## Two cycles over symbolic bytes -/

section
open Symbolic

/-- A password change: the second cycle is under another master key. -/
def passwordChange : List (Cycle SByte) :=
  [⟨⟨atoms (.draw .salt 1) MASTER_KEY_LEN⟩, true⟩, ⟨⟨atoms (.draw .salt 2) MASTER_KEY_LEN⟩, false⟩]

theorem held_all_generated_passwordChange :
    ∃ keypair w₁ keypairs w₂,
      generateKeypair symbolicCrates (World.init symbolicCrates symbolicTape) =
        (.ok keypair, w₁) ∧
      held symbolicCrates symbolicBase64 passwordChange keypair w₁ = (.ok keypairs, w₂) ∧
      keypairs.length = 3 ∧ ∀ k ∈ keypairs, k = keypair := by
  have hfits : (symbolicCrates.aead .xchacha20Poly1305).fits 32 0 = true := rfl
  obtain ⟨keypair, w₁, hgenerate, -, -, keypairs, w₂, hheld, hlen, hall, -⟩ :=
    held_all_generated symbolicCrates_aeadCorrect hfits symbolicBase64_strict
      symbolicCrates_dhCommutes symbolicCrates_kemCorrect passwordChange
      (World.init symbolicCrates symbolicTape)
  exact ⟨keypair, w₁, keypairs, w₂, hgenerate, hheld, hlen, hall⟩

end
end EvnxCrypto
