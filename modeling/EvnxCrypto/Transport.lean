import EvnxCrypto.RoundTrip
import EvnxCrypto.Wire

/-!
# Carrying a vault key along a chain of wraps

Each hop wraps the key, under a master key or for a user, and unwraps it again,
with text in between where a server stores it as text. The invariant of the
chain is that every hop hands on the key it received.
-/
namespace EvnxCrypto
open Effect ByteString AuthenticatedEncryption

variable {B T : Type}

/-- A key pair together with the fact that the program returned it. -/
structure IssuedKeypair [Byte B] (P : Crates B) where
  keypair : UserKeypair B
  issued : P.Issued keypair

inductive Hop [Byte B] (P : Crates B) where
  | master (masterKey : MasterKey B)
  | user (recipient : IssuedKeypair P) (keysAsText wrapAsText : Bool)

/-- The public keys as the sender gets them. -/
def UserKeypair.published (base64 : Codec (List B) T) (asText : Bool) (keypair : UserKeypair B) :
    Result (UserPublicKeys B) :=
  if asText then
    UserPublicKeys.fromBase64 base64 (keypair.x25519PublicBase64 base64)
      (keypair.mlkemPublicBase64 base64)
  else .ok keypair.publicKeys

/-- The wrap as the recipient gets it. -/
def WrappedVaultKey.delivered (base64 : Codec (List B) T) (asText : Bool)
    (wrapped : WrappedVaultKey B) : Result (WrappedVaultKey B) :=
  if asText then
    WrappedVaultKey.fromBase64 base64 (wrapped.encryptedVaultKeyBase64 base64)
      (wrapped.ephPubKeyBase64 base64) (wrapped.mlkemCiphertextBase64 base64)
  else .ok wrapped

section
variable [Byte B] {P : Crates B} (base64 : Codec (List B) T)

def Hop.carry : Hop P → VaultKey B → Prog P (VaultKey B)
  | .master masterKey, vaultKey => do
      let wrapped ← wrapVaultKeyWithMasterKey P vaultKey masterKey
      unwrapVaultKeyWithMasterKey P wrapped masterKey
  | .user recipient keysAsText wrapAsText, vaultKey => do
      let publicKeys ← Run.lift (recipient.keypair.published base64 keysAsText)
      let wrapped ← wrapVaultKeyForUser P vaultKey publicKeys
      let received ← Run.lift (wrapped.delivered base64 wrapAsText)
      unwrapVaultKey P received recipient.keypair

def carry : List (Hop P) → VaultKey B → Prog P (VaultKey B)
  | [], vaultKey => pure vaultKey
  | hop :: hops, vaultKey => do
      let received ← hop.carry base64 vaultKey
      carry hops received

/-- The wrap of this hop returns. -/
def Hop.WrapReturns : Hop P → VaultKey B → World P → Prop
  | .master masterKey, vaultKey, w =>
      ∃ wrapped w', wrapVaultKeyWithMasterKey P vaultKey masterKey w = (.ok wrapped, w')
  | .user recipient _ _, vaultKey, w =>
      ∃ wrapped w', wrapVaultKeyForUser P vaultKey recipient.keypair.publicKeys w =
        (.ok wrapped, w')

/-- Every wrap along the chain returns; nothing is said about the unwraps. -/
def WrapsReturn : List (Hop P) → VaultKey B → World P → Prop
  | [], _, _ => True
  | hop :: hops, vaultKey, w =>
      hop.WrapReturns vaultKey w ∧ ∀ received w',
        hop.carry base64 vaultKey w = (.ok received, w') → WrapsReturn hops received w'

end

variable {base64 : Codec (List B) T}

theorem UserKeypair.published_eq (hbase : base64.Strict) (asText : Bool)
    (keypair : UserKeypair B) : keypair.published base64 asText = .ok keypair.publicKeys := by
  cases asText with
  | false => rfl
  | true => exact (UserPublicKeys.fromBase64_decides hbase _ _).eq_ok ⟨rfl, rfl⟩

theorem WrappedVaultKey.delivered_eq (hbase : base64.Strict) (asText : Bool)
    {wrapped : WrappedVaultKey B}
    (hlen : wrapped.mlkemCiphertext.length = MLKEM768_CIPHERTEXT_LEN) :
    wrapped.delivered base64 asText = .ok wrapped := by
  cases asText with
  | false => rfl
  | true => exact (WrappedVaultKey.fromBase64_decides hbase _ _ _).eq_ok ⟨rfl, rfl, rfl, hlen⟩

variable [Byte B] {P : Crates B}

theorem wrapVaultKeyForUser_mlkem_length {vaultKey : VaultKey B} {recipient : UserPublicKeys B}
    {wrapped : WrappedVaultKey B} {w w' : World P}
    (h : wrapVaultKeyForUser P vaultKey recipient w = (.ok wrapped, w')) :
    wrapped.mlkemCiphertext.length = MLKEM768_CIPHERTEXT_LEN := by
  obtain ⟨-, ct, -, rfl, -⟩ := wrapVaultKeyForUser_eq_ok.mp h
  exact List.Vector.toList_length _

section
variable (hcorrect : P.AeadCorrect) (hdh : P.DhCommutes) (hkem : P.KemCorrect)
  (hbase : base64.Strict)
include hcorrect hdh hkem hbase

/-- One hop hands on the key it received. -/
theorem Hop.carry_of_wrapReturns (hop : Hop P) {vaultKey : VaultKey B} {w : World P}
    (h : hop.WrapReturns vaultKey w) :
    ∃ w', hop.carry base64 vaultKey w = (.ok vaultKey, w') ∧ w.Extends w' := by
  cases hop with
  | master masterKey =>
      rcases h with ⟨wrapped, w₁, hwrap⟩
      have hunwrap := unwrap_of_wrapWithMasterKey hcorrect hwrap (World.Extends.refl w₁)
      have hext := (wrapVaultKeyWithMasterKey_extends hwrap).trans (w₁.extends_subkey
        masterKey.expose.toList HKDF_INFO_VAULT_KEY_WRAP_MK)
      refine ⟨w₁.wrapSubkey masterKey, ?_, hext⟩
      rw [Hop.carry, Run.bind_of_ok hwrap, hunwrap]
  | user recipient keysAsText wrapAsText =>
      rcases h with ⟨wrapped, w₁, hwrap⟩
      have hkeypair := recipient.issued.eq_keypairOf
      have hpublic := UserKeypair.published_eq hbase keysAsText recipient.keypair
      have hdelivered := WrappedVaultKey.delivered_eq hbase wrapAsText
        (wrapVaultKeyForUser_mlkem_length hwrap)
      have hwrap' := hwrap
      rw [hkeypair] at hwrap'
      obtain ⟨w₂, hunwrap, hext⟩ :=
        unwrap_of_wrapForUser hcorrect hdh hkem hwrap' (World.Extends.refl w₁)
      rw [← hkeypair] at hunwrap
      refine ⟨w₂, ?_, (wrapVaultKeyForUser_extends hwrap).trans hext⟩
      rw [Hop.carry, hpublic, Run.lift_ok_bind, Run.bind_of_ok hwrap, hdelivered,
        Run.lift_ok_bind, hunwrap]

theorem carry_of_wrapsReturn (hops : List (Hop P)) {vaultKey : VaultKey B} {w : World P}
    (h : WrapsReturn base64 hops vaultKey w) :
    ∃ w', carry base64 hops vaultKey w = (.ok vaultKey, w') ∧ w.Extends w' := by
  induction hops generalizing w with
  | nil => exact ⟨w, rfl, World.Extends.refl w⟩
  | cons hop hops ih =>
      rcases h with ⟨hwrap, hrest⟩
      obtain ⟨w₁, hhop, hext₁⟩ := hop.carry_of_wrapReturns hcorrect hdh hkem hbase hwrap
      obtain ⟨w₂, hcarry, hext₂⟩ := ih (hrest vaultKey w₁ hhop)
      refine ⟨w₂, ?_, hext₁.trans hext₂⟩
      rw [carry, Run.bind_of_ok hhop, hcarry]

/-- A chain whose wraps all return delivers the key, and what was sealed under
the key opens with what was delivered. -/
theorem carry_lossless (hops : List (Hop P)) (vaultKey : VaultKey B) (w : World P)
    (h : WrapsReturn base64 hops vaultKey w) :
    ∃ delivered w', carry base64 hops vaultKey w = (.ok delivered, w') ∧ w.Extends w' ∧
      delivered = vaultKey ∧
      ∀ plaintext aad blob u u' v,
        encryptVault P plaintext vaultKey aad u = (.ok blob, u') → u'.Extends v →
        decryptVault P blob delivered aad v = (.ok plaintext, v) := by
  obtain ⟨w', hcarry, hext⟩ := carry_of_wrapsReturn hcorrect hdh hkem hbase hops h
  refine ⟨vaultKey, w', hcarry, hext, rfl, ?_⟩
  intro plaintext aad blob u u' v hseal hlater
  exact decryptVault_of_encryptVault hcorrect hseal hlater

end

/-! ## A chain over symbolic bytes -/

section
open Symbolic

/-- The key pair generated from the first draw. -/
noncomputable def firstKeypair : IssuedKeypair symbolicCrates where
  keypair := symbolicCrates.keypairOf (symbolicTape 0 .seed ED25519_PRIVATE_LEN)
  issued := .inl ⟨World.init symbolicCrates symbolicTape, _, generateKeypair_apply _⟩

theorem symbolic_wrapReturns (hop : Hop symbolicCrates) (vaultKey : VaultKey SByte)
    (w : World symbolicCrates) : hop.WrapReturns vaultKey w := by
  have htotal : ∀ c k n a m, ∃ ct, (symbolicAead (cipherFn c)).encrypt k n a m = some ct :=
    fun _ _ _ _ _ => ⟨_, rfl⟩
  cases hop with
  | master masterKey => exact symbolicCratesWith_wrapWithMasterKey htotal vaultKey masterKey w
  | user recipient keysAsText wrapAsText =>
      rw [Hop.WrapReturns, recipient.issued.eq_keypairOf]
      exact symbolicCratesWith_wrapForUser htotal vaultKey _ w

theorem symbolic_wrapsReturn (hops : List (Hop symbolicCrates)) (vaultKey : VaultKey SByte)
    (w : World symbolicCrates) : WrapsReturn symbolicBase64 hops vaultKey w := by
  induction hops generalizing vaultKey w with
  | nil => trivial
  | cons hop hops ih => exact ⟨symbolic_wrapReturns hop vaultKey w, fun _ _ _ => ih _ _⟩

/-- To a user as text, then under a master key. -/
noncomputable def twoHops : List (Hop symbolicCrates) :=
  [.user firstKeypair true true, .master ⟨atoms (.draw .salt 1) MASTER_KEY_LEN⟩]

theorem carry_lossless_twoHops :
    ∃ delivered w', carry symbolicBase64 twoHops ⟨atoms (.draw .vaultKey 2) VAULT_KEY_LEN⟩
      (World.init symbolicCrates symbolicTape) = (.ok delivered, w') ∧
      delivered = ⟨atoms (.draw .vaultKey 2) VAULT_KEY_LEN⟩ := by
  obtain ⟨delivered, w', hcarry, -, heq, -⟩ := carry_lossless symbolicCrates_aeadCorrect
    symbolicCrates_dhCommutes symbolicCrates_kemCorrect symbolicBase64_strict
    twoHops ⟨atoms (.draw .vaultKey 2) VAULT_KEY_LEN⟩ (World.init symbolicCrates symbolicTape)
    (symbolic_wrapsReturn _ _ _)
  exact ⟨delivered, w', hcarry, heq⟩

end
end EvnxCrypto
