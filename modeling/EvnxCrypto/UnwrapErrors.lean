import EvnxCrypto.SymbolicCrates
import EvnxCrypto.Vault

/-!
# How unwrapping under the master key reports a bad blob

The documentation sorts the failures: a blob too short to be well-formed is bad
input, any other blob that does not authenticate has the wrong key or was
modified. A well-formed blob holds a nonce, a key and a tag. The length check
counts the nonce and the key only, so a blob that lacks up to a whole tag gets
as far as the cipher and is then reported as a wrong key.
-/
namespace EvnxCrypto
open Effect ByteString AuthenticatedEncryption

variable {B : Type} [Byte B] {P : Crates B}

/-- What the tail of a blob opens to under the subkey of a master key, with the
head as nonce. -/
def Crates.openedUnder (P : Crates B) (wrapped : List B) (masterKey : MasterKey B)
    (w : World P) : Option (List B) :=
  (P.aead .xchacha20Poly1305).decrypt (w.history .xchacha20Poly1305).sealings
    (P.wrapSubkey masterKey).toList (wrapped.take XCHACHA_NONCE_LEN) []
    (wrapped.drop XCHACHA_NONCE_LEN)

/-- The bytes of a well-formed blob. -/
abbrev WRAPPED_LEN : ℕ := XCHACHA_NONCE_LEN + VAULT_KEY_LEN + TAG_LEN

/-- The outcomes the documentation promises. -/
structure DocumentedOutcome (P : Crates B) (wrapped : List B) (masterKey : MasterKey B)
    (w : World P) : Prop where
  short : wrapped.length < WRAPPED_LEN →
    ∃ m, (unwrapVaultKeyWithMasterKey P wrapped masterKey w).1 = .err (.invalidInput m)
  key : WRAPPED_LEN ≤ wrapped.length → ∀ vk,
    (unwrapVaultKeyWithMasterKey P wrapped masterKey w).1 = .ok vk ↔
      P.openedUnder wrapped masterKey w = some vk.expose.toList
  payload : WRAPPED_LEN ≤ wrapped.length → ∀ plaintext,
    P.openedUnder wrapped masterKey w = some plaintext → plaintext.length ≠ VAULT_KEY_LEN →
    ∃ m, (unwrapVaultKeyWithMasterKey P wrapped masterKey w).1 = .err (.invalidInput m)
  refused : WRAPPED_LEN ≤ wrapped.length → P.openedUnder wrapped masterKey w = none →
    (unwrapVaultKeyWithMasterKey P wrapped masterKey w).1 = .err .keyUnwrap

section
variable {wrapped : List B} {masterKey : MasterKey B} {w : World P}

/-- From the length check on, the outcome is decided by what the blob opens to. -/
theorem unwrap_outcome (h : XCHACHA_NONCE_LEN + VAULT_KEY_LEN ≤ wrapped.length) :
    (unwrapVaultKeyWithMasterKey P wrapped masterKey w).1 =
      openedKey "decrypted key wrong length" (P.openedUnder wrapped masterKey w) := by
  rw [unwrapVaultKeyWithMasterKey_apply masterKey w h]
  rfl

theorem unwrap_of_payload {plaintext : List B}
    (h : XCHACHA_NONCE_LEN + VAULT_KEY_LEN ≤ wrapped.length)
    (hopen : P.openedUnder wrapped masterKey w = some plaintext)
    (hlen : plaintext.length ≠ VAULT_KEY_LEN) :
    (unwrapVaultKeyWithMasterKey P wrapped masterKey w).1 =
      .err (.invalidInput "decrypted key wrong length") := by
  rw [unwrap_outcome h, hopen, openedKey, dif_neg hlen]

theorem unwrap_of_refused (h : XCHACHA_NONCE_LEN + VAULT_KEY_LEN ≤ wrapped.length)
    (hopen : P.openedUnder wrapped masterKey w = none) :
    (unwrapVaultKeyWithMasterKey P wrapped masterKey w).1 = .err .keyUnwrap := by
  rw [unwrap_outcome h, hopen]
  rfl

/-- A blob with room for a nonce, a key and a tag is classified as documented. -/
theorem DocumentedOutcome.of_length (h : WRAPPED_LEN ≤ wrapped.length) :
    DocumentedOutcome P wrapped masterKey w := by
  have hle : XCHACHA_NONCE_LEN + VAULT_KEY_LEN ≤ wrapped.length :=
    le_trans (Nat.le_add_right _ _) h
  refine ⟨fun hshort => absurd h (not_le.mpr hshort), ?_, ?_, ?_⟩
  · intro _ vk
    rw [unwrap_outcome hle, openedKey_eq_ok]
  · intro _ plaintext hopen hlen
    exact ⟨_, unwrap_of_payload hle hopen hlen⟩
  · intro _ hopen
    exact unwrap_of_refused hle hopen

/-- Below that length only the first promise has anything to say. -/
theorem DocumentedOutcome.of_short (h : wrapped.length < WRAPPED_LEN) {m : String}
    (herr : (unwrapVaultKeyWithMasterKey P wrapped masterKey w).1 = .err (.invalidInput m)) :
    DocumentedOutcome P wrapped masterKey w :=
  ⟨fun _ => ⟨m, herr⟩, fun hle => absurd h (not_lt.mpr hle),
    fun hle => absurd h (not_lt.mpr hle), fun hle => absurd h (not_lt.mpr hle)⟩

end

/-- The promises are kept except on a blob that has room for a nonce and a key
but not for the tag, and does not authenticate. -/
theorem documentedOutcome_iff (htag : (P.aead .xchacha20Poly1305).TagLength)
    (wrapped : List B) (masterKey : MasterKey B) (w : World P) :
    DocumentedOutcome P wrapped masterKey w ↔
      wrapped.length < 56 ∨ 72 ≤ wrapped.length ∨ P.openedUnder wrapped masterKey w ≠ none := by
  constructor
  · intro hdoc
    by_contra hcon
    simp only [not_or, not_lt, not_le, not_not] at hcon
    rcases hcon with ⟨hle, hshort, hopen⟩
    obtain ⟨m, herr⟩ := hdoc.short hshort
    rw [unwrap_of_refused hle hopen] at herr
    cases herr
  · intro h
    by_cases hlong : WRAPPED_LEN ≤ wrapped.length
    · exact .of_length hlong
    · have hshort : wrapped.length < 72 := not_le.mp hlong
      by_cases hle : 56 ≤ wrapped.length
      · cases hopen : P.openedUnder wrapped masterKey w with
        | none =>
            simp only [hopen, ne_eq, not_true_eq_false, or_false] at h
            omega
        | some plaintext =>
            -- the tag leaves fewer than 32 of the bytes behind the nonce
            have hlen := htag (w.history .xchacha20Poly1305) _ _ _ _ _ hopen
            simp only [List.length_drop, XCHACHA_NONCE_LEN, TAG_LEN] at hlen
            have hpayload : plaintext.length ≠ 32 := by omega
            exact .of_short hshort (unwrap_of_payload hle hopen hpayload)
      · exact .of_short hshort (congrArg Prod.fst
          (unwrapVaultKeyWithMasterKey_short masterKey w (not_le.mp hle)))

/-! ## Failing and well-formed blobs -/

section
open Symbolic

def strangerKey : MasterKey SByte := ⟨atoms (.password 0) MASTER_KEY_LEN⟩

/-- A world in which nothing has been sealed. -/
noncomputable def untouched : World idealCrates := World.init idealCrates symbolicTape

theorem untouched_decrypt (c : Cipher) (key nonce aad ct : SString) :
    (idealCrates.aead c).decrypt (untouched.history c).sealings key nonce aad ct = none := by
  apply (idealCrates_ideal c).decrypt_eq_none
  intro m
  exact History.not_mem_empty _

theorem untouched_opens (wrapped : SString) (masterKey : MasterKey SByte) :
    idealCrates.openedUnder wrapped masterKey untouched = none :=
  untouched_decrypt _ _ _ _ _

/-- One byte short of a whole tag, zeros are a wrong key and not a short blob. -/
theorem shortBlob_keyUnwrap :
    (unwrapVaultKeyWithMasterKey idealCrates (lits (List.replicate 71 0)) strangerKey
      untouched).1 = .err .keyUnwrap ∧
    ¬ DocumentedOutcome idealCrates (lits (List.replicate 71 0)) strangerKey untouched := by
  have hlen : (lits (List.replicate 71 0) : SString).length = 71 := by simp
  have hopen := untouched_opens (lits (List.replicate 71 0)) strangerKey
  have herr : (unwrapVaultKeyWithMasterKey idealCrates (lits (List.replicate 71 0)) strangerKey
      untouched).1 = .err .keyUnwrap :=
    unwrap_of_refused (by rw [hlen]; decide) hopen
  refine ⟨herr, ?_⟩
  intro hdoc
  obtain ⟨m, hshort⟩ := hdoc.short (by rw [hlen]; decide)
  rw [herr] at hshort
  cases hshort

theorem documentedOutcome_iff_zeros :
    DocumentedOutcome idealCrates (lits (List.replicate 72 0)) strangerKey untouched := by
  have htag : (idealCrates.aead .xchacha20Poly1305).TagLength :=
    (idealCrates_ideal .xchacha20Poly1305).tagLength
  apply (documentedOutcome_iff htag _ strangerKey untouched).mpr
  simp

end
end EvnxCrypto
