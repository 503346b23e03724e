import EvnxCrypto.Knowledge
import EvnxCrypto.Vault

/-!
# What cannot be forged, over symbolic bytes

Whoever does not know a key cannot seal under it. So wherever a ciphertext under
a secret key occurs in what an adversary computes, however deep, it was put there
by an honest client, and honest clients seal seeds and vault keys under their
subkeys and nothing else.
-/
namespace EvnxCrypto
open Effect ByteString AuthenticatedEncryption Symbolic

variable {b : Breach}

/-- A vault key that a client drew, or one that everybody knows. -/
def DrawnOrKnown (x : SString) : Prop :=
  (∃ i, x = (atoms (.draw .vaultKey i) VAULT_KEY_LEN).toList) ∨ ∀ b : Breach, b.Knows x

/-- What honest clients seal under the subkeys of each tag. -/
structure Content (info msg : SString) : Prop where
  sealed : info = HKDF_INFO_PRIVATE_KEY_ENC →
    ∃ i, msg = (atoms (.draw .seed i) ED25519_PRIVATE_LEN).toList
  wrapped : info = HKDF_INFO_VAULT_KEY_WRAP_MK → DrawnOrKnown msg
  shared : info = HKDF_INFO_VAULT_KEY_WRAP → DrawnOrKnown msg

/-- A secret subkey holds what its tag says. -/
def Proper (key msg : SString) : Prop :=
  SecretKey key → ∀ ikm info, key = (symbolicCrates.subkey ikm info).toList → Content info msg

/-- Every ciphertext inside is a proper one. -/
def ProperValue (f : Fn) (args : List SString) : Prop :=
  ∀ c key nonce aad msg, f = cipherFn c → args = [key, nonce, aad, msg] → Proper key msg

abbrev Genuine (x : SString) : Prop := BuiltString ProperValue x

/-! ## Proper contents -/

theorem symbolicCrates_subkey (ikm info : SString) :
    symbolicCrates.subkey ikm info = out .hkdf [ikm, info] 32 :=
  symbolicCrates_okm ikm info 32 (by decide)

theorem knows_subkey {ikm info : SString} (hikm : b.Knows ikm) (hinfo : b.Knows info) :
    b.Knows (symbolicCrates.subkey ikm info).toList := by
  rw [symbolicCrates_subkey]
  exact knows_compute 32 (by simpa using ⟨hikm, hinfo⟩)

theorem Content.seed (i : ℕ) :
    Content HKDF_INFO_PRIVATE_KEY_ENC (atoms (.draw .seed i) ED25519_PRIVATE_LEN).toList where
  sealed := fun _ => ⟨i, rfl⟩
  wrapped := fun h => absurd (asBytes_injective h) (by decide)
  shared := fun h => absurd (asBytes_injective h) (by decide)

theorem Content.masterKeyWrap {msg : SString} (h : DrawnOrKnown msg) :
    Content HKDF_INFO_VAULT_KEY_WRAP_MK msg where
  sealed := fun h => absurd (asBytes_injective h) (by decide)
  wrapped := fun _ => h
  shared := fun _ => h

theorem Content.sharedWrap {msg : SString} (h : DrawnOrKnown msg) :
    Content HKDF_INFO_VAULT_KEY_WRAP msg where
  sealed := fun h => absurd (asBytes_injective h) (by decide)
  wrapped := fun _ => h
  shared := fun _ => h

theorem proper_subkey {ikm info msg : SString} (h : Content info msg) :
    Proper (symbolicCrates.subkey ikm info).toList msg := by
  intro _ ikm' info' heq
  rw [symbolicCrates_subkey, symbolicCrates_subkey] at heq
  have hargs := (out_inj (by decide) heq).2.1
  simp only [List.cons.injEq, and_true] at hargs
  rw [← hargs.2]
  exact h

theorem proper_known {key msg : SString} (h : b.Knows key) : Proper key msg :=
  fun hsecret => absurd h (not_knows_secretKey hsecret)

/-- A vault key is no subkey, and holds anything. -/
theorem proper_vaultKey (i : ℕ) (msg : SString) :
    Proper (atoms (.draw .vaultKey i) VAULT_KEY_LEN).toList msg := by
  intro _ ikm info heq
  rw [symbolicCrates_subkey] at heq
  have hmem : SymByte.app Fn.hkdf [ikm, info] 0 ∈
      (atoms (F := Fn) (.draw .vaultKey i) VAULT_KEY_LEN).toList := by
    rw [heq]
    exact mem_out.mpr ⟨0, by decide, rfl⟩
  obtain ⟨j, -, hbyte⟩ := mem_atoms.mp hmem
  cases hbyte

/-! ## Genuine values are closed under every deduction -/

theorem genuine_out {f : Fn} {args : List SString} (n : ℕ)
    (hf : f ≠ .aes256Gcm ∧ f ≠ .xchacha20Poly1305) (hargs : ∀ x ∈ args, Genuine x) :
    Genuine (out f args n).toList := by
  refine .out n ?_ hargs
  intro c _ _ _ _ hc _
  cases c with
  | aes256Gcm => exact absurd hc hf.1
  | xchacha20Poly1305 => exact absurd hc hf.2

theorem genuine_subkey {ikm info : SString} (hikm : Genuine ikm) (hinfo : Genuine info) :
    Genuine (symbolicCrates.subkey ikm info).toList := by
  rw [symbolicCrates_subkey]
  exact genuine_out 32 (by decide) (by simpa using ⟨hikm, hinfo⟩)

theorem genuine_sealed {c : Cipher} {key nonce aad msg ct : SString}
    (henc : (symbolicCrates.aead c).encrypt key nonce aad msg = some ct) (hproper : Proper key msg)
    (hkey : Genuine key) (hnonce : Genuine nonce) (haad : Genuine aad) (hmsg : Genuine msg) :
    Genuine ct := by
  cases henc
  refine .out _ ?_ (by simpa using ⟨hkey, hnonce, haad, hmsg⟩)
  intro c' key' nonce' aad' msg' _ hargs
  cases hargs
  exact hproper

/-- What opens inside a genuine value was sealed properly. -/
theorem genuine_opened {c : Cipher} {H : List (Sealing SByte)} {key nonce aad ct msg : SString}
    (hopen : (symbolicCrates.aead c).decrypt H key nonce aad ct = some msg) (hct : Genuine ct) :
    Genuine msg ∧ Proper key msg := by
  have henc := symbolicAead_decrypt_eq_some.mp hopen
  cases henc
  obtain ⟨hvalue, hargs⟩ := BuiltString.of_out (Nat.succ_pos _) hct
  exact ⟨hargs msg (by simp), hvalue c key nonce aad msg rfl rfl⟩

theorem genuine_scalarMul {a point : SString} (ha : Genuine a) (hpoint : Genuine point) :
    Genuine (scalarMul a point).toList := by
  by_cases hex : ∃ q : SString × List SString, point = (out .point (q.1 :: q.2) 32).toList
  · rcases hex with ⟨⟨base, ss⟩, rfl⟩
    obtain ⟨-, hargs⟩ := BuiltString.of_out (by decide) hpoint
    rw [scalarMul_point]
    apply genuine_out 32 (by decide)
    intro x hx
    rw [List.mem_cons, Multiset.mem_toList, Multiset.mem_cons, Multiset.mem_coe] at hx
    rcases hx with rfl | rfl | hx
    · exact hargs _ List.mem_cons_self
    · exact ha
    · exact hargs _ (List.mem_cons_of_mem _ hx)
  · rw [scalarMul, dif_neg hex]
    exact genuine_out 32 (by decide) (by simpa using ⟨hpoint, ha⟩)

theorem genuine_encapsulationKey {dk : DecapsulationKey768 SByte} (hdk : Genuine dk.encoding) :
    Genuine (symbolicEncapsulationKey dk).toList :=
  genuine_out 1184 (by decide) (by simpa using hdk)

theorem genuine_decapsulated {dk : DecapsulationKey768 SByte} {ct : SString}
    {ss : List.Vector SByte 32} (h : symbolicCrates.decapsulateSlice dk ct = some ss)
    (hdk : Genuine dk.encoding) (hct : Genuine ct) : Genuine ss.toList := by
  simp only [symbolicCrates, symbolicCratesWith, Option.ite_none_right_eq_some,
    Option.some.injEq] at h
  rw [← h.2, symbolicDecapsulate]
  split
  · rename_i hex
    have hsent := hex.choose_spec
    rw [hsent] at hct
    obtain ⟨-, hargs⟩ := BuiltString.of_out (by decide) hct
    exact genuine_out 32 (by decide) hargs
  · exact genuine_out 32 (by decide) (by simpa using ⟨hdk, hct⟩)

/-- Nobody can put an improper ciphertext into what they compute: that takes a secret key. -/
theorem genuine_of_derivable {K : Set SString} (hknown : ∀ x ∈ K, b.Knows x)
    (hK : ∀ x ∈ K, Genuine x) {x : SString} (h : Derivable symbolicCrates K x) : Genuine x := by
  induction h with
  | known hx => exact hK _ hx
  | lits bs => exact .lits bs
  | append _ _ ihx ihy => exact ihx.append ihy
  | take n _ ih => exact ih.take n
  | drop n _ ih => exact ih.drop n
  | @hkdfExpand ikm info n okm hexpand _ _ ihikm ihinfo =>
      have hvalue : okm = out .hkdf [ikm, info] n := by
        simp only [symbolicCrates, symbolicCratesWith, Option.ite_none_right_eq_some,
          Option.some.injEq] at hexpand
        exact hexpand.2.symm
      rw [hvalue]
      exact genuine_out n (by decide) (by simpa using ⟨ihikm, ihinfo⟩)
  | argon2id hderive _ _ _ ihsecret ihpassword ihsalt =>
      cases hderive
      exact genuine_out _ (by decide)
        (by simpa using ⟨ihsecret, ihpassword, ihsalt⟩)
  | blake3Hash _ ih => exact genuine_out 32 (by decide) (by simpa using ih)
  | ed25519VerifyingKey _ ih =>
      exact genuine_out 32 (by decide) (by simpa using ih)
  | x25519StaticSecret _ ih => exact ih
  | x25519PublicKey _ ih => exact genuine_scalarMul ih (.lits _)
  | diffieHellman _ _ ihscalar ihpoint => exact genuine_scalarMul ihscalar ihpoint
  | mlkemFromSeed _ ih => exact ih
  | mlkemEncapsulationKey _ ih => exact genuine_encapsulationKey ih
  | encapsulated _ _ ihek ihm =>
      exact genuine_out 1088 (by decide) (by simpa using ⟨ihek, ihm⟩)
  | encapsulatedSecret _ _ ihek ihm =>
      exact genuine_out 32 (by decide) (by simpa using ⟨ihek, ihm⟩)
  | decapsulated hdec _ _ ihdk ihct => exact genuine_decapsulated hdec ihdk ihct
  | srpComputeVerifier _ _ _ ihusername ihpassword ihsalt =>
      exact genuine_out 256 (by decide)
        (by simpa using ⟨ihusername, ihpassword, ihsalt⟩)
  | aeadEncrypt henc hkey _ _ _ ihkey ihnonce ihaad ihmsg =>
      have hkeyKnown := knows_of_derivable hknown hkey
      exact genuine_sealed henc (proper_known hkeyKnown) ihkey ihnonce ihaad ihmsg
  | aeadDecrypt H hopen _ _ _ _ _ _ _ ihct => exact (genuine_opened hopen ihct).1

/-- Whatever is served, a wrap opens to a key that a client drew or that everybody knows:
either a client sealed it, or whoever did knew what they sealed. -/
theorem drawnOrKnown_of_opened {c : Cipher} {H : List (Sealing SByte)}
    {ikm info nonce aad ct msg : SString}
    (hinfo : info = HKDF_INFO_VAULT_KEY_WRAP_MK ∨ info = HKDF_INFO_VAULT_KEY_WRAP)
    (hopen : (symbolicCrates.aead c).decrypt H (symbolicCrates.subkey ikm info).toList nonce aad
      ct = some msg)
    (hknown : ∀ b : Breach, b.Knows ct) (hct : Genuine ct) : DrawnOrKnown msg := by
  by_cases hsecret : SecretKey (symbolicCrates.subkey ikm info).toList
  · have hcontent := (genuine_opened hopen hct).2 hsecret ikm info rfl
    rcases hinfo with hinfo | hinfo
    · exact hcontent.wrapped hinfo
    · exact hcontent.shared hinfo
  · refine .inr fun b => ?_
    have henc := symbolicAead_decrypt_eq_some.mp hopen
    have hbytes := hknown b
    cases henc
    exact (knows_sealed (Nat.succ_pos _) hbytes).resolve_right hsecret

end EvnxCrypto
