import EvnxCrypto.Flow
import EvnxCrypto.Hex
import EvnxCrypto.Base64
import EvnxCrypto.Sessions
import EvnxCrypto.SrpLogin

/-!
# Lengths on the wire

The server checks exact character counts. Each text a client hands out, and each it
reads with success, has the one length the wire format gives it, and a ciphertext
shows the length of what is in it and nothing else.
-/
namespace EvnxCrypto
open Effect ByteString AuthenticatedEncryption Wasm

/-! ## Lengths of the two codecs -/

theorem Base64.encodeChars_length (bs : List UInt8) :
    (Base64.encodeChars bs).length = 4 * ((bs.length + 2) / 3) := by
  induction bs using Base64.encodeChars.induct with
  | case1 => rfl
  | case2 a => simp [Base64.encodeChars]
  | case3 a b => simp [Base64.encodeChars]
  | case4 a b c rest ih =>
      simp only [Base64.encodeChars, List.length_cons, ih]
      omega

theorem Hex.encodeChars_length (bs : List UInt8) :
    (Hex.encodeChars bs).length = 2 * bs.length := by
  induction bs with
  | nil => rfl
  | cons b rest ih =>
      simp only [Hex.encodeChars, List.length_cons, ih]
      omega

theorem Hex.decodeChars_length {cs : List Char} {bs : List UInt8}
    (h : Hex.decodeChars cs = some bs) : cs.length = 2 * bs.length := by
  induction cs using Hex.decodeChars.induct generalizing bs with
  | case1 =>
      cases h
      rfl
  | case2 => cases h
  | case3 p q rest ih =>
      obtain ⟨high, -, h⟩ := Option.bind_eq_some_iff.mp h
      obtain ⟨low, -, h⟩ := Option.bind_eq_some_iff.mp h
      obtain ⟨tail, htail, h⟩ := Option.bind_eq_some_iff.mp h
      cases h
      simp only [List.length_cons, ih htail]
      omega

/-- The characters of `n` bytes in padded base64. -/
def base64Length (n : ℕ) : ℕ := 4 * ((n + 2) / 3)

theorem Base64.length_encode (bs : List UInt8) :
    (Base64.codec.encode bs).length = base64Length bs.length := by
  change (String.ofList (Base64.encodeChars bs)).length = _
  rw [String.length_ofList, Base64.encodeChars_length, base64Length]

theorem Hex.length_encode (bs : List UInt8) :
    (Hex.codec.encode bs).length = 2 * bs.length := by
  change (String.ofList (Hex.encodeChars bs)).length = _
  rw [String.length_ofList, Hex.encodeChars_length]

theorem Hex.length_decode {t : String} {bs : List UInt8} (h : Hex.codec.decode t = some bs) :
    t.length = 2 * bs.length := by
  rw [← Hex.decodeChars_length h, String.length_toList]

/-! ## What an answer is like in any world -/

/-- The bytes of a secret behind its nonce, with its tag. -/
def SEALED_SECRET_LEN : ℕ := XCHACHA_NONCE_LEN + VAULT_KEY_LEN + TAG_LEN

variable {B : Type} [Byte B]

/-- What is known of an answer without knowing the world it is given in. -/
def Api.Answers (P : Crates B) : {β : Type} → Api B β → Result β → Prop
  | _, .deriveMasterKey password salt, x => x = EvnxCrypto.deriveMasterKey P password salt
  | _, .generateKeypair, x => ∃ seed, x = .ok (P.keypairOf seed)
  | _, .encryptVault plaintext _ _, x =>
      x.Meets (fun blob => blob.ciphertext.length = plaintext.length + TAG_LEN)
        (· = some .encryption)
  | _, .decryptVault blob _ _, x =>
      ∀ plaintext, x = .ok plaintext → blob.ciphertext.length = plaintext.length + TAG_LEN
  | _, .reencryptVault blob _ _ _, x =>
      ∀ fresh, x = .ok fresh → fresh.ciphertext.length = blob.ciphertext.length
  | _, .wrapVaultKeyWithMasterKey _ _, x =>
      x.Meets (fun bytes => bytes.length = SEALED_SECRET_LEN) (· = some .keyWrap)
  | _, .unwrapVaultKeyWithMasterKey wrapped _, x =>
      ∀ vaultKey, x = .ok vaultKey → wrapped.length = SEALED_SECRET_LEN
  | _, .encryptPrivateKey _ _, x =>
      x.Meets (fun enc => XCHACHA_NONCE_LEN + enc.ciphertext.length = SEALED_SECRET_LEN)
        (· = some .keyWrap)
  | _, .decryptPrivateKey enc _, x =>
      ∀ keypair, x = .ok keypair → XCHACHA_NONCE_LEN + enc.ciphertext.length = SEALED_SECRET_LEN
  | _, .wrapVaultKeyForUser _ _, x =>
      x.Meets (fun wrapped => wrapped.encryptedVaultKey.length = SEALED_SECRET_LEN ∧
          wrapped.mlkemCiphertext.length = MLKEM768_CIPHERTEXT_LEN)
        fun e => e = some .keyWrap ∨ e = some .invalidPublicKey
  | _, .unwrapVaultKey wrapped _, x =>
      ∀ vaultKey, x = .ok vaultKey → wrapped.encryptedVaultKey.length = SEALED_SECRET_LEN
  | _, .computeVerifier _ _ srpSalt, x => ∃ verifier, x = .ok verifier ∧ verifier.srpSalt = srpSalt
  | _, _, _ => True

variable {P : Crates B} {S : SrpClient B}

section
omit [Byte B]
variable (htag : ∀ c, (P.aead c).TagLength)
include htag

theorem opened_secret_length {H : History (P.aead .xchacha20Poly1305)} {k n a c : List B}
    {secret : List.Vector B 32}
    (h : (P.aead .xchacha20Poly1305).decrypt H.sealings k n a c = some secret.toList) :
    XCHACHA_NONCE_LEN + c.length = SEALED_SECRET_LEN := by
  rw [htag _ H k n a c _ h, List.Vector.toList_length]
  rfl

theorem opened_secret_split {H : History (P.aead .xchacha20Poly1305)} {k a bytes : List B}
    {secret : List.Vector B 32} (hlen : XCHACHA_NONCE_LEN ≤ bytes.length)
    (h : (P.aead .xchacha20Poly1305).decrypt H.sealings k (bytes.take XCHACHA_NONCE_LEN) a
      (bytes.drop XCHACHA_NONCE_LEN) = some secret.toList) :
    bytes.length = SEALED_SECRET_LEN := by
  have hdrop := opened_secret_length htag h
  rwa [List.length_drop, Nat.add_sub_cancel' hlen] at hdrop

theorem reencryptVault_length {blob fresh : EncryptedBlob B} {old new : VaultKey B}
    {aad : List B} {w : World P} (h : (reencryptVault P blob old new aad w).1 = .ok fresh) :
    fresh.ciphertext.length = blob.ciphertext.length := by
  have hcall : reencryptVault P blob old new aad w = (.ok fresh, _) := Prod.ext h rfl
  obtain ⟨plaintext, hopen, hseal⟩ := reencryptVault_eq_ok.mp hcall
  obtain ⟨-, henc, -⟩ := encryptVault_eq_ok.mp hseal
  rw [(P.aead _).encrypt_length henc, htag _ _ _ _ _ _ _ hopen]

end

omit [Byte B] in
theorem sealed_secret_length {k n a ct : List B} {secret : List.Vector B 32}
    (h : (P.aead .xchacha20Poly1305).encrypt k n a secret.toList = some ct) :
    XCHACHA_NONCE_LEN + ct.length = SEALED_SECRET_LEN := by
  rw [(P.aead _).encrypt_length h, List.Vector.toList_length]
  rfl

omit [Byte B] in
theorem sealed_secret_join {k n a ct : List B} {secret : List.Vector B 32}
    (nonce : List.Vector B XCHACHA_NONCE_LEN)
    (h : (P.aead .xchacha20Poly1305).encrypt k n a secret.toList = some ct) :
    (nonce.toList ++ ct).length = SEALED_SECRET_LEN := by
  rw [List.length_append, List.Vector.toList_length]
  exact sealed_secret_length h

variable [DecidableEq B]

theorem Api.call_answers (htag : ∀ c, (P.aead c).TagLength) {β : Type} (call : Api B β)
    (w : World P) : call.Answers P (Api.call P S β call w).1 := by
  cases call with
  | deriveMasterKey password salt => exact rfl
  | generateKeypair =>
      rw [Api.call, generateKeypair_apply]
      exact ⟨_, rfl⟩
  | encryptVault plaintext vk aad =>
      rcases encryptVault_cases plaintext vk aad w with ⟨ct, henc, heq⟩ | heq
      · rw [Api.call, heq]
        exact (P.aead _).encrypt_length henc
      · rw [Api.call, heq]
        exact rfl
  | decryptVault blob vk aad =>
      intro plaintext hok
      rw [Api.call, decryptVault_apply, Outcome.okOr_eq_ok] at hok
      exact htag _ _ _ _ _ _ _ hok
  | reencryptVault blob old new aad =>
      intro fresh hok
      exact reencryptVault_length htag hok
  | wrapVaultKeyWithMasterKey vk mk =>
      rcases wrapVaultKeyWithMasterKey_cases vk mk w with ⟨ct, henc, heq⟩ | heq
      · rw [Api.call, heq]
        exact sealed_secret_join _ henc
      · rw [Api.call, heq]
        exact rfl
  | unwrapVaultKeyWithMasterKey bytes mk =>
      intro vk hok
      obtain ⟨hlen, -, hopen⟩ := unwrapVaultKeyWithMasterKey_eq_ok.mp (Prod.ext hok rfl)
      exact opened_secret_split htag (le_trans (Nat.le_add_right _ _) hlen) hopen
  | encryptPrivateKey kp mk =>
      rcases encryptPrivateKey_cases kp mk w with ⟨ct, henc, heq⟩ | heq
      · rw [Api.call, heq]
        exact sealed_secret_length henc
      · rw [Api.call, heq]
        exact rfl
  | decryptPrivateKey enc mk =>
      intro kp hok
      obtain ⟨-, -, hopen⟩ := decryptPrivateKey_eq_ok.mp (Prod.ext hok rfl)
      exact opened_secret_length htag hopen
  | wrapVaultKeyForUser vk recipient =>
      rcases wrapVaultKeyForUser_cases (P := P) (w := w) with ⟨ct, henc, -, heq⟩ | heq | heq
      · rw [Api.call, heq]
        exact ⟨sealed_secret_join _ henc, List.Vector.toList_length _⟩
      · rw [Api.call, heq]
        exact .inl rfl
      · rw [Api.call, heq]
        exact .inr rfl
  | unwrapVaultKey wrapped kp =>
      intro vk hok
      obtain ⟨-, ss, -, hlen, -, hopen⟩ := unwrapVaultKey_eq_ok.mp (Prod.ext hok rfl)
      exact opened_secret_split htag hlen hopen
  | computeVerifier email pw srpSalt => exact ⟨_, rfl, rfl⟩
  | _ => exact trivial

/-! ## What the SRP crate hands out -/

/-- The numbers of the SRP crate stay below a modulus of 2048 bits, and its proofs are
digests of SHA-256. -/
structure SrpLengths (P : Crates UInt8) (S : SrpClient UInt8) : Prop where
  verifier : ∀ username password salt, (P.srpComputeVerifier username password salt).length ≤ 256
  publicEphemeral : ∀ a, (S.computePublicEphemeral a).length ≤ 256
  replies : ∀ a username password salt bPub v,
    S.processReply a username password salt bPub = .ok v →
    v.proof.length = 32 ∧ ∀ m2, v.verifyServer m2 = true → m2.length = 32

section Srp
open Srp6a

theorem toBytesBe_length_le {n k : ℕ} (hn : n < 256 ^ (k + 1)) :
    (toBytesBe n).length ≤ k + 1 := by
  have hbits : 256 ^ (k + 1) = 2 ^ (8 * (k + 1)) := by rw [pow_mul]; norm_num
  rw [hbits] at hn
  rw [toBytesBe, bigEndian_length]
  by_cases hzero : n = 0
  · subst hzero
    simp
  · have hlog := (Nat.log2_lt hzero).mpr hn
    omega

/-- SRP-6a has these lengths over a group of 256 octets. -/
theorem FollowsSrp6a.srpLengths {P : Crates UInt8} {S : SrpClient UInt8} {G : Group}
    {H : List UInt8 → List.Vector UInt8 32} (h : FollowsSrp6a P S G H) (hN : G.N ≤ 256 ^ 256) :
    SrpLengths P S := by
  have hpos : 0 < G.N := lt_trans Nat.one_pos G.one_lt
  constructor
  · intro username password salt
    rw [h.verifier]
    exact toBytesBe_length_le ((Nat.mod_lt _ hpos).trans_le hN)
  · intro a
    rw [h.publicEphemeral]
    exact toBytesBe_length_le ((Nat.mod_lt _ hpos).trans_le hN)
  · intro a username password salt bPub v hv
    cases hr : G.clientReply H (ofBigEndian a) username password salt (ofBigEndian bPub) with
    | none =>
        obtain ⟨e, he⟩ := h.refuses a username password salt bPub hr
        rw [he] at hv
        cases hv
    | some r =>
        obtain ⟨v', hv', hproof, -, hserver⟩ := h.replies a username password salt bPub r hr
        obtain rfl := Except.ok.inj (hv.symm.trans hv')
        obtain ⟨-, hreply⟩ := Option.ite_none_left_eq_some.mp hr
        obtain rfl := Option.some.inj hreply
        constructor
        · rw [hproof]
          exact List.Vector.toList_length _
        · intro m2 hm2
          rw [hserver, decide_eq_true_eq] at hm2
          rw [hm2]
          exact List.Vector.toList_length _

end Srp

/-! ## Lengths of what crosses between clients -/

/-- The three texts of a wrap. -/
structure Wasm.WrappedKeyBundle.Measures (bundle : WrappedKeyBundle String) : Prop where
  encryptedVaultKey : bundle.encryptedVaultKeyB64.length = 96
  ephPubKey : bundle.ephPubKeyB64.length = 44
  mlkemCiphertext : bundle.mlkemCiphertextB64.length = 1452

/-- The lengths of what a request takes in and of what it answers. A number of SRP is
written in as many digits as it needs. -/
def Request.Measures : {β : Type} → Request UInt8 String β → β → Prop
  | _, .generateSalt, saltB64 => saltB64.length = 44
  | _, .deriveMasterKey _ argon2SaltB64, _ => argon2SaltB64.length = 44
  | _, .deriveSrpPassword _ srpSaltB64, srpPasswordB64 =>
      srpSaltB64.length = 44 ∧ srpPasswordB64.length = 44
  | _, .wrapVaultKey .., bytes => bytes.length = 72
  | _, .unwrapVaultKey wrapped _, _ => wrapped.length = 72
  | _, .blobHash _, hash => hash.length = 64
  | _, .encryptVault plaintext .., bytes => bytes.length = plaintext.length + 28
  | _, .decryptVault blob .., plaintext => blob.length = plaintext.length + 28
  | _, .reencryptVault blob .., fresh => fresh.ciphertext.length = blob.ciphertext.length
  | _, .ed25519PublicKey _, keyB64 => keyB64.length = 44
  | _, .x25519PublicKey _, keyB64 => keyB64.length = 44
  | _, .mlkemPublicKey _, keyB64 => keyB64.length = 1580
  | _, .unwrapSharedVaultKey _ bundle, _ => bundle.Measures
  | _, .wrapVaultKeyForUser _ x25519B64 mlkemB64, bundle =>
      x25519B64.length = 44 ∧ mlkemB64.length = 1580 ∧ bundle.Measures
  | _, .computeVerifier _ srpPasswordB64 srpSaltB64, bundle =>
      4 ∣ srpPasswordB64.length ∧ srpSaltB64.length = 44 ∧ bundle.srpSaltB64.length = 44 ∧
        2 ∣ bundle.verifierHex.length ∧ bundle.verifierHex.length ≤ 512
  | _, .generateClientEphemeral, (publicA, _) => 2 ∣ publicA.length ∧ publicA.length ≤ 512
  | _, .computeClientProof _ srpPasswordB64 srpSaltB64 serverPublicBHex _, (clientProof, proof) =>
      4 ∣ srpPasswordB64.length ∧ srpSaltB64.length = 44 ∧ 2 ∣ serverPublicBHex.length ∧
        clientProof.length = 64 ∧ ∀ m2, proof.verifier.verifyServer m2 = true → m2.length = 32
  | _, .verifyServerProof serverProofHex proof, _ =>
      2 ∣ serverProofHex.length ∧
        ((∀ m2, proof.verifier.verifyServer m2 = true → m2.length = 32) →
          serverProofHex.length = 64)
  | _, .encryptPrivateKey .., text => text.length = 96
  | _, .decryptPrivateKey text _, _ => text.length = 96
  | _, _, _ => True

section Texts
omit [Byte B] [DecidableEq B]

theorem b64Encode_length (bs : List UInt8) :
    (b64Encode Base64.codec bs).length = base64Length bs.length :=
  Base64.length_encode bs

theorem b64Encode_vector_length {n : ℕ} (v : List.Vector UInt8 n) :
    (b64Encode Base64.codec v.toList).length = base64Length n := by
  rw [b64Encode_length, List.Vector.toList_length]

theorem EncryptedPrivateKey.toBase64_length {enc : EncryptedPrivateKey UInt8}
    (h : XCHACHA_NONCE_LEN + enc.ciphertext.length = SEALED_SECRET_LEN) :
    (enc.toBase64 Base64.codec).length = 96 := by
  unfold EncryptedPrivateKey.toBase64
  rw [b64Encode_length, List.length_append, List.Vector.toList_length, h]
  rfl

theorem WrappedVaultKey.bundle_measures {wrapped : WrappedVaultKey UInt8}
    (hkey : wrapped.encryptedVaultKey.length = SEALED_SECRET_LEN)
    (hct : wrapped.mlkemCiphertext.length = MLKEM768_CIPHERTEXT_LEN) :
    (wrapped.bundle Base64.codec).Measures := by
  refine ⟨?_, ?_, ?_⟩
  · exact (b64Encode_length _).trans (by rw [hkey]; rfl)
  · exact b64Encode_vector_length _
  · exact (b64Encode_length _).trans (by rw [hct]; rfl)

theorem saltFromB64_length {s : String} {salt : List.Vector UInt8 SALT_LEN}
    (h : saltFromB64 Base64.codec s = .ok salt) : s.length = 44 := by
  obtain rfl := ((saltFromBase64_decides Base64.codec_strict s).ok_iff salt).mp
    (Outcome.mapErr_eq_ok.mp h)
  exact b64Encode_vector_length salt

theorem b64Decode_length {s what : String} {bytes : List UInt8}
    (h : (b64Decode Base64.codec s what).mapErr js = .ok bytes) : 4 ∣ s.length := by
  obtain rfl := ((b64Decode_decides Base64.codec_strict s what).ok_iff bytes).mp
    (Outcome.mapErr_eq_ok.mp h)
  exact ⟨_, b64Encode_length bytes⟩

theorem hex_decode_length {s : String} {e : JsError} {bytes : List UInt8}
    (h : Outcome.okOr e (Hex.codec.decode s) = .ok bytes) : s.length = 2 * bytes.length :=
  Hex.length_decode (Outcome.okOr_eq_ok.mp h)

theorem deriveSrpPassword_length {P : Crates UInt8} {password out : List UInt8}
    {salt : List.Vector UInt8 SALT_LEN} (h : deriveSrpPassword P password salt = .ok out) :
    out.length = 32 := by
  obtain ⟨output, -, hout⟩ := Outcome.bind_eq_ok.mp h
  cases hout
  exact output.toList_length

theorem generateClientEphemeral_public {P : Crates UInt8} {S : SrpClient UInt8} {w : World P}
    {ephemeral : SrpClientEphemeral UInt8}
    (h : (generateClientEphemeral S P w).1 = .ok ephemeral) :
    ∃ a, ephemeral.publicA = S.computePublicEphemeral a := by
  have hcall : generateClientEphemeral S P w = (.ok ephemeral, _) := Prod.ext h rfl
  obtain ⟨a, w', -, hrest⟩ := Run.bind_eq_ok.mp hcall
  cases hzero : allZero (S.computePublicEphemeral a.toList) with
  | true =>
      simp only [hzero, if_true, Run.fail_apply] at hrest
      cases hrest
  | false =>
      simp only [hzero, Bool.false_eq_true, if_false, Run.pure_apply] at hrest
      cases hrest
      exact ⟨a.toList, rfl⟩

theorem computeClientProof_reply {S : SrpClient UInt8} {email : String}
    {pw salt b : List UInt8} {ephemeral : SrpClientEphemeral UInt8}
    {proof : SrpClientProof UInt8}
    (h : computeClientProof S email pw salt b ephemeral = .ok proof) :
    S.processReply ephemeral.privateA (asBytes email) pw salt b = .ok proof.verifier ∧
      proof.clientProof = proof.verifier.proof := by
  unfold computeClientProof at h
  cases hzero : allZero b with
  | true =>
      rw [hzero, if_pos rfl] at h
      cases h
  | false =>
      rw [hzero, if_neg Bool.false_ne_true] at h
      cases hreply : S.processReply ephemeral.privateA (asBytes email) pw salt b with
      | error e =>
          rw [hreply] at h
          cases h
      | ok v =>
          rw [hreply] at h
          cases h
          exact ⟨rfl, rfl⟩

end Texts

variable {P : Crates UInt8} {S : SrpClient UInt8}

theorem Request.measured (htag : ∀ c, (P.aead c).TagLength) (hsrp : SrpLengths P S) {β : Type}
    (r : Request UInt8 String β) (w : World P) {a : β}
    (h : (Request.program P Base64.codec Hex.codec β r).result (Api.call P S) w = .ok a) :
    r.Measures a := by
  have hstrict := Base64.codec_strict
  cases r with
  | generateSalt =>
      obtain ⟨salt, -, rfl⟩ := askAs_eq_ok.mp h
      exact b64Encode_vector_length salt
  | deriveMasterKey password argon2SaltB64 =>
      obtain ⟨salt, hread, -⟩ := decodeThen_eq_ok.mp h
      exact saltFromB64_length hread
  | deriveSrpPassword password srpSaltB64 =>
      obtain ⟨salt, hread, hderive⟩ := decodeThen_eq_ok.mp h
      obtain ⟨out, hout, rfl⟩ := askAs_eq_ok.mp hderive
      refine ⟨saltFromB64_length hread, ?_⟩
      rw [b64Encode_length, deriveSrpPassword_length hout]
      rfl
  | wrapVaultKey vk mk =>
      have hlen := Api.call_answers (S := S) htag (.wrapVaultKeyWithMasterKey vk mk) w
      rw [unpacked_eq_ok.mp h] at hlen
      exact hlen
  | unwrapVaultKey bytes mk =>
      exact Api.call_answers (S := S) htag (.unwrapVaultKeyWithMasterKey bytes mk) w _
        (unpacked_eq_ok.mp h)
  | blobHash ciphertext =>
      cases h
      refine (Hex.length_encode _).trans ?_
      rw [List.Vector.toList_length]
  | encryptVault plaintext vk vaultId version =>
      obtain ⟨blob, hok, rfl⟩ := askAs_eq_ok.mp h
      have hlen := Api.call_answers (S := S) htag
        (.encryptVault plaintext vk (vaultAad vaultId version)) w
      rw [hok] at hlen
      have hct : blob.ciphertext.length = plaintext.length + TAG_LEN := hlen
      change (joinBlob blob).length = _
      rw [joinBlob, List.length_append, List.Vector.toList_length, hct, Nat.add_left_comm]
      rfl
  | decryptVault blob vk vaultId version =>
      simp only [Request.program] at h
      by_cases hle : NONCE_LEN ≤ blob.length
      · rw [dif_pos hle] at h
        have hlen := Api.call_answers (S := S) htag
          (.decryptVault (splitBlob blob hle) vk (vaultAad vaultId version)) w _
          (unpacked_eq_ok.mp h)
        have hdrop : (blob.drop NONCE_LEN).length = a.length + TAG_LEN := hlen
        rw [List.length_drop] at hdrop
        change blob.length = a.length + (NONCE_LEN + TAG_LEN)
        omega
      · rw [dif_neg hle] at h
        cases h
  | reencryptVault blob oldKey newKey vaultId version =>
      exact Api.call_answers (S := S) htag
        (.reencryptVault blob oldKey newKey (vaultAad vaultId version)) w _ (unpacked_eq_ok.mp h)
  | aadSelfTest => exact trivial
  | createVaultKey => exact trivial
  | generateKeypair => exact trivial
  | ed25519PublicKey kp =>
      cases h
      exact b64Encode_vector_length _
  | x25519PublicKey kp =>
      cases h
      exact b64Encode_vector_length _
  | mlkemPublicKey kp =>
      cases h
      exact b64Encode_vector_length _
  | encryptPrivateKey kp mk =>
      obtain ⟨enc, hok, rfl⟩ := askAs_eq_ok.mp h
      have hlen := Api.call_answers (S := S) htag (.encryptPrivateKey kp mk) w
      rw [hok] at hlen
      exact EncryptedPrivateKey.toBase64_length hlen
  | decryptPrivateKey text mk =>
      obtain ⟨enc, hread, hopen⟩ := decodeThen_eq_ok.mp h
      have hlen := Api.call_answers (S := S) htag (.decryptPrivateKey enc mk) w _
        (unpacked_eq_ok.mp hopen)
      obtain ⟨rfl, -⟩ := ((EncryptedPrivateKey.fromBase64_decides hstrict text).ok_iff enc).mp
        (Outcome.mapErr_eq_ok.mp hread)
      exact EncryptedPrivateKey.toBase64_length hlen
  | wrapVaultKeyForUser vk x25519B64 mlkemB64 =>
      obtain ⟨recipient, hread, hwrap⟩ := decodeThen_eq_ok.mp h
      obtain ⟨wrapped, hok, rfl⟩ := askAs_eq_ok.mp hwrap
      have hlen := Api.call_answers (S := S) htag (.wrapVaultKeyForUser vk recipient) w
      rw [hok] at hlen
      obtain ⟨rfl, rfl⟩ :=
        ((UserPublicKeys.fromBase64_decides hstrict x25519B64 mlkemB64).ok_iff recipient).mp
          (Outcome.mapErr_eq_ok.mp hread)
      refine ⟨?_, ?_, WrappedVaultKey.bundle_measures hlen.1 hlen.2⟩
      · exact b64Encode_vector_length _
      · exact b64Encode_vector_length _
  | unwrapSharedVaultKey kp bundle =>
      rcases bundle with ⟨e, p, c⟩
      obtain ⟨wrapped, hread, hunwrap⟩ := decodeThen_eq_ok.mp h
      have hlen := Api.call_answers (S := S) htag (.unwrapVaultKey wrapped kp) w _
        (unpacked_eq_ok.mp hunwrap)
      obtain ⟨rfl, rfl, rfl, hct⟩ := ((WrappedVaultKey.fromBase64_decides hstrict e p c).ok_iff
        wrapped).mp (Outcome.mapErr_eq_ok.mp hread)
      exact WrappedVaultKey.bundle_measures hlen hct
  | computeVerifier email srpPasswordB64 srpSaltB64 =>
      obtain ⟨pw, hpw, h⟩ := decodeThen_eq_ok.mp h
      obtain ⟨salt, hsalt, h⟩ := decodeThen_eq_ok.mp h
      obtain ⟨verifier, hok, rfl⟩ := askAs_eq_ok.mp h
      cases hok
      have hlen := hsrp.verifier (asBytes email) pw salt.toList
      have hhex := Hex.length_encode (P.srpComputeVerifier (asBytes email) pw salt.toList)
      refine ⟨b64Decode_length hpw, saltFromB64_length hsalt, b64Encode_vector_length _,
        ⟨_, hhex⟩, ?_⟩
      exact hhex.le.trans (by omega)
  | generateClientEphemeral =>
      obtain ⟨ephemeral, hok, rfl⟩ := askAs_eq_ok.mp h
      obtain ⟨secret, hpublic⟩ := generateClientEphemeral_public hok
      have hlen := hsrp.publicEphemeral secret
      rw [← hpublic] at hlen
      have hhex := Hex.length_encode ephemeral.publicA
      exact ⟨⟨_, hhex⟩, hhex.le.trans (by omega)⟩
  | computeClientProof email srpPasswordB64 srpSaltB64 serverPublicBHex ephemeral =>
      obtain ⟨pw, hpw, h⟩ := decodeThen_eq_ok.mp h
      obtain ⟨salt, hsalt, h⟩ := decodeThen_eq_ok.mp h
      obtain ⟨b, hb, h⟩ := decodeThen_eq_ok.mp h
      obtain ⟨proof, hok, rfl⟩ := askAs_eq_ok.mp h
      obtain ⟨hreply, hproof⟩ := computeClientProof_reply hok
      obtain ⟨hlen, hserver⟩ := hsrp.replies _ _ _ _ _ _ hreply
      refine ⟨b64Decode_length hpw, saltFromB64_length hsalt, ⟨_, hex_decode_length hb⟩, ?_,
        hserver⟩
      refine (Hex.length_encode _).trans ?_
      rw [hproof, hlen]
  | verifyServerProof serverProofHex proof =>
      obtain ⟨m2, hm2, h⟩ := decodeThen_eq_ok.mp h
      have hlen := hex_decode_length hm2
      refine ⟨⟨_, hlen⟩, ?_⟩
      intro hserver
      have hok : EvnxCrypto.verifyServerProof m2 proof = .ok () := unpacked_eq_ok.mp h
      have haccepts : proof.verifier.verifyServer m2 = true := by
        by_contra hne
        rw [EvnxCrypto.verifyServerProof, if_neg hne] at hok
        cases hok
      rw [hlen, hserver m2 haccepts]

/-- In any session of mixed clients over real base64 and hex, every text and ciphertext
that is answered or successfully read has its length. The ciphers take off the tag and
nothing else, and the SRP crate has the lengths of its group and its hash. -/
theorem session_lengths {α : Type} (htag : ∀ c, (P.aead c).TagLength) (hsrp : SrpLengths P S)
    (t : Interaction (ClientCall UInt8 String) JsError α) (w : World P) :
    ∀ e ∈ t.trace (clients P S Base64.codec Hex.codec) w, ∀ a, e.answer = .ok a →
      e.call.2.Measures a := by
  apply t.invariant (Q := fun trace _ => ∀ e ∈ trace, ∀ a, e.answer = .ok a →
    e.call.2.Measures a)
  · simp
  · intro before u β call hbefore e he a hok
    rcases List.mem_append.mp he with he | he
    · exact hbefore e he a hok
    · obtain rfl := List.mem_singleton.mp he
      apply Request.measured htag hsrp call.2 u
      exact (clients_implemented.result_eq call u).trans hok

/-! ## A registration and a login in texts -/

section
open Octet

/-- Registers, logs in and pushes a note, each step put to the other client. -/
def registerAndPush : Flow (ClientCall UInt8 String) JsError String := do
  let salt ← .call (.browser, .generateSalt)
  let mk ← .call (.native, .deriveMasterKey "correct horse" salt)
  let pw ← .call (.browser, .deriveSrpPassword "correct horse" salt)
  let _ ← .call (.native, .computeVerifier "alice@example.com" pw salt)
  let started ← .call (.browser, .generateClientEphemeral)
  let _ ← .call (.native, .computeClientProof "alice@example.com" pw salt "06" started.2)
  let wrapped ← .call (.browser, .wrapVaultKey noteKey mk)
  let vk ← .call (.native, .unwrapVaultKey wrapped mk)
  let bytes ← .call (.browser, .encryptVault note vk "team" 3)
  .call (.native, .blobHash (bytes.drop NONCE_LEN))

def registerAndPushTrace : List (Exchange (ClientCall UInt8 String) JsError) :=
  registerAndPush.trace (clients (crates group23) (srpClient group23) Base64.codec Hex.codec)
    zeroWorld

/-- All ten requests are answered, and every text has its length. -/
theorem session_lengths_registerAndPush :
    registerAndPushTrace.length = 10 ∧
      ∀ e ∈ registerAndPushTrace, ∀ a, e.answer = .ok a → e.call.2.Measures a := by
  have hsrp : SrpLengths (crates group23) (srpClient group23) :=
    (octet_followsSrp6a group23).srpLengths (by decide)
  exact ⟨by decide +kernel,
    session_lengths (fun _ => aead_tagLength) hsrp registerAndPush zeroWorld⟩

end
end EvnxCrypto
