import EvnxCrypto.SymbolicCrates
import EvnxCrypto.Transcript
import EvnxCrypto.Vault

/-!
# Vault blobs are bound to their vault and version

The associated data of two vault versions differ even where the 16-bit length
prefix has wrapped: equal encodings have equal total length, which fixes the
length of the id and with it every field. Under an ideal cipher the record of a
run of seals is therefore a faithful index of what each blob opens as.
-/
namespace EvnxCrypto
open Effect ByteString AuthenticatedEncryption

variable {B : Type} [Byte B]

theorem vaultAad_length (vaultId : String) (version : UInt32) :
    (vaultAad vaultId version : List B).length = (utf8 vaultId).length + 10 := by
  have htag : (utf8 "evnx").length = 4 := by decide
  simp only [vaultAad, List.length_append, asBytes_length, lits_length, bigEndian_length, htag]
  omega

theorem vaultAad_ne_nil (vaultId : String) (version : UInt32) :
    (vaultAad vaultId version : List B) ≠ [] := by
  intro h
  have hlen := vaultAad_length (B := B) vaultId version
  rw [h] at hlen
  simp at hlen

/-- No bound on the id: the total length stands in for the wrapped prefix. -/
theorem vaultAad_inj {id id' : String} {v v' : UInt32}
    (h : (vaultAad id v : List B) = vaultAad id' v') : id = id' ∧ v = v' := by
  have hlen := congrArg List.length h
  rw [vaultAad_length, vaultAad_length, Nat.add_right_cancel_iff] at hlen
  have hhead : (asBytes "evnx" ++ lits (bigEndian 2 (UInt16.ofNat (utf8 id).length).toNat) :
      List B).length =
      (asBytes "evnx" ++ lits (bigEndian 2 (UInt16.ofNat (utf8 id').length).toNat) :
      List B).length := by
    simp
  obtain ⟨-, hid, hversion⟩ := append_middle_inj hhead (by simp) h
  constructor
  · exact utf8_injective (lits_injective hid)
  · apply UInt32.toNat_inj.mp
    exact bigEndian_inj (UInt32.toNat_lt v) (UInt32.toNat_lt v') (lits_injective hversion)

/-- The version after this one is another, also where it wraps. -/
theorem succ_ne_version (version : UInt32) : version + 1 ≠ version := by
  intro h
  have hval := congrArg UInt32.toNat h
  rw [UInt32.toNat_add] at hval
  have hlt := UInt32.toNat_lt version
  have hone : (1 : UInt32).toNat = 1 := rfl
  omega

/-! ## Runs of seals -/

/-- A request to seal a plaintext as one version of a vault. -/
structure SealRequest (B : Type) where
  vaultKey : VaultKey B
  plaintext : List B
  vaultId : String
  version : UInt32

variable {P : Crates B}

def SealRequest.call (P : Crates B) (r : SealRequest B) : Prog P (EncryptedBlob B) :=
  encryptVault P r.plaintext r.vaultKey (vaultAad r.vaultId r.version)

abbrev Seals (B : Type) : Type := List (SealRequest B × Result (EncryptedBlob B))

/-- The requests one after another from the start, with their answers. -/
def sealRun (P : Crates B) (tape : ℕ → Purpose → (n : ℕ) → List.Vector B n)
    (requests : List (SealRequest B)) : Seals B × World P :=
  transcript (SealRequest.call P) requests (World.init P tape)

/-- The sealing that produced a blob for a request. -/
def SealRequest.sealing (r : SealRequest B) (blob : EncryptedBlob B) : Sealing B :=
  ⟨r.vaultKey.expose.toList, blob.nonce.toList, vaultAad r.vaultId r.version, r.plaintext,
    blob.ciphertext⟩

theorem SealRequest.sealing_inj {r r' : SealRequest B} {blob blob' : EncryptedBlob B}
    (h : r.sealing blob = r'.sealing blob') : r = r' ∧ blob = blob' := by
  obtain ⟨key, plaintext, id, version⟩ := r
  obtain ⟨key', plaintext', id', version'⟩ := r'
  rcases blob with ⟨nonce, ct⟩
  rcases blob' with ⟨nonce', ct'⟩
  simp only [sealing, Sealing.mk.injEq, toList_inj] at h
  obtain ⟨hkey, rfl, haad, rfl, rfl⟩ := h
  obtain ⟨rfl, rfl⟩ := vaultAad_inj haad
  exact ⟨by rw [VaultKey.ext hkey], rfl⟩

/-- The record of the cipher holds the sealings of the answered requests and
nothing else, and every nonce in it has been drawn. -/
structure SealInvariant (answered : Seals B) (w : World P) : Prop where
  record : ∀ s, s ∈ w.history .aes256Gcm ↔
    ∃ r blob, (r, .ok blob) ∈ answered ∧ s = r.sealing blob
  nonces : Tagged (fun x => x.2.nonce.toList) (successes answered) (w.drawn.map Draw.bytes)

theorem SealInvariant.init (tape : ℕ → Purpose → (n : ℕ) → List.Vector B n) :
    SealInvariant [] (World.init P tape) :=
  ⟨by simp, Tagged.nil _ _⟩

/-- A request that fails may add draws, but no sealing. -/
theorem SealInvariant.fail {answered : Seals B} {w w' : World P} (h : SealInvariant answered w)
    (r : SealRequest B) (e : CryptoError) (hext : w.Extends w')
    (hhistory : w'.history = w.history) : SealInvariant (answered ++ [(r, .err e)]) w' := by
  constructor
  · intro s
    simp only [hhistory, h.record, List.mem_append, List.mem_singleton, Prod.mk.injEq,
      reduceCtorEq, and_false, or_false]
  · rw [successes_concat_err]
    exact h.nonces.mono (hext.drawn.map _)

theorem SealInvariant.seal {answered : Seals B} {w w' : World P} {r : SealRequest B}
    {blob : EncryptedBlob B} (h : SealInvariant answered w)
    (hcall : r.call P w = (.ok blob, w')) :
    SealInvariant (answered ++ [(r, .ok blob)]) w' := by
  obtain ⟨hnonce, henc, rfl⟩ := encryptVault_eq_ok.mp hcall
  constructor
  · intro s
    simp only [World.record_history_self, World.draw_history, History.mem_add, h.record,
      List.mem_append, List.mem_singleton, Prod.mk.injEq, Outcome.ok.injEq]
    constructor
    · intro hs
      rcases hs with hs | hs
      · exact ⟨r, blob, .inr ⟨rfl, rfl⟩, hs⟩
      · obtain ⟨r', blob', hmem, hs⟩ := hs
        exact ⟨r', blob', .inl hmem, hs⟩
    · intro hs
      obtain ⟨r', blob', hmem, hs⟩ := hs
      rcases hmem with hmem | ⟨rfl, rfl⟩
      · exact .inr ⟨r', blob', hmem, hs⟩
      · exact .inl hs
  · have htag := h.nonces.concat (List.suffix_refl _) (r, blob)
    simp only [hnonce] at htag
    rw [successes_concat_ok]
    exact htag

theorem SealInvariant.step {answered : Seals B} {w : World P} (h : SealInvariant answered w)
    (r : SealRequest B) : SealInvariant (answered ++ [(r, (r.call P w).1)]) (r.call P w).2 := by
  rcases encryptVault_cases r.plaintext r.vaultKey (vaultAad r.vaultId r.version) w with
    ⟨ct, henc, heq⟩ | heq
  · have hcall : r.call P w = _ := heq
    rw [hcall]
    exact h.seal hcall
  · have hcall : r.call P w = _ := heq
    rw [hcall]
    exact h.fail r .encryption ((w.extends_draw _ _).trans (World.extends_refuse _ _ _ _)) rfl

theorem sealInvariant_run (tape : ℕ → Purpose → (n : ℕ) → List.Vector B n)
    (requests : List (SealRequest B)) :
    SealInvariant (sealRun P tape requests).1 (sealRun P tape requests).2 :=
  transcript_invariant (SealInvariant.init tape) (fun _ _ r h => h.step r) requests

/-- A run of seals keeps the draws in order. -/
theorem sealRun_inOrder (tape : ℕ → Purpose → (n : ℕ) → List.Vector B n)
    (requests : List (SealRequest B)) :
    (sealRun P tape requests).2.InOrder ∧ (sealRun P tape requests).2.tape = tape :=
  transcript_invariant (I := fun _ (w : World P) => w.InOrder ∧ w.tape = tape)
    ⟨.init tape, rfl⟩
    (fun _ _ r h => ⟨encryptVault_inOrder h.1 r.plaintext r.vaultKey _,
      (encryptVault_extends r.plaintext r.vaultKey _ _).tape.trans h.2⟩) requests

/-- In any world the invariant describes, a blob opens at a version exactly as
what was sealed there. -/
theorem SealInvariant.decrypt_iff {answered : Seals B} {w : World P}
    (h : SealInvariant answered w) (hideal : (P.aead .aes256Gcm).Ideal)
    (blob : EncryptedBlob B) (vk : VaultKey B) (aad p : List B) :
    (decryptVault P blob vk aad w).1 = .ok p ↔
      ∃ id v, aad = vaultAad id v ∧ (⟨vk, p, id, v⟩, .ok blob) ∈ answered := by
  rw [decryptVault_apply, Outcome.okOr_eq_ok, hideal, h.record]
  constructor
  · intro hs
    obtain ⟨r, blob', hmem, heq⟩ := hs
    obtain rfl : aad = vaultAad r.vaultId r.version := congrArg Sealing.aad heq
    have hsame : (⟨vk, p, r.vaultId, r.version⟩ : SealRequest B) = r ∧ blob = blob' :=
      SealRequest.sealing_inj heq
    refine ⟨r.vaultId, r.version, rfl, ?_⟩
    rw [hsame.1, hsame.2]
    exact hmem
  · intro hs
    obtain ⟨id, v, rfl, hmem⟩ := hs
    exact ⟨⟨vk, p, id, v⟩, blob, hmem, rfl⟩

omit [Byte B] in
theorem decryptVault_eq_err {blob : EncryptedBlob B} {vk : VaultKey B} {aad : List B}
    {w : World P} (h : ∀ p, (decryptVault P blob vk aad w).1 ≠ .ok p) :
    (decryptVault P blob vk aad w).1 = .err .decryption := by
  rw [decryptVault_apply] at h ⊢
  generalize (P.aead .aes256Gcm).decrypt _ _ _ _ _ = opened at h ⊢
  cases opened with
  | none => rfl
  | some p => exact (h p rfl).elim

theorem SealInvariant.decrypt_nil {answered : Seals B} {w : World P}
    (h : SealInvariant answered w) (hideal : (P.aead .aes256Gcm).Ideal)
    (blob : EncryptedBlob B) (vk : VaultKey B) :
    (decryptVault P blob vk [] w).1 = .err .decryption := by
  apply decryptVault_eq_err
  intro p hp
  obtain ⟨id, v, haad, -⟩ := (h.decrypt_iff hideal blob vk [] p).mp hp
  exact vaultAad_ne_nil id v haad.symm

/-- Where no draw repeats, a blob has one request, and no key opens it as
another version or another vault. -/
theorem SealInvariant.decrypt_elsewhere {answered : Seals B} {w : World P}
    (h : SealInvariant answered w) (hideal : (P.aead .aes256Gcm).Ideal) (hfresh : w.Fresh)
    {r : SealRequest B} {blob : EncryptedBlob B} (hmem : (r, .ok blob) ∈ answered)
    {id : String} {v : UInt32} (hne : (id, v) ≠ (r.vaultId, r.version)) (vk : VaultKey B) :
    (decryptVault P blob vk (vaultAad id v) w).1 = .err .decryption := by
  apply decryptVault_eq_err
  intro p hp
  obtain ⟨id', v', haad, hmem'⟩ := (h.decrypt_iff hideal blob vk _ p).mp hp
  obtain ⟨rfl, rfl⟩ := vaultAad_inj haad
  have hsame : (r, blob) = (⟨vk, p, id, v⟩, blob) :=
    h.nonces.once hfresh _ (mem_successes.mpr hmem) _ (mem_successes.mpr hmem') rfl
  rw [Prod.mk.injEq] at hsame
  exact hne (by rw [hsame.1])

/-- A served blob opens for a key, a vault and a version exactly as the
plaintext it was sealed from for these three. -/
theorem decryptVault_iff_sealed (hideal : (P.aead .aes256Gcm).Ideal)
    (tape : ℕ → Purpose → (n : ℕ) → List.Vector B n) (requests : List (SealRequest B)) :
    (∀ blob vk id v p,
      (decryptVault P blob vk (vaultAad id v) (sealRun P tape requests).2).1 = .ok p ↔
        (⟨vk, p, id, v⟩, .ok blob) ∈ (sealRun P tape requests).1) ∧
    (∀ blob vk, (decryptVault P blob vk [] (sealRun P tape requests).2).1 = .err .decryption) ∧
    ((sealRun P tape requests).2.Fresh →
      ∀ r blob, (r, .ok blob) ∈ (sealRun P tape requests).1 →
      ∀ id v, (id, v) ≠ (r.vaultId, r.version) → ∀ vk,
        (decryptVault P blob vk (vaultAad id v) (sealRun P tape requests).2).1 =
          .err .decryption) ∧
    (∀ id v id' v', (vaultAad id v : List B) = vaultAad id' v' → (id, v) = (id', v')) ∧
    ∀ id v, (vaultAad id v : List B) ≠ [] := by
  have hinv : SealInvariant (sealRun P tape requests).1 (sealRun P tape requests).2 :=
    sealInvariant_run tape requests
  refine ⟨?_, ?_, ?_, ?_, ?_⟩
  · intro blob vk id v p
    rw [hinv.decrypt_iff hideal]
    constructor
    · intro h
      obtain ⟨id', v', haad, hmem⟩ := h
      obtain ⟨rfl, rfl⟩ := vaultAad_inj haad
      exact hmem
    · intro hmem
      exact ⟨id, v, rfl, hmem⟩
  · exact hinv.decrypt_nil hideal
  · intro hfresh r blob hmem id v hne vk
    exact hinv.decrypt_elsewhere hideal hfresh hmem hne vk
  · intro id v id' v' h
    obtain ⟨rfl, rfl⟩ := vaultAad_inj h
    rfl
  · exact vaultAad_ne_nil

/-! ## Two versions and two keys -/

section
open Symbolic

/-- A key drawn at a place. -/
def drawnKey (place : ℕ) : VaultKey SByte := ⟨atoms (.draw .vaultKey place) VAULT_KEY_LEN⟩

theorem drawnKey_inj {i j : ℕ} (h : drawnKey i = drawnKey j) : i = j := by
  have hatoms := congrArg List.Vector.toList (congrArg VaultKey.expose h)
  exact (Atom.draw.inj (atoms_inj (by decide) hatoms).1).2

def teamNote : SealRequest SByte where
  vaultKey := drawnKey 1
  plaintext := (atoms (.plaintext 0) 5).toList
  vaultId := "team"
  version := 1

/-- The next version of the note. -/
def editedNote : SealRequest SByte :=
  { teamNote with plaintext := (atoms (.plaintext 1) 7).toList, version := 2 }

def secondKey : VaultKey SByte := drawnKey 2

/-- The first version again, under another key. -/
def movedNote : SealRequest SByte := { teamNote with vaultKey := secondKey }

/-- What the ideal crates seal a request as with the nonce drawn at a place. -/
def SealRequest.blobAt (r : SealRequest SByte) (place : ℕ) : EncryptedBlob SByte where
  nonce := symbolicTape place .nonce NONCE_LEN
  ciphertext := (out .aes256Gcm [r.vaultKey.expose.toList,
    (symbolicTape place .nonce NONCE_LEN).toList, vaultAad r.vaultId r.version, r.plaintext]
    (r.plaintext.length + TAG_LEN)).toList

def teamBlob : EncryptedBlob SByte := teamNote.blobAt 0

/-- Seals with nonces from different places are different blobs. -/
theorem SealRequest.blobAt_inj {r r' : SealRequest SByte} {i j : ℕ}
    (h : r.blobAt i = r'.blobAt j) : i = j := by
  have hnonce := congrArg (fun blob => blob.nonce.toList) h
  exact (Atom.draw.inj (atoms_inj (by decide) hnonce).1).2

theorem sealRun_teamNotes :
    (sealRun idealCrates symbolicTape [teamNote, editedNote, movedNote]).1 =
      [(teamNote, .ok teamBlob), (editedNote, .ok (editedNote.blobAt 1)),
        (movedNote, .ok (movedNote.blobAt 2))] := rfl

theorem decryptVault_iff_sealed_teamNotes :
    (decryptVault idealCrates teamBlob teamNote.vaultKey (vaultAad "team" 1)
      (sealRun idealCrates symbolicTape [teamNote, editedNote, movedNote]).2).1 =
        .ok teamNote.plaintext ∧
    (decryptVault idealCrates (editedNote.blobAt 1) teamNote.vaultKey (vaultAad "team" 2)
      (sealRun idealCrates symbolicTape [teamNote, editedNote, movedNote]).2).1 =
        .ok editedNote.plaintext ∧
    (∀ vk, (decryptVault idealCrates (editedNote.blobAt 1) vk (vaultAad "team" 1)
      (sealRun idealCrates symbolicTape [teamNote, editedNote, movedNote]).2).1 =
        .err .decryption) ∧
    ∀ p, (decryptVault idealCrates teamBlob secondKey (vaultAad "team" 1)
      (sealRun idealCrates symbolicTape [teamNote, editedNote, movedNote]).2).1 ≠ .ok p := by
  obtain ⟨hiff, -, helse, -⟩ := decryptVault_iff_sealed (idealCrates_ideal .aes256Gcm)
    symbolicTape [teamNote, editedNote, movedNote]
  have horder := sealRun_inOrder (P := idealCrates) symbolicTape [teamNote, editedNote, movedNote]
  have hfresh : (sealRun idealCrates symbolicTape [teamNote, editedNote, movedNote]).2.Fresh := by
    apply horder.1.fresh
    rw [horder.2]
    exact symbolicTape_nonRepeating
  have hedited : (editedNote, .ok (editedNote.blobAt 1)) ∈
      (sealRun idealCrates symbolicTape [teamNote, editedNote, movedNote]).1 := by
    rw [sealRun_teamNotes]
    exact List.mem_cons_of_mem _ List.mem_cons_self
  refine ⟨?_, ?_, ?_, ?_⟩
  · apply (hiff ..).mpr
    rw [sealRun_teamNotes]
    exact List.mem_cons_self
  · exact (hiff ..).mpr hedited
  · exact helse hfresh editedNote _ hedited "team" 1 (by decide)
  · intro p hp
    have hmem := (hiff ..).mp hp
    rw [sealRun_teamNotes] at hmem
    -- the key rules out the first two requests, the nonce the third
    simp only [List.mem_cons, Prod.mk.injEq, Outcome.ok.injEq, List.not_mem_nil, or_false] at hmem
    rcases hmem with ⟨hr, -⟩ | ⟨hr, -⟩ | ⟨-, hblob⟩
    · cases drawnKey_inj (congrArg SealRequest.vaultKey hr)
    · cases drawnKey_inj (congrArg SealRequest.vaultKey hr)
    · cases SealRequest.blobAt_inj hblob

end
end EvnxCrypto
