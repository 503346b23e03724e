import EvnxCrypto.RoundTrip
import EvnxCrypto.VaultBinding
import Mathlib.Data.List.Forall2

/-!
# Re-keying the history of a vault

A history is sealed version by version and then moved along a chain of keys. The
invariant of the chain is that every blob is on record as sealed under the
current key at its version. Where no nonce repeats, a blob has one sealing on
record, so it opens under the last key at its own version and nowhere else.
-/
namespace EvnxCrypto
open Effect ByteString AuthenticatedEncryption

variable {B : Type} [Byte B]

/-- Plaintexts by version, and what they are sealed as. -/
abbrev Plaintexts (B : Type) : Type := List (UInt32 × List B)
abbrev Blobs (B : Type) : Type := List (UInt32 × EncryptedBlob B)

section
variable (P : Crates B) (vaultId : String)

def sealHistory (key : VaultKey B) : Plaintexts B → Prog P (Blobs B)
  | [] => pure []
  | (version, plaintext) :: rest => do
      let blob ← encryptVault P plaintext key (vaultAad vaultId version)
      let blobs ← sealHistory key rest
      pure ((version, blob) :: blobs)

def rekeyHistory (oldKey newKey : VaultKey B) : Blobs B → Prog P (Blobs B)
  | [] => pure []
  | (version, blob) :: rest => do
      let fresh ← reencryptVault P blob oldKey newKey (vaultAad vaultId version)
      let blobs ← rekeyHistory oldKey newKey rest
      pure ((version, fresh) :: blobs)

def rekeyChain (key : VaultKey B) : List (VaultKey B) → Blobs B → Prog P (Blobs B)
  | [], blobs => pure blobs
  | newKey :: keys, blobs => do
      let rekeyed ← rekeyHistory P vaultId key newKey blobs
      rekeyChain newKey keys rekeyed

end

variable {P : Crates B} {vaultId : String}

/-- Every nonce on record was drawn, and where no draw repeats it has one sealing. -/
def World.NoncesTagged (w : World P) : Prop :=
  Tagged Sealing.nonce (w.history .aes256Gcm).sealings (w.drawn.map Draw.bytes)

omit [Byte B] in
theorem World.NoncesTagged.encryptVault {w : World P} (h : w.NoncesTagged)
    (plaintext : List B) (key : VaultKey B) (aad : List B) :
    (encryptVault P plaintext key aad w).2.NoncesTagged := by
  have hsuffix : w.drawn.map Draw.bytes <:+ w.drawn.map Draw.bytes := List.suffix_refl _
  rcases encryptVault_cases plaintext key aad w with ⟨ct, henc, heq⟩ | heq
  · rw [heq]
    apply h.insert hsuffix (x := ⟨_, _, aad, plaintext, ct⟩)
    intro s hs
    rw [World.record_history_self, History.add_sealings] at hs
    exact List.mem_cons.mp hs
  · rw [heq]
    exact h.mono (List.suffix_cons _ _)

omit [Byte B] in
theorem encryptVault_noncesTagged {w w' : World P} (h : w.NoncesTagged)
    {plaintext aad : List B} {key : VaultKey B} {blob : EncryptedBlob B}
    (hseal : encryptVault P plaintext key aad w = (.ok blob, w')) : w'.NoncesTagged := by
  have hworld : (encryptVault P plaintext key aad w).2 = w' := congrArg Prod.snd hseal
  rw [← hworld]
  exact h.encryptVault _ _ _

/-- What sealing and re-keying leave in place. -/
structure World.Steady (w w' : World P) : Prop where
  extends' : w.Extends w'
  noncesTagged : w.NoncesTagged → w'.NoncesTagged
  inOrder : w.InOrder → w'.InOrder

omit [Byte B] in
theorem World.Steady.refl (w : World P) : w.Steady w := ⟨.refl w, id, id⟩

omit [Byte B] in
theorem World.Steady.trans {u v w : World P} (h : u.Steady v) (k : v.Steady w) : u.Steady w where
  extends' := h.extends'.trans k.extends'
  noncesTagged hu := k.noncesTagged (h.noncesTagged hu)
  inOrder hu := k.inOrder (h.inOrder hu)

omit [Byte B] in
theorem encryptVault_steady {w w' : World P} {plaintext aad : List B} {key : VaultKey B}
    {blob : EncryptedBlob B} (hseal : encryptVault P plaintext key aad w = (.ok blob, w')) :
    w.Steady w' := by
  refine ⟨encryptVault_ok_extends hseal, fun h => encryptVault_noncesTagged h hseal, ?_⟩
  intro h
  have horder := encryptVault_inOrder h plaintext key aad
  rwa [hseal] at horder

theorem sealRun_noncesTagged (tape : ℕ → Purpose → (n : ℕ) → List.Vector B n)
    (requests : List (SealRequest B)) : (sealRun P tape requests).2.NoncesTagged := by
  have hstart : (World.init P tape).NoncesTagged := Tagged.nil _ _
  exact transcript_invariant (I := fun _ (w : World P) => w.NoncesTagged) hstart
    (fun _ _ r h => h.encryptVault r.plaintext r.vaultKey _) requests

/-- What sealing a plaintext as a version of the vault puts on record. -/
def sealedAs (vaultId : String) (key : VaultKey B) (x : UInt32 × List B)
    (y : UInt32 × EncryptedBlob B) : Sealing B :=
  ⟨key.expose.toList, y.2.nonce.toList, vaultAad vaultId x.1, x.2, y.2.ciphertext⟩

/-- The invariant of the chain. -/
def SealedUnder (vaultId : String) (key : VaultKey B) (w : World P) :
    Plaintexts B → Blobs B → Prop :=
  List.Forall₂ fun x y => x.1 = y.1 ∧ sealedAs vaultId key x y ∈ w.history .aes256Gcm

theorem SealedUnder.mono {key : VaultKey B} {w w' : World P} {history : Plaintexts B}
    {blobs : Blobs B} (h : SealedUnder vaultId key w history blobs) (hext : w.Extends w') :
    SealedUnder vaultId key w' history blobs :=
  List.Forall₂.imp (fun _ _ hxy => ⟨hxy.1, hext.mem hxy.2⟩) h

omit [Byte B] in
theorem encryptVault_recorded {plaintext aad : List B} {key : VaultKey B} {w w' : World P}
    {blob : EncryptedBlob B} (h : encryptVault P plaintext key aad w = (.ok blob, w')) :
    (⟨key.expose.toList, blob.nonce.toList, aad, plaintext, blob.ciphertext⟩ : Sealing B) ∈
      w'.history .aes256Gcm := by
  obtain ⟨-, henc, rfl⟩ := encryptVault_eq_ok.mp h
  rw [World.record_history_self, History.mem_add]
  exact .inl rfl

theorem sealHistory_sealedUnder {key : VaultKey B} {history : Plaintexts B} {blobs : Blobs B}
    {w w' : World P} (h : sealHistory P vaultId key history w = (.ok blobs, w')) :
    SealedUnder vaultId key w' history blobs ∧ w.Steady w' := by
  induction history generalizing blobs w with
  | nil =>
      cases h
      exact ⟨.nil, .refl _⟩
  | cons x rest ih =>
      rcases x with ⟨version, plaintext⟩
      obtain ⟨blob, w₁, hseal, h⟩ := Run.bind_eq_ok.mp h
      obtain ⟨blobs', w₂, hrest, h⟩ := Run.bind_eq_ok.mp h
      cases h
      obtain ⟨hsealed, hsteady⟩ := ih hrest
      refine ⟨.cons ⟨rfl, ?_⟩ hsealed, (encryptVault_steady hseal).trans hsteady⟩
      exact hsteady.extends'.mem (encryptVault_recorded hseal)

omit [Byte B] in
/-- A blob on record re-keys: what was sealed once fits the cipher again. -/
theorem reencryptVault_of_recorded (hcorrect : (P.aead .aes256Gcm).Correct) {blob : EncryptedBlob B}
    {oldKey : VaultKey B} (newKey : VaultKey B) {aad plaintext : List B} {w : World P}
    (h : (⟨oldKey.expose.toList, blob.nonce.toList, aad, plaintext, blob.ciphertext⟩ :
      Sealing B) ∈ w.history .aes256Gcm) :
    ∃ fresh w', reencryptVault P blob oldKey newKey aad w = (.ok fresh, w') ∧
      encryptVault P plaintext newKey aad w = (.ok fresh, w') := by
  have hopen := hcorrect _ _ h
  have hfits := Aead.fits_of_encrypt ((w.history .aes256Gcm).genuine _ h)
  obtain ⟨ct, henc⟩ := Aead.exists_encrypt (k := newKey.expose.toList)
    (n := (w.next .nonce NONCE_LEN).toList) hfits
  refine ⟨_, _, ?_, encryptVault_of_some henc⟩
  rw [reencryptVault_of_some hopen]
  exact encryptVault_of_some henc

theorem rekeyHistory_sealedUnder (hcorrect : (P.aead .aes256Gcm).Correct) {oldKey : VaultKey B}
    (newKey : VaultKey B) {history : Plaintexts B} {blobs : Blobs B} {w : World P}
    (h : SealedUnder vaultId oldKey w history blobs) :
    ∃ rekeyed w', rekeyHistory P vaultId oldKey newKey blobs w = (.ok rekeyed, w') ∧
      SealedUnder vaultId newKey w' history rekeyed ∧ w.Steady w' := by
  induction history generalizing blobs w with
  | nil =>
      cases h
      exact ⟨[], w, rfl, .nil, .refl w⟩
  | cons x rest ih =>
      rcases x with ⟨version, plaintext⟩
      cases h with
      | cons hhead htail =>
          rename_i y blobs
          rcases y with ⟨version', blob⟩
          rcases hhead with ⟨rfl, hrecorded⟩
          obtain ⟨fresh, w₁, hre, hseal⟩ :=
            reencryptVault_of_recorded hcorrect newKey hrecorded
          have hfirst := encryptVault_steady hseal
          have htail' : SealedUnder vaultId oldKey w rest blobs := htail
          obtain ⟨rekeyed, w₂, hrest, hsealed, hsteady⟩ := ih (htail'.mono hfirst.extends')
          refine ⟨(version, fresh) :: rekeyed, w₂, ?_, .cons ⟨rfl, ?_⟩ hsealed,
            hfirst.trans hsteady⟩
          · rw [rekeyHistory, Run.bind_of_ok hre]
            exact Run.bind_of_ok hrest
          · exact hsteady.extends'.mem (encryptVault_recorded hseal)

theorem rekeyChain_sealedUnder (hcorrect : (P.aead .aes256Gcm).Correct) (keys : List (VaultKey B))
    {key : VaultKey B} {history : Plaintexts B} {blobs : Blobs B} {w : World P}
    (h : SealedUnder vaultId key w history blobs) :
    ∃ finals w', rekeyChain P vaultId key keys blobs w = (.ok finals, w') ∧
      SealedUnder vaultId ((key :: keys).getLast (List.cons_ne_nil _ _)) w' history finals ∧
      w.Steady w' := by
  induction keys generalizing key blobs w with
  | nil => exact ⟨blobs, w, rfl, h, .refl w⟩
  | cons newKey keys ih =>
      obtain ⟨rekeyed, w₁, hrekey, hsealed, hsteady⟩ :=
        rekeyHistory_sealedUnder hcorrect newKey h
      obtain ⟨finals, w₂, hchain, hfinal, hsteady'⟩ := ih hsealed
      refine ⟨finals, w₂, ?_, ?_, hsteady.trans hsteady'⟩
      · rw [rekeyChain, Run.bind_of_ok hrekey, hchain]
      · rw [List.getLast_cons (List.cons_ne_nil _ _)]
        exact hfinal

omit [Byte B] in
/-- A blob with one sealing on record opens under its key with its associated
data and not otherwise. -/
theorem decrypt_iff_only_sealing (hideal : (P.aead .aes256Gcm).Ideal) {w : World P}
    (htagged : w.NoncesTagged) (hfresh : w.Fresh) {key : VaultKey B} {blob : EncryptedBlob B}
    {aad p : List B}
    (h : (⟨key.expose.toList, blob.nonce.toList, aad, p, blob.ciphertext⟩ : Sealing B) ∈
      w.history .aes256Gcm) (key' : VaultKey B) (aad' p' : List B) :
    (decryptVault P blob key' aad' w).1 = .ok p' ↔ key' = key ∧ aad' = aad ∧ p' = p := by
  rw [decryptVault_apply, Outcome.okOr_eq_ok, hideal]
  constructor
  · intro hother
    have hsame := htagged.once hfresh _ hother _ h rfl
    rw [Sealing.mk.injEq, toList_inj] at hsame
    exact ⟨VaultKey.ext hsame.1, hsame.2.2.1, hsame.2.2.2.1⟩
  · intro hsame
    rcases hsame with ⟨rfl, rfl, rfl⟩
    exact h

omit [Byte B] in
/-- A blob not sealed under the old key with this associated data is refused, and
the world is left as it was. -/
theorem reencryptVault_of_not_sealed (hideal : (P.aead .aes256Gcm).Ideal)
    {blob : EncryptedBlob B} {oldKey : VaultKey B} (newKey : VaultKey B) {aad : List B}
    {w : World P}
    (h : ∀ p, (⟨oldKey.expose.toList, blob.nonce.toList, aad, p, blob.ciphertext⟩ :
      Sealing B) ∉ w.history .aes256Gcm) :
    reencryptVault P blob oldKey newKey aad w = (.err .decryption, w) :=
  reencryptVault_of_none (hideal.decrypt_eq_none h)

/-- Along any chain of keys a history re-keys, its blobs open under the last key
as the plaintexts they were sealed from, and under no other key or associated
data; a blob that the old key did not seal is refused at every step. -/
theorem rekeyChain_faithful (hideal : (P.aead .aes256Gcm).Ideal)
    (tape : ℕ → Purpose → (n : ℕ) → List.Vector B n) (earlier : List (SealRequest B))
    (key : VaultKey B) (keys : List (VaultKey B)) (last : VaultKey B)
    (hlast : last = (key :: keys).getLast (List.cons_ne_nil _ _))
    (hnew : last ∉ (key :: keys).dropLast) (history : Plaintexts B) (blobs : Blobs B)
    (w : World P)
    (hseal : sealHistory P vaultId key history (sealRun P tape earlier).2 = (.ok blobs, w)) :
    (∃ finals w', rekeyChain P vaultId key keys blobs w = (.ok finals, w') ∧
      (w'.Fresh → List.Forall₂ (fun x y => x.1 = y.1 ∧
        (decryptVault P y.2 last (vaultAad vaultId x.1) w').1 = .ok x.2 ∧
        (∀ old ∈ (key :: keys).dropLast,
          (decryptVault P y.2 old (vaultAad vaultId x.1) w').1 = .err .decryption) ∧
        (∀ id v, (id, v) ≠ (vaultId, x.1) →
          (decryptVault P y.2 last (vaultAad id v) w').1 = .err .decryption) ∧
        ∀ aad, aad ≠ vaultAad vaultId x.1 →
          (decryptVault P y.2 last aad w').1 = .err .decryption) history finals)) ∧
    ∀ (u : World P) blob oldKey newKey aad,
      (∀ p, (⟨oldKey.expose.toList, blob.nonce.toList, aad, p, blob.ciphertext⟩ : Sealing B) ∉
        u.history .aes256Gcm) →
      reencryptVault P blob oldKey newKey aad u = (.err .decryption, u) := by
  obtain ⟨hsealed, hsteady⟩ := sealHistory_sealedUnder hseal
  obtain ⟨finals, w', hchain, hfinal, hsteady'⟩ :=
    rekeyChain_sealedUnder hideal.correct keys hsealed
  constructor
  · refine ⟨finals, w', hchain, ?_⟩
    intro hfresh
    have htag : w'.NoncesTagged :=
      (hsteady.trans hsteady').noncesTagged (sealRun_noncesTagged tape earlier)
    rw [← hlast] at hfinal
    apply List.Forall₂.imp _ hfinal
    intro x y hxy
    have hiff := decrypt_iff_only_sealing hideal htag hfresh hxy.2
    have helse : ∀ aad, aad ≠ vaultAad vaultId x.1 →
        (decryptVault P y.2 last aad w').1 = .err .decryption := by
      intro aad hne
      apply decryptVault_eq_err
      intro p hp
      exact hne ((hiff _ _ _).mp hp).2.1
    refine ⟨hxy.1, (hiff _ _ _).mpr ⟨rfl, rfl, rfl⟩, ?_, ?_, helse⟩
    · intro old hold
      apply decryptVault_eq_err
      intro p hp
      obtain ⟨rfl, -, -⟩ := (hiff _ _ _).mp hp
      exact hnew hold
    · intro id v hne
      apply helse
      intro heq
      obtain ⟨rfl, rfl⟩ := vaultAad_inj heq
      exact hne rfl
  · intro u blob oldKey newKey aad h
    exact reencryptVault_of_not_sealed hideal newKey h

/-! ## Two versions, moved twice -/

section
open Symbolic

def thirdKey : VaultKey SByte := drawnKey 3

def teamHistory : Plaintexts SByte := [(1, teamNote.plaintext), (2, editedNote.plaintext)]

/-- The history after one earlier seal. -/
theorem sealHistory_teamHistory : ∃ w,
    sealHistory idealCrates "team" teamNote.vaultKey teamHistory
      (sealRun idealCrates symbolicTape [movedNote]).2 =
        (.ok [(1, teamNote.blobAt 1), (2, editedNote.blobAt 2)], w) := ⟨_, rfl⟩

theorem rekeyChain_faithful_teamHistory : ∃ w finals w',
    sealHistory idealCrates "team" teamNote.vaultKey teamHistory
      (sealRun idealCrates symbolicTape [movedNote]).2 =
        (.ok [(1, teamNote.blobAt 1), (2, editedNote.blobAt 2)], w) ∧
    rekeyChain idealCrates "team" teamNote.vaultKey [secondKey, thirdKey]
      [(1, teamNote.blobAt 1), (2, editedNote.blobAt 2)] w = (.ok finals, w') ∧
    List.Forall₂ (fun x y => x.1 = y.1 ∧
      (decryptVault idealCrates y.2 thirdKey (vaultAad "team" x.1) w').1 = .ok x.2 ∧
      (∀ old ∈ [teamNote.vaultKey, secondKey],
        (decryptVault idealCrates y.2 old (vaultAad "team" x.1) w').1 = .err .decryption) ∧
      (decryptVault idealCrates y.2 thirdKey (vaultAad "team" (x.1 + 1)) w').1 =
        .err .decryption) teamHistory finals := by
  obtain ⟨w, hseal⟩ := sealHistory_teamHistory
  have hnew : thirdKey ∉ [teamNote.vaultKey, secondKey] := by
    intro h
    simp only [List.mem_cons, List.not_mem_nil, or_false] at h
    rcases h with h | h
    · cases drawnKey_inj h
    · cases drawnKey_inj h
  obtain ⟨⟨finals, w', hchain, hall⟩, -⟩ := rekeyChain_faithful (idealCrates_ideal _)
    symbolicTape [movedNote] teamNote.vaultKey [secondKey, thirdKey] thirdKey rfl hnew _ _ _ hseal
  -- the chain draws in order, on a tape without repetitions
  obtain ⟨hsealed, hsteady⟩ := sealHistory_sealedUnder hseal
  obtain ⟨_, _, hchain', -, hsteady'⟩ := rekeyChain_sealedUnder (idealCrates_aeadCorrect _)
    [secondKey, thirdKey] hsealed
  cases hchain.symm.trans hchain'
  have horder := sealRun_inOrder (P := idealCrates) symbolicTape [movedNote]
  have hreached := hsteady.trans hsteady'
  have hfresh : w'.Fresh := by
    apply (hreached.inOrder horder.1).fresh
    rw [hreached.extends'.tape, horder.2]
    exact symbolicTape_nonRepeating
  refine ⟨w, finals, w', hseal, hchain, List.Forall₂.imp ?_ (hall hfresh)⟩
  intro x y hxy
  obtain ⟨hversion, hopen, hold, helse, -⟩ := hxy
  refine ⟨hversion, hopen, hold, helse "team" (x.1 + 1) ?_⟩
  intro h
  exact succ_ne_version x.1 (congrArg Prod.snd h)

end
end EvnxCrypto
