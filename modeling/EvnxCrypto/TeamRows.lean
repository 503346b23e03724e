import EvnxCrypto.Desk
import EvnxCrypto.TeamStore
import Mathlib.Order.Defs.LinearOrder

/-!
# The rows of a team

When the rows on the server, together with what a desk has on record, hold a store of
plaintexts; and what each flow of a client ensures on rows that do.
-/
namespace EvnxCrypto
open Effect ByteString AuthenticatedEncryption

variable {B T : Type}

/-! ## Lists side by side -/

section
variable {α β : Type}

theorem optionRel_mono {R R' : α → β → Prop} (himp : ∀ a b, R a b → R' a b) {x : Option α}
    {y : Option β} (h : Option.Rel R x y) : Option.Rel R' x y := by
  cases h with
  | some hab => exact .some (himp _ _ hab)
  | none => exact .none

theorem exists_of_optionRel_some_right {R : α → β → Prop} {x : Option α} {b : β}
    (h : Option.Rel R x (some b)) : ∃ a, x = some a ∧ R a b := by
  cases h with
  | some hab => exact ⟨_, rfl, hab⟩

theorem exists_of_optionRel_some_left {R : α → β → Prop} {a : α} {y : Option β}
    (h : Option.Rel R (some a) y) : ∃ b, y = some b ∧ R a b := by
  cases h with
  | some hab => exact ⟨_, rfl, hab⟩

theorem optionRel_eq_none_iff {R : α → β → Prop} {x : Option α} {y : Option β}
    (h : Option.Rel R x y) : x = none ↔ y = none := by
  cases h with
  | some hab => exact iff_of_false nofun nofun
  | none => exact iff_of_true rfl rfl

theorem exists_mem_of_forall₂ {R : α → β → Prop} {as : List α} {bs : List β}
    (h : List.Forall₂ R as bs) {b : β} (hb : b ∈ bs) : ∃ a ∈ as, R a b := by
  induction h with
  | nil => cases hb
  | cons hab _ ih =>
      rcases List.mem_cons.mp hb with rfl | hb
      · exact ⟨_, List.mem_cons_self, hab⟩
      · obtain ⟨a, ha, hrel⟩ := ih hb
        exact ⟨a, List.mem_cons_of_mem _ ha, hrel⟩

theorem optionRel_getElem?_of_forall₂ {R : α → β → Prop} {as : List α} {bs : List β}
    (h : List.Forall₂ R as bs) (i : ℕ) : Option.Rel R as[i]? bs[i]? := by
  induction h generalizing i with
  | nil => exact .none
  | cons hab _ ih =>
      cases i with
      | zero => exact .some hab
      | succ i => exact ih i

variable {R : ℕ → α → β → Prop} {as : List α} {bs : List β}

theorem length_eq_of_optionRel (h : ∀ i, Option.Rel (R i) as[i]? bs[i]?) :
    as.length = bs.length := by
  apply le_antisymm
  · have hend := h bs.length
    rw [List.getElem?_eq_none le_rfl] at hend
    cases hx : as[bs.length]? with
    | some a =>
        rw [hx] at hend
        cases hend
    | none => exact List.getElem?_eq_none_iff.mp hx
  · have hend := h as.length
    rw [List.getElem?_eq_none le_rfl] at hend
    cases hx : bs[as.length]? with
    | some a =>
        rw [hx] at hend
        cases hend
    | none => exact List.getElem?_eq_none_iff.mp hx

theorem optionRel_getElem?_concat {a : α} {b : β} (h : ∀ i, Option.Rel (R i) as[i]? bs[i]?)
    (hab : R bs.length a b) (i : ℕ) : Option.Rel (R i) (as ++ [a])[i]? (bs ++ [b])[i]? := by
  have hlen := length_eq_of_optionRel h
  rcases lt_trichotomy i bs.length with hi | rfl | hi
  · rw [List.getElem?_append_left (hlen ▸ hi), List.getElem?_append_left hi]
    exact h i
  · rw [List.getElem?_concat_length, ← hlen, List.getElem?_concat_length, hlen]
    exact .some hab
  · rw [List.getElem?_eq_none, List.getElem?_eq_none]
    · exact .none
    · rw [List.length_append]
      exact hi
    · rw [List.length_append, hlen]
      exact hi

end

/-! ## What the rows hold -/

variable [Byte B]

/-- Public keys as the row of an account carries them. -/
def AccountRow.Publishes (base64 : Codec (List B) T) (row : AccountRow T)
    (keys : UserPublicKeys B) : Prop :=
  row.x25519B64 = keys.x25519.toBase64 base64 ∧ row.mlkemB64 = keys.mlkem.toBase64 base64

/-- A row of the server holds an account: its key pair is sealed under the master key
that the password yields. -/
structure Account.Held (P : Crates B) (base64 : Codec (List B) T) (D : Desk B) (a : Account B)
    (row : AccountRow T) (keypair : UserKeypair B) (masterKey : MasterKey B)
    (enc : EncryptedPrivateKey B) : Prop where
  derived : deriveMasterKey P a.password a.salt = .ok masterKey
  salt : row.argon2SaltB64 = saltToBase64 base64 a.salt
  sealed : row.encryptedPrivateKeyB64 = enc.toBase64 base64
  length : POLY1305_TAG_LEN ≤ enc.ciphertext.length
  onRecord : (.encryptPrivateKey keypair masterKey, .encrypted enc) ∈ D.ledger.keys
  issued : keypair = P.keypairOf keypair.ed25519PrivateSeed
  publishes : row.Publishes base64 keypair.publicKeys

theorem Account.Held.ownKeys {P : Crates B} {base64 : Codec (List B) T} {D : Desk B}
    {a : Account B} {row : AccountRow T} {keypair : UserKeypair B} {masterKey : MasterKey B}
    {enc : EncryptedPrivateKey B} (h : a.Held P base64 D row keypair masterKey enc) :
    ∃ seed, keypair.publicKeys = (P.keypairOf seed).publicKeys :=
  ⟨_, congrArg _ h.issued⟩

/-- A copy of a vault key, wrapped to the public keys of a member. -/
def Desk.Copy (base64 : Codec (List B) T) (D : Desk B) (key : VaultKey B)
    (recipient : UserPublicKeys B) (copy : WrapRow T) : Prop :=
  ∃ wrapped, copy = wrapped.row base64 ∧
    wrapped.mlkemCiphertext.length = MLKEM768_CIPHERTEXT_LEN ∧
    (.wrapForUser key recipient, .shared wrapped) ∈ D.ledger.keys

omit [Byte B] in
theorem Desk.Copy.mono {base64 : Codec (List B) T} {D D' : Desk B} {key : VaultKey B}
    {recipient : UserPublicKeys B} {copy : WrapRow T} (h : D.Copy base64 key recipient copy)
    (hgrows : D.Grows D') : D'.Copy base64 key recipient copy := by
  obtain ⟨wrapped, hcopy, hlen, hmem⟩ := h
  exact ⟨wrapped, hcopy, hlen, hgrows.keys hmem⟩

variable {P : Crates B} {base64 hex : Codec (List B) T} {D : Desk B}

/-! ### Specifications of the flows -/

/-- Unlocking gives the key pair of the account for every password that opens it, and
no other password gives anything. -/
theorem unlock_runs (hb64 : base64.Strict) {a : Account B} {row : AccountRow T}
    {keypair : UserKeypair B} {masterKey : MasterKey B} {enc : EncryptedPrivateKey B}
    (h : a.Held P base64 D row keypair masterKey enc) (hone : D.ledger.OneMeaning)
    (password : List B) :
    D.Runs P (unlockFlow base64 row password)
      (fun kp D' => D' = D ∧ kp = keypair ∧
        deriveMasterKey P password a.salt = deriveMasterKey P a.password a.salt)
      fun e => (∃ c, e = some c) ∧
        deriveMasterKey P password a.salt ≠ deriveMasterKey P a.password a.salt := by
  have hread : EncryptedPrivateKey.fromBase64 base64 row.encryptedPrivateKeyB64 = .ok enc :=
    (EncryptedPrivateKey.fromBase64_decides hb64 _).eq_ok ⟨h.sealed, h.length⟩
  have hsalt : saltFromBase64 base64 row.argon2SaltB64 = .ok a.salt :=
    (saltFromBase64_decides hb64 _).eq_ok h.salt
  unfold unlockFlow
  refine .lift_bind hread (.lift_bind hsalt (.call_bind ?_ ?_))
  · intro mk hmk
    have hsame : deriveMasterKey P password a.salt = .ok mk := hmk.answers.symm
    rw [hsame, h.derived]
    refine .of_call _ ?_ ?_
    · intro kp hkp
      obtain ⟨sealed, hsealed, rfl⟩ := (hkp.ledger kp).mp rfl
      have honly := hone.keys _ _ _ hsealed h.onRecord
      cases honly
      exact ⟨rfl, h.issued.symm, rfl⟩
    · intro c hc
      refine ⟨⟨c, rfl⟩, ?_⟩
      intro heq
      cases heq
      cases (hc.ledger _).mpr ⟨keypair, h.onRecord, rfl⟩
  · intro c hc
    refine ⟨⟨c, rfl⟩, ?_⟩
    rw [← hc.answers, h.derived]
    exact nofun

/-- A member's copy gives the vault key. -/
theorem vaultKey_runs (hb64 : base64.Strict) {key : VaultKey B} {keypair : UserKeypair B}
    {copy : WrapRow T} (h : D.Copy base64 key keypair.publicKeys copy)
    (hissued : keypair = P.keypairOf keypair.ed25519PrivateSeed) :
    D.Runs P (vaultKeyFlow base64 copy keypair) (fun k D' => D' = D ∧ k = key)
      fun _ => False := by
  obtain ⟨wrapped, rfl, hlen, hmem⟩ := h
  have hread : WrappedVaultKey.fromBase64 base64 (wrapped.row base64).encryptedVaultKeyB64
      (wrapped.row base64).ephPubKeyB64 (wrapped.row base64).mlkemCiphertextB64 = .ok wrapped :=
    (WrappedVaultKey.fromBase64_decides hb64 _ _ _).eq_ok ⟨rfl, rfl, rfl, hlen⟩
  refine .lift_bind hread (.of_call _ ?_ ?_)
  · intro k hk
    have hopen := (hk.ledger key).2 hissued hmem
    exact ⟨rfl, Outcome.ok.inj hopen⟩
  · intro e he
    cases (he.ledger key).2 hissued hmem

/-- A failure to seal a key for a member. -/
def WrapFails (P : Crates B) (e : Option CryptoError) : Prop := ∃ c, e = some c ∧ P.WrapRefused c

theorem wrapCall_runs (base64 : Codec (List B) T) (key : VaultKey B) {keys : UserPublicKeys B}
    (hkeys : ∃ seed, keys = (P.keypairOf seed).publicKeys) :
    D.Runs P (Flow.call (.wrapVaultKeyForUser key keys))
      (fun wrapped D' => D'.Copy base64 key keys (wrapped.row base64)) (WrapFails P) := by
  refine .of_call _ ?_ ?_
  · intro wrapped hwrapped
    exact ⟨wrapped, rfl, hwrapped.answers.2, Set.mem_insert _ _⟩
  · intro c hc
    obtain ⟨seed, rfl⟩ := hkeys
    exact ⟨c, rfl, (hc.refused c rfl).imp_right fun hweak => ⟨hweak.1, seed, hweak.2⟩⟩

theorem wrap_runs (hb64 : base64.Strict) (key : VaultKey B) {keys : UserPublicKeys B}
    {row : AccountRow T} (h : row.Publishes base64 keys)
    (hkeys : ∃ seed, keys = (P.keypairOf seed).publicKeys) :
    D.Runs P (wrapFlow base64 key row) (fun copy D' => D'.Copy base64 key keys copy)
      (WrapFails P) := by
  have hread : UserPublicKeys.fromBase64 base64 row.x25519B64 row.mlkemB64 = .ok keys :=
    (UserPublicKeys.fromBase64_decides hb64 _ _).eq_ok h
  refine .lift_bind hread (.bind (wrapCall_runs base64 key hkeys) ?_)
  intro wrapped D' hleads hcopy
  exact .pure hleads.oneMeaning hcopy

/-- What the old key opened on one desk, the new key opens on the next. -/
def Desk.Moved (D : Desk B) (vaultId : String) (oldKey newKey : VaultKey B) (D' : Desk B)
    (old : EncryptedBlob B × ℕ) (fresh : EncryptedBlob B) : Prop :=
  ∀ p, ⟨oldKey, vaultAad vaultId (versionNum old.2), p, old.1⟩ ∈ D.ledger.vaults →
    ⟨newKey, vaultAad vaultId (versionNum old.2), p, fresh⟩ ∈ D'.ledger.vaults

/-- Every version that the old key opens is moved, and opens under the new key. -/
theorem rekey_runs {vaultId : String} {oldKey newKey : VaultKey B}
    {blobs : List (EncryptedBlob B)} (hone : D.ledger.OneMeaning)
    (hsealed : ∀ blob i, (blob, i) ∈ blobs.zipIdx → ∃ p,
      ⟨oldKey, vaultAad vaultId (versionNum i), p, blob⟩ ∈ D.ledger.vaults) :
    D.Runs P (rekeyFlow vaultId oldKey newKey blobs)
      (fun fresh D' => List.Forall₂ (D.Moved vaultId oldKey newKey D') blobs.zipIdx fresh)
      fun _ => False := by
  refine .traverse ?_ hone ?_
  · intro D₁ D₂ old fresh hleads hmoved p hp
    exact hleads.vaults (hmoved p hp)
  · rintro ⟨blob, i⟩ hmem D₁ hleads
    obtain ⟨p, hp⟩ := hsealed blob i hmem
    refine .of_call _ ?_ ?_
    · intro fresh _ q hq
      exact .inr ⟨rfl, rfl, rfl, hleads.vaults hq⟩
    · intro e he
      obtain ⟨fresh, hok⟩ := he.ledger.mpr ⟨p, hleads.vaults hp⟩
      cases hok

/-- A copy for a member, found by the public keys in the member's row. -/
def Desk.CopyFor (base64 : Codec (List B) T) (newKey : VaultKey B) (D : Desk B)
    (member : String × AccountRow T) (wrap : String × WrapRow T) : Prop :=
  wrap.1 = member.1 ∧ ∃ keys, member.2.Publishes base64 keys ∧ D.Copy base64 newKey keys wrap.2

/-- Each member that stays gets a copy of the new key. -/
theorem rewrap_runs (hb64 : base64.Strict) (newKey : VaultKey B)
    {members : List (String × AccountRow T)} (hone : D.ledger.OneMeaning)
    (hkeys : ∀ member ∈ members, ∃ keys : UserPublicKeys B, member.2.Publishes base64 keys ∧
      ∃ seed, keys = (P.keypairOf seed).publicKeys) :
    D.Runs P (rewrapFlow base64 newKey members)
      (fun wraps D' => List.Forall₂ (Desk.CopyFor base64 newKey D') members wraps)
      (WrapFails P) := by
  refine .traverse ?_ hone ?_
  · rintro D₁ D₂ member wrap hleads ⟨hname, keys, hpublic, hcopy⟩
    exact ⟨hname, keys, hpublic, hcopy.mono hleads.toGrows⟩
  · rintro ⟨name, row⟩ hmem D₁ -
    obtain ⟨keys, hpublic, hown⟩ := hkeys _ hmem
    refine .bind (wrap_runs hb64 newKey hpublic hown) ?_
    intro copy D₂ hleads hcopy
    exact .pure hleads.oneMeaning ⟨rfl, keys, hpublic, hcopy⟩

/-- Registration leaves a row that holds the account. -/
theorem register_runs (hb64 : base64.Strict) (email : String) (password : List B) :
    D.Runs P (registerFlow base64 hex email password)
      (fun row D' => ∃ salt keypair masterKey enc,
        saltFromBase64 base64 row.argon2SaltB64 = .ok salt ∧
        Account.Held P base64 D' ⟨password, salt⟩ row keypair masterKey enc)
      fun e => ∃ c, e = some c ∧ P.RegistrationRefused password c := by
  have hsalt : ∀ {D : Desk B} {e : CryptoError}, ¬ D.Allows P .generateSalt (.err e) :=
    fun h => h.within.elim id id
  refine .call_bind ?_ fun _ he => (hsalt he).elim
  intro argon2Salt _
  refine .call_bind ?_ fun _ he => (hsalt he).elim
  intro srpSalt _
  refine .call_bind ?_ ?_
  · intro mk hmk
    refine .call_bind ?_ ?_
    · intro kp hkp
      obtain ⟨seed, hseed⟩ := hkp.answers
      cases hseed
      refine .call_bind ?_ ?_
      · intro enc henc
        have hlen : enc.ciphertext.length = VAULT_KEY_LEN + TAG_LEN :=
          Nat.add_left_cancel (henc.answers.trans (Nat.add_assoc _ _ _))
        refine .call_bind ?_ ?_
        · intro pw _
          refine .call_bind ?_ ?_
          · intro verifier hverifier
            refine .pure hverifier.oneMeaning ⟨argon2Salt, P.keypairOf seed, mk, enc, ?_, ?_⟩
            · exact (saltFromBase64_decides hb64 _).eq_ok rfl
            · exact {
                derived := hmk.answers.symm
                salt := rfl
                sealed := rfl
                length := by
                  rw [hlen]
                  exact Nat.le_add_left _ _
                onRecord := Set.mem_insert _ _
                issued := rfl
                publishes := ⟨rfl, rfl⟩ }
          · intro c hc
            obtain ⟨v, hv, -⟩ := hc.answers
            cases hv
        · intro c hc
          exact ⟨c, rfl, .inr ⟨srpSalt, .inr (hc.refused c rfl)⟩⟩
      · intro c hc
        exact ⟨c, rfl, .inl (hc.refused c rfl)⟩
    · intro c hc
      obtain ⟨seed, hseed⟩ := hc.answers
      cases hseed
  · intro c hc
    exact ⟨c, rfl, .inr ⟨argon2Salt, .inl (hc.refused c rfl)⟩⟩

/-! ## Rows that hold a store -/

/-- The row of a vault: a copy of its key for each member, a blob for each version. -/
structure TeamVault.Held (base64 : Codec (List B) T) (accounts : String → Option (AccountRow T))
    (D : Desk B) (vaultId : String) (v : TeamVault B) (row : VaultRow B T) : Prop where
  members : row.wraps.map Prod.fst = v.members
  copies : ∀ wrap ∈ row.wraps, ∃ account, accounts wrap.1 = some account ∧
    D.CopyFor base64 v.key (wrap.1, account) wrap
  contents : ∀ i, Option.Rel
    (fun p blob => ⟨v.key, vaultAad vaultId (versionNum i), p, blob⟩ ∈ D.ledger.vaults)
    v.contents[i]? row.blobs[i]?

structure TeamStore.Held (P : Crates B) (base64 : Codec (List B) T) (m : TeamStore B)
    (db : Db B T) (D : Desk B) : Prop where
  accounts : ∀ email, Option.Rel
    (fun a row => ∃ keypair masterKey enc, Account.Held P base64 D a row keypair masterKey enc)
    (m.accounts email) (db.accounts email)
  vaults : ∀ vaultId, Option.Rel (TeamVault.Held base64 db.accounts D vaultId)
    (m.vaults vaultId) (db.vaults vaultId)
  issued : m.issued ⊆ D.drawn
  oneMeaning : D.ledger.OneMeaning

variable {D' : Desk B}

theorem Account.Held.mono {a : Account B} {row : AccountRow T} {keypair : UserKeypair B}
    {masterKey : MasterKey B} {enc : EncryptedPrivateKey B}
    (h : a.Held P base64 D row keypair masterKey enc) (hgrows : D.Grows D') :
    a.Held P base64 D' row keypair masterKey enc :=
  { h with onRecord := hgrows.keys h.onRecord }

omit [Byte B] in
theorem Desk.CopyFor.mono {key : VaultKey B} {member : String × AccountRow T}
    {wrap : String × WrapRow T} (h : D.CopyFor base64 key member wrap) (hgrows : D.Grows D') :
    D'.CopyFor base64 key member wrap := by
  obtain ⟨hname, keys, hpublic, hcopy⟩ := h
  exact ⟨hname, keys, hpublic, hcopy.mono hgrows⟩

theorem TeamVault.Held.mono {accounts : String → Option (AccountRow T)} {vaultId : String}
    {v : TeamVault B} {row : VaultRow B T} (h : v.Held base64 accounts D vaultId row)
    (hgrows : D.Grows D') : v.Held base64 accounts D' vaultId row where
  members := h.members
  copies wrap hwrap := by
    obtain ⟨account, haccount, hcopy⟩ := h.copies wrap hwrap
    exact ⟨account, haccount, hcopy.mono hgrows⟩
  contents i := optionRel_mono (fun _ _ hmem => hgrows.vaults hmem) (h.contents i)

theorem TeamVault.Held.addAccount {accounts : String → Option (AccountRow T)} {vaultId : String}
    {v : TeamVault B} {row : VaultRow B T} (h : v.Held base64 accounts D vaultId row)
    {email : String} (hnew : accounts email = none) (account : AccountRow T) :
    v.Held base64 (Function.update accounts email (some account)) D vaultId row where
  members := h.members
  copies wrap hwrap := by
    obtain ⟨a, ha, hcopy⟩ := h.copies wrap hwrap
    refine ⟨a, ?_, hcopy⟩
    rw [Function.update_of_ne]
    · exact ha
    · intro heq
      rw [heq, hnew] at ha
      cases ha
  contents := h.contents

/-- The key of a vault opens every version of it, and no other key opens any. -/
theorem TeamVault.Held.open_runs {accounts : String → Option (AccountRow T)} {vaultId : String}
    {v : TeamVault B} {row : VaultRow B T} (h : v.Held base64 accounts D vaultId row)
    (hone : D.ledger.OneMeaning) (key : VaultKey B) {index : ℕ} {blob : EncryptedBlob B}
    (hblob : row.blobs[index]? = some blob) :
    D.Runs P (Flow.call (.decryptVault blob key (vaultAad vaultId (versionNum index))))
      (fun p D' => D' = D ∧ key = v.key ∧ v.contents[index]? = some p)
      fun e => (∃ c, e = some c) ∧ key ≠ v.key := by
  have hcontents := h.contents index
  rw [hblob] at hcontents
  obtain ⟨p, hp, hsealed⟩ := exists_of_optionRel_some_right hcontents
  refine .of_call _ ?_ ?_
  · intro q hq
    have hentry := (hq.ledger q).mp rfl
    cases hone.vaults _ hentry _ hsealed rfl
    exact ⟨rfl, rfl, hp⟩
  · intro c hc
    refine ⟨⟨c, rfl⟩, ?_⟩
    rintro rfl
    cases (hc.ledger p).mpr hsealed

namespace TeamStore.Held
variable {m : TeamStore B} {db : Db B T}

theorem empty : TeamStore.empty.Held P base64 (Db.empty : Db B T) Desk.empty where
  accounts _ := .none
  vaults _ := .none
  issued := subset_rfl
  oneMeaning := ⟨nofun, nofun⟩

theorem mono (h : m.Held P base64 db D) (hleads : D.Leads D') : m.Held P base64 db D' where
  accounts email := by
    refine optionRel_mono ?_ (h.accounts email)
    rintro a row ⟨keypair, masterKey, enc, ha⟩
    exact ⟨keypair, masterKey, enc, ha.mono hleads.toGrows⟩
  vaults vaultId := optionRel_mono (fun _ _ hv => hv.mono hleads.toGrows) (h.vaults vaultId)
  issued := h.issued.trans hleads.drawn
  oneMeaning := hleads.oneMeaning

theorem putAccount (h : m.Held P base64 db D) {email : String} (hnew : db.accounts email = none)
    {a : Account B} {row : AccountRow T} {keypair : UserKeypair B} {masterKey : MasterKey B}
    {enc : EncryptedPrivateKey B} (ha : a.Held P base64 D row keypair masterKey enc) :
    (m.addAccount email a).Held P base64 (db.putAccount email row) D where
  accounts other := by
    by_cases hother : other = email
    · subst hother
      simp only [addAccount, Db.putAccount, Function.update_self]
      exact .some ⟨keypair, masterKey, enc, ha⟩
    · simp only [addAccount, Db.putAccount, Function.update_of_ne hother]
      exact h.accounts other
  vaults vaultId := optionRel_mono (fun _ _ hv => hv.addAccount hnew row) (h.vaults vaultId)
  issued := h.issued
  oneMeaning := h.oneMeaning

theorem putVault (h : m.Held P base64 db D) {vaultId : String} {v : TeamVault B}
    {row : VaultRow B T} (hv : v.Held base64 db.accounts D vaultId row) {m' : TeamStore B}
    (haccounts : m'.accounts = m.accounts) (hissued : m'.issued ⊆ D.drawn)
    (hvaults : m'.vaults = Function.update m.vaults vaultId (some v)) :
    m'.Held P base64 (db.putVault vaultId row) D where
  accounts email := by
    rw [haccounts]
    exact h.accounts email
  vaults other := by
    rw [hvaults]
    by_cases hother : other = vaultId
    · subst hother
      simp only [Db.putVault, Function.update_self]
      exact .some hv
    · simp only [Db.putVault, Function.update_of_ne hother]
      exact h.vaults other
  issued := hissued
  oneMeaning := h.oneMeaning

end TeamStore.Held

end EvnxCrypto
