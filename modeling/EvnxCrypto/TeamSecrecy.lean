import EvnxCrypto.Identity
import EvnxCrypto.ServedFlows
import EvnxCrypto.TeamRefinement
import EvnxCrypto.Transport

/-!
# What the database of a team reveals

The flows of a team play by the rules of clients of an active server, and every
string that a row ever holds is one that such clients have sent. So whoever keeps
every row that was ever stored learns no vault key, no password and no plaintext.
-/
namespace EvnxCrypto
open Effect ByteString AuthenticatedEncryption Symbolic Classical

variable {T : Type}

/-! ## The strings in the rows -/

section
variable {B : Type} (base64 hex : Codec (List B) T)

/-- The strings that the texts of an account stand for. -/
def AccountRow.strings (row : AccountRow T) : Set (List B) :=
  {x | hex.decode row.verifierHex = some x ∨ ∃ t ∈ [row.srpSaltB64, row.argon2SaltB64,
    row.ed25519B64, row.x25519B64, row.mlkemB64, row.encryptedPrivateKeyB64],
    base64.decode t = some x}

def WrapRow.strings (wrap : WrapRow T) : Set (List B) :=
  {x | ∃ t ∈ [wrap.encryptedVaultKeyB64, wrap.ephPubKeyB64, wrap.mlkemCiphertextB64],
    base64.decode t = some x}

def VaultRow.strings (vault : VaultRow B T) : Set (List B) :=
  {x | (∃ wrap ∈ vault.wraps, x ∈ wrap.2.strings base64) ∨ ∃ blob ∈ vault.blobs, x ∈ blob.fields}

def Db.strings (db : Db B T) : Set (List B) :=
  {x | (∃ email row, db.accounts email = some row ∧ x ∈ row.strings base64 hex) ∨
    ∃ vaultId vault, db.vaults vaultId = some vault ∧ x ∈ vault.strings base64}

end

variable {base64 hex : Codec SString T} {S : SrpClient SByte} {s s' : ServedClients}

/-- The row of an account whose key pair is some client's. -/
structure AccountRow.Served (base64 hex : Codec SString T) (s : ServedClients)
    (row : AccountRow T) : Prop where
  strings : ∀ x ∈ row.strings base64 hex, s.Computes x
  published : ∃ keypair ∈ s.keypairs, row.Publishes base64 keypair.publicKeys

/-- A copy that opens to nothing but keys that clients drew. -/
structure WrapRow.Served (base64 : Codec SString T) (s : ServedClients) (wrap : WrapRow T) :
    Prop where
  strings : ∀ x ∈ wrap.strings base64, s.Computes x
  drawn : ∀ wrapped, WrappedVaultKey.fromBase64 base64 wrap.encryptedVaultKeyB64
      wrap.ephPubKeyB64 wrap.mlkemCiphertextB64 = .ok wrapped →
    ∀ keypair key w w', unwrapVaultKey symbolicCrates wrapped keypair w = (.ok key, w') → key.Drawn

structure VaultRow.Served (base64 : Codec SString T) (s : ServedClients)
    (vault : VaultRow SByte T) : Prop where
  wraps : ∀ wrap ∈ vault.wraps, wrap.2.Served base64 s
  blobs : ∀ blob ∈ vault.blobs, ∀ x ∈ blob.fields, s.Computes x

structure Db.Served (base64 hex : Codec SString T) (s : ServedClients) (db : Db SByte T) :
    Prop where
  accounts : ∀ email row, db.accounts email = some row → row.Served base64 hex s
  vaults : ∀ vaultId vault, db.vaults vaultId = some vault → vault.Served base64 s

theorem AccountRow.Served.mono {row : AccountRow T} (h : row.Served base64 hex s)
    (hgrows : s.Grows s') : row.Served base64 hex s' where
  strings x hx := hgrows.computes (h.strings x hx)
  published := by
    obtain ⟨keypair, hkeypair, hpublished⟩ := h.published
    exact ⟨keypair, hgrows.keypairs hkeypair, hpublished⟩

theorem WrapRow.Served.mono {wrap : WrapRow T} (h : wrap.Served base64 s)
    (hgrows : s.Grows s') : wrap.Served base64 s' where
  strings x hx := hgrows.computes (h.strings x hx)
  drawn := h.drawn

theorem VaultRow.Served.mono {vault : VaultRow SByte T} (h : vault.Served base64 s)
    (hgrows : s.Grows s') : vault.Served base64 s' where
  wraps wrap hwrap := (h.wraps wrap hwrap).mono hgrows
  blobs blob hblob x hx := hgrows.computes (h.blobs blob hblob x hx)

namespace Db.Served
variable {db : Db SByte T}

theorem empty : Db.empty.Served base64 hex s where
  accounts _ _ h := by cases h
  vaults _ _ h := by cases h

theorem mono (h : db.Served base64 hex s) (hgrows : s.Grows s') : db.Served base64 hex s' where
  accounts email row hrow := (h.accounts email row hrow).mono hgrows
  vaults vaultId vault hvault := (h.vaults vaultId vault hvault).mono hgrows

theorem putAccount (h : db.Served base64 hex s) {row : AccountRow T}
    (hrow : row.Served base64 hex s) (email : String) :
    (db.putAccount email row).Served base64 hex s where
  accounts other found hfound := by
    by_cases hother : other = email
    · subst hother
      simp only [Db.putAccount, Function.update_self, Option.some.injEq] at hfound
      rw [← hfound]
      exact hrow
    · simp only [Db.putAccount, Function.update_of_ne hother] at hfound
      exact h.accounts other found hfound
  vaults := h.vaults

theorem putVault (h : db.Served base64 hex s) {vault : VaultRow SByte T}
    (hvault : vault.Served base64 s) (vaultId : String) :
    (db.putVault vaultId vault).Served base64 hex s where
  accounts := h.accounts
  vaults other found hfound := by
    by_cases hother : other = vaultId
    · subst hother
      simp only [Db.putVault, Function.update_self, Option.some.injEq] at hfound
      rw [← hfound]
      exact hvault
    · simp only [Db.putVault, Function.update_of_ne hother] at hfound
      exact h.vaults other found hfound

theorem strings (h : db.Served base64 hex s) : ∀ x ∈ db.strings base64 hex, s.Computes x := by
  intro x hx
  rcases hx with ⟨email, row, hrow, hx⟩ | ⟨vaultId, vault, hvault, hx⟩
  · exact (h.accounts email row hrow).strings x hx
  · rcases hx with ⟨wrap, hwrap, hx⟩ | ⟨blob, hblob, hx⟩
    · exact ((h.vaults vaultId vault hvault).wraps wrap hwrap).strings x hx
    · exact (h.vaults vaultId vault hvault).blobs blob hblob x hx

end Db.Served

/-! ## Specifications of the flows -/

theorem computes_vaultAad (s : ServedClients) (vaultId : String) (version : UInt32) :
    s.Computes (vaultAad vaultId version) :=
  (((Derivable.asBytes _).append (.lits _)).append (.lits _)).append (.lits _)

theorem computes_encrypted {enc : EncryptedPrivateKey SByte}
    (h : s.Computes (enc.nonce.toList ++ enc.ciphertext)) : ∀ x ∈ enc.fields, s.Computes x := by
  have hlen := enc.nonce.toList_length
  have hnonce := h.take XCHACHA_NONCE_LEN
  have hct := h.drop XCHACHA_NONCE_LEN
  rw [take_append_of_length hlen] at hnonce
  rw [drop_append_of_length hlen] at hct
  exact List.forall_mem_cons.mpr ⟨hnonce, List.forall_mem_singleton.mpr hct⟩

section
variable (hb64 : base64.Strict)
include hb64

theorem eq_of_text {x y : SString} (h : base64.decode (b64Encode base64 y) = some x) : x = y := by
  rw [b64Encode, hb64.roundTrips] at h
  exact (Option.some.inj h).symm

theorem computes_text {x y : SString} (hy : s.Computes y)
    (h : base64.decode (b64Encode base64 y) = some x) : s.Computes x := by
  rw [eq_of_text hb64 h]
  exact hy

theorem WrappedVaultKey.row_strings (wrapped : WrappedVaultKey SByte) {x : SString}
    (hx : x ∈ (wrapped.row base64).strings base64) : x ∈ wrapped.fields := by
  rcases hx with ⟨t, ht, hdecode⟩
  simp only [List.mem_cons, List.not_mem_nil, or_false] at ht
  rcases ht with rfl | rfl | rfl
  · rw [eq_of_text hb64 hdecode]
    simp [WrappedVaultKey.fields]
  · rw [eq_of_text hb64 hdecode]
    simp [WrappedVaultKey.fields]
  · rw [eq_of_text hb64 hdecode]
    simp [WrappedVaultKey.fields]

theorem unlock_plays {row : AccountRow T} (hrow : row.Served base64 hex s) {password : SString}
    (hpassword : password ∈ passwords) :
    s.Plays S (unlockFlow base64 row password) fun keypair s' => keypair ∈ s'.keypairs := by
  refine .lift_bind fun enc henc => .lift_bind fun salt hsalt => ?_
  have hencText := (((EncryptedPrivateKey.fromBase64_decides hb64 _).ok_iff enc).mp henc).1
  have hsaltText := ((saltFromBase64_decides hb64 _).ok_iff salt).mp hsalt
  have hfields := computes_encrypted (hrow.strings _ (.inr ⟨_, by simp, (hb64 _ _).mpr hencText⟩))
  have hsalt' := hrow.strings _ (.inr ⟨_, by simp, (hb64 _ _).mpr hsaltText⟩)
  refine .masterKey_bind hpassword hsalt' ?_
  intro masterKey s₁ hleads hmaster
  refine .of_call ⟨fun x hx => hleads.grows.computes (hfields x hx), hmaster⟩ ?_
  exact fun keypair w _ => List.mem_cons_self

theorem vaultKey_plays {wrap : WrapRow T} (hwrap : wrap.Served base64 s)
    {keypair : UserKeypair SByte} (hkeypair : keypair ∈ s.keypairs) :
    s.Plays S (vaultKeyFlow base64 wrap keypair) fun key s' => key ∈ s'.vaultKeys := by
  refine .lift_bind fun wrapped hread => ?_
  obtain ⟨he, hp, hc, -⟩ :=
    ((WrappedVaultKey.fromBase64_decides hb64 _ _ _).ok_iff wrapped).mp hread
  have heph := hwrap.strings _ ⟨_, by simp, (hb64 _ _).mpr hp⟩
  have hkem := hwrap.strings _ ⟨_, by simp, (hb64 _ _).mpr hc⟩
  have hsealed := hwrap.strings _ ⟨_, by simp, (hb64 _ _).mpr he⟩
  have hfields : ∀ x ∈ wrapped.fields, s.Computes x := List.forall_mem_cons.mpr
    ⟨heph, List.forall_mem_cons.mpr ⟨hkem, List.forall_mem_singleton.mpr hsealed⟩⟩
  refine .of_call ⟨hfields, hkeypair⟩ ?_
  intro key w hcall
  have hdrawn := hwrap.drawn wrapped hread keypair key _ _ hcall
  change key ∈ (s.takeOver key).vaultKeys
  rw [ServedClients.takeOver, if_pos hdrawn]
  exact List.mem_cons_self

omit hb64 in
/-- A wrap holds one key, whoever opens it. -/
theorem unwrapped_eq {key key' : VaultKey SByte} {recipient : UserPublicKeys SByte}
    {keypair : UserKeypair SByte} {wrapped : WrappedVaultKey SByte}
    {w w' u u' : World symbolicCrates}
    (hwrap : wrapVaultKeyForUser symbolicCrates key recipient w = (.ok wrapped, w'))
    (hunwrap : unwrapVaultKey symbolicCrates wrapped keypair u = (.ok key', u')) : key' = key := by
  obtain ⟨-, ct, henc, rfl, -⟩ := wrapVaultKeyForUser_eq_ok.mp hwrap
  obtain ⟨-, ss, -, -, -, hopen⟩ := unwrapVaultKey_eq_ok.mp hunwrap
  simp only [Crates.wrapOf, drop_append_of_length w.wrapCoins.nonce.toList_length] at hopen
  have henc' := symbolicAead_decrypt_eq_some.mp hopen
  have hmsg := (sealed_inj (Option.some.inj (henc'.trans henc.symm))).2.2.2
  exact congrArg VaultKey.mk (List.Vector.toList_injective hmsg)

/-- A copy of a drawn key for a key pair that some client holds. -/
theorem wrapCall_plays (hs : s.Guarded) {key : VaultKey SByte} (hkey : key ∈ s.vaultKeys)
    {keypair : UserKeypair SByte} (hkeypair : keypair ∈ s.keypairs) :
    s.Plays S (Flow.call (.wrapVaultKeyForUser key keypair.publicKeys))
      fun wrapped s' => (wrapped.row base64).Served base64 s' := by
  refine .of_call (.inl ⟨.inl hkey, keypair, hkeypair, rfl⟩) ?_
  intro wrapped w hcall
  constructor
  · intro x hx
    exact .known (List.mem_append_left _ (wrapped.row_strings hb64 hx))
  · intro wrapped' hread keypair' key' u u' hunwrap
    have hlen := wrapVaultKeyForUser_mlkem_length hcall
    have hsame := (WrappedVaultKey.fromBase64_decides hb64 _ _ _).eq_ok (a := wrapped)
      ⟨rfl, rfl, rfl, hlen⟩
    rw [Outcome.ok.inj (hread.symm.trans hsame)] at hunwrap
    rw [unwrapped_eq hcall hunwrap]
    exact hs.vaultKeys key hkey

theorem wrap_plays (hs : s.Guarded) {key : VaultKey SByte} (hkey : key ∈ s.vaultKeys)
    {row : AccountRow T} (hrow : row.Served base64 hex s) :
    s.Plays S (wrapFlow base64 key row) fun copy s' => copy.Served base64 s' := by
  obtain ⟨keypair, hkeypair, hpublished⟩ := hrow.published
  refine .lift_bind fun keys hread => ?_
  have hkeys := (UserPublicKeys.fromBase64_decides hb64 _ _).eq_ok hpublished
  rw [Outcome.ok.inj (hread.symm.trans hkeys)]
  refine (wrapCall_plays hb64 hs hkey hkeypair).bind ?_
  exact fun wrapped s' _ hwrapped => .pure hwrapped

omit hb64 in
theorem rekey_plays {vaultId : String} {oldKey newKey : VaultKey SByte}
    (hold : oldKey ∈ s.vaultKeys) (hnew : newKey ∈ s.vaultKeys)
    {blobs : List (EncryptedBlob SByte)}
    (hblobs : ∀ blob ∈ blobs, ∀ x ∈ blob.fields, s.Computes x) :
    s.Plays S (rekeyFlow vaultId oldKey newKey blobs) fun fresh s' =>
      List.Forall₂ (fun _ blob => ∀ x ∈ blob.fields, s'.Computes x) blobs.zipIdx fresh := by
  refine .traverse ?_ ?_
  · intro s₁ s₂ _ blob hleads hblob x hx
    exact hleads.grows.computes (hblob x hx)
  · intro item hitem s₁ hleads
    have hmem : item.1 ∈ blobs := List.fst_mem_of_mem_zipIdx hitem
    refine .of_call ⟨computes_vaultAad _ _ _,
      fun x hx => hleads.grows.computes (hblobs item.1 hmem x hx),
      .inl (hleads.grows.vaultKeys hold), .inl (hleads.grows.vaultKeys hnew)⟩ ?_
    exact fun fresh w _ x hx => .known (List.mem_append_left _ hx)

theorem rewrap_plays (hs : s.Guarded) {key : VaultKey SByte} (hkey : key ∈ s.vaultKeys)
    {members : List (String × AccountRow T)}
    (hmembers : ∀ member ∈ members, member.2.Served base64 hex s) :
    s.Plays S (rewrapFlow base64 key members) fun wraps s' =>
      List.Forall₂ (fun _ wrap => wrap.2.Served base64 s') members wraps := by
  refine .traverse ?_ ?_
  · exact fun s₁ s₂ _ wrap hleads hwrap => hwrap.mono hleads.grows
  · intro member hmember s₁ hleads
    have hrow := (hmembers member hmember).mono hleads.grows
    refine (wrap_plays hb64 (hleads.guarded hs) (hleads.grows.vaultKeys hkey) hrow).bind ?_
    exact fun copy s₂ _ hcopy => .pure hcopy

theorem register_plays (hhex : hex.RoundTrips) (email : String) {password : SString}
    (hpassword : password ∈ passwords) :
    s.Plays S (registerFlow base64 hex email password) fun row s' =>
      row.Served base64 hex s' := by
  refine .salt_bind ?_
  intro argon2Salt s₁ _ hargon2
  refine .salt_bind ?_
  intro srpSalt s₂ h₂ hsrp
  refine .masterKey_bind hpassword (.known (h₂.grows.sent hargon2)) ?_
  intro masterKey s₃ h₃ hmaster
  refine .call_bind trivial ?_
  intro keypair w₄ _ s₄ hs₄ h₄
  have hkeypair : keypair ∈ s₄.keypairs := by
    rw [hs₄]
    exact List.mem_cons_self
  have hpublic : ∀ x ∈ keypair.ed25519Public.bytes.toList :: keypair.publicKeys.fields,
      x ∈ s₄.sent := by
    rw [hs₄]
    exact fun x hx => List.mem_append_left _ hx
  refine .call_bind ⟨hkeypair, h₄.grows.masterKeys hmaster⟩ ?_
  intro enc w₅ _ s₅ hs₅ h₅
  have henc : ∀ x ∈ enc.fields, x ∈ s₅.sent := by
    rw [hs₅]
    exact fun x hx => List.mem_append_left _ hx
  refine .call_bind trivial ?_
  intro srpPassword w₆ hderive s₆ hs₆ h₆
  have hsalt : s₆.Computes srpSalt.toList := .known
    (((h₃.grows.trans h₄.grows).trans (h₅.grows.trans h₆.grows)).sent hsrp)
  refine .call_bind ⟨hsalt, password, hpassword, congrArg Prod.fst hderive⟩ ?_
  intro verifier w₇ _ s₇ hs₇ h₇
  have hverifier : ∀ x ∈ [verifier.verifier, verifier.srpSalt.toList], x ∈ s₇.sent := by
    rw [hs₇]
    exact fun x hx => List.mem_append_left _ hx
  refine .pure ⟨?_, keypair, ?_, rfl, rfl⟩
  · have h₅₇ := h₆.grows.trans h₇.grows
    have h₄₇ := h₅.grows.trans h₅₇
    have h₂₇ := (h₃.grows.trans h₄.grows).trans h₄₇
    intro x hx
    rcases hx with hx | ⟨t, ht, hdecode⟩
    · simp only [SrpVerifier.verifierHex, hhex _, Option.some.injEq] at hx
      rw [← hx]
      exact .known (hverifier _ (by simp))
    simp only [List.mem_cons, List.not_mem_nil, or_false] at ht
    rcases ht with rfl | rfl | rfl | rfl | rfl | rfl
    · exact computes_text hb64 (.known (hverifier _ (by simp))) hdecode
    · exact computes_text hb64 (.known (h₂₇.sent (h₂.grows.sent hargon2))) hdecode
    · exact computes_text hb64 (.known (h₄₇.sent (hpublic _ (by simp)))) hdecode
    · exact computes_text hb64 (.known (h₄₇.sent (hpublic _
        (by simp [UserPublicKeys.fields, UserKeypair.publicKeys])))) hdecode
    · exact computes_text hb64 (.known (h₄₇.sent (hpublic _
        (by simp [UserPublicKeys.fields, UserKeypair.publicKeys])))) hdecode
    · exact computes_text hb64 (.append
        (.known (h₅₇.sent (henc _ (by simp [EncryptedPrivateKey.fields]))))
        (.known (h₅₇.sent (henc _ (by simp [EncryptedPrivateKey.fields]))))) hdecode
  · exact ((h₅.grows.trans h₆.grows).trans h₇.grows).keypairs hkeypair

/-! ## One call of a team -/

/-- Passwords and plaintexts are the users' own. -/
def TeamCall.Own : {β : Type} → TeamCall SByte T β → Prop
  | _, .register _ password | _, .createVault _ password _ | _, .vaultKey _ password _
  | _, .pull _ password _ _ | _, .share _ password _ _ | _, .rekey _ password _ _ =>
      password ∈ passwords
  | _, .push _ password _ plaintext => password ∈ passwords ∧ OwnData plaintext
  | _, .tryKey .. => True

/-- Rows that hold what was sent, and keys that clients hold. -/
def TeamCall.Leaves (base64 hex : Codec SString T) {β : Type} (call : TeamCall SByte T β)
    (r : β × Db SByte T) (s : ServedClients) : Prop :=
  r.2.Served base64 hex s ∧ ∀ key, call.Gives (.ok r.1) key → key ∈ s.vaultKeys

section
variable {β : Type} {db : Db SByte T} (hdb : db.Served base64 hex s) {email vaultId : String}
  {password : SString} (hpassword : password ∈ passwords)
include hdb hpassword

theorem access_plays {row : AccountRow T} {vault : VaultRow SByte T} {wrap : WrapRow T}
    (hrows : db.membership email vaultId = some (row, vault, wrap))
    {f : VaultKey SByte → ClientFlow SByte β} {done : β → ServedClients → Prop}
    (hf : ∀ key s', ServedClients.Leads S s s' → key ∈ s'.vaultKeys → s'.Plays S (f key) done) :
    s.Plays S (do
      let keypair ← unlockFlow base64 row password
      let key ← vaultKeyFlow base64 wrap keypair
      f key) done := by
  obtain ⟨hrow, hvault, hlookup⟩ := Db.membership_eq_some.mp hrows
  obtain ⟨before, after, hwraps, -⟩ := List.lookup_eq_some_iff.mp hlookup
  have hmem : (email, wrap) ∈ vault.wraps := by
    rw [hwraps]
    exact List.mem_append_right _ List.mem_cons_self
  have hwrap := (hdb.vaults vaultId vault hvault).wraps _ hmem
  refine (unlock_plays hb64 (hdb.accounts email row hrow) hpassword).bind ?_
  intro keypair s₁ h₁ hkeypair
  refine (vaultKey_plays hb64 (hwrap.mono h₁.grows) hkeypair).bind ?_
  intro key s₂ h₂ hkey
  exact hf key s₂ (h₁.trans h₂) hkey

theorem serve_vaultKey_plays {flow : ClientFlow SByte (VaultKey SByte × Db SByte T)}
    (hflow : db.serve base64 hex (.vaultKey email password vaultId) = some flow) :
    s.Plays S flow ((TeamCall.vaultKey email password vaultId).Leaves base64 hex) := by
  cases hrows : db.membership email vaultId with
  | none =>
      simp only [Db.serve, hrows] at hflow
      cases hflow
  | some rows =>
      simp only [Db.serve, hrows] at hflow
      cases hflow
      refine access_plays hb64 hdb hpassword hrows ?_
      intro key s' hleads hkey
      refine .pure ⟨hdb.mono hleads.grows, ?_⟩
      intro _ hgives
      cases hgives
      exact hkey

theorem serve_push_plays {plaintext : SString} (hown : OwnData plaintext)
    {flow : ClientFlow SByte (Unit × Db SByte T)}
    (hflow : db.serve base64 hex (.push email password vaultId plaintext) = some flow) :
    s.Plays S flow ((TeamCall.push email password vaultId plaintext).Leaves base64 hex) := by
  cases hrows : db.membership email vaultId with
  | none =>
      simp only [Db.serve, hrows] at hflow
      cases hflow
  | some rows =>
      simp only [Db.serve, hrows] at hflow
      cases hflow
      refine access_plays hb64 hdb hpassword hrows ?_
      intro key s₁ h₁ hkey
      refine .call_bind ⟨computes_vaultAad _ _ _, .inl ⟨hkey, hown⟩⟩ ?_
      intro blob w _ s₂ hs₂ h₂
      have hblob : ∀ x ∈ blob.fields, s₂.Computes x := by
        rw [hs₂]
        exact fun x hx => .known (List.mem_append_left _ hx)
      have hdb₂ := hdb.mono (h₁.trans h₂).grows
      have hvault := hdb₂.vaults vaultId _ (Db.membership_eq_some.mp hrows).2.1
      refine .pure ⟨hdb₂.putVault ?_ vaultId, fun _ h => h.elim⟩
      exact ⟨hvault.wraps,
        List.forall_mem_append.mpr ⟨hvault.blobs, List.forall_mem_singleton.mpr hblob⟩⟩

theorem serve_pull_plays {index : ℕ} {flow : ClientFlow SByte (SString × Db SByte T)}
    (hflow : db.serve base64 hex (.pull email password vaultId index) = some flow) :
    s.Plays S flow ((TeamCall.pull email password vaultId index).Leaves base64 hex) := by
  cases hrows : db.membership email vaultId with
  | none =>
      simp only [Db.serve, hrows] at hflow
      cases hflow
  | some rows =>
      obtain ⟨row, vault, wrap⟩ := rows
      cases hblob : vault.blobs[index]? with
      | none =>
          simp only [Db.serve, hrows, hblob] at hflow
          cases hflow
      | some blob =>
          simp only [Db.serve, hrows, hblob] at hflow
          cases hflow
          refine access_plays hb64 hdb hpassword hrows ?_
          intro key s₁ h₁ hkey
          refine .call_bind trivial ?_
          intro plaintext w _ s₂ _ h₂
          exact .pure ⟨hdb.mono (h₁.trans h₂).grows, fun _ h => h.elim⟩

variable (hs : s.Guarded)
include hs

theorem serve_createVault_plays {flow : ClientFlow SByte (VaultKey SByte × Db SByte T)}
    (hflow : db.serve base64 hex (.createVault email password vaultId) = some flow) :
    s.Plays S flow ((TeamCall.createVault email password vaultId).Leaves base64 hex) := by
  simp only [Db.serve] at hflow
  split at hflow
  · rename_i row hrow _
    cases hflow
    refine (unlock_plays hb64 (hdb.accounts email row hrow) hpassword).bind ?_
    intro keypair s₁ h₁ hkeypair
    refine .draw_bind ?_
    intro key s₂ h₂ hkey
    refine (wrapCall_plays hb64 ((h₁.trans h₂).guarded hs) hkey
      (h₂.grows.keypairs hkeypair)).bind ?_
    intro wrapped s₃ h₃ hwrapped
    have hall := h₁.trans (h₂.trans h₃)
    refine .pure ⟨(hdb.mono hall.grows).putVault ⟨?_, ?_⟩ vaultId, ?_⟩
    · exact List.forall_mem_singleton.mpr hwrapped
    · exact fun _ h => absurd h List.not_mem_nil
    · intro _ hgives
      cases hgives
      exact h₃.grows.vaultKeys hkey
  · cases hflow

theorem serve_share_plays {recipient : String} {flow : ClientFlow SByte (Unit × Db SByte T)}
    (hflow : db.serve base64 hex (.share email password vaultId recipient) = some flow) :
    s.Plays S flow ((TeamCall.share email password vaultId recipient).Leaves base64 hex) := by
  simp only [Db.serve] at hflow
  split at hflow
  · rename_i row vault wrap recipientRow hrows hrecipient
    cases hflow
    refine access_plays hb64 hdb hpassword hrows ?_
    intro key s₁ h₁ hkey
    have hrow := (hdb.accounts recipient recipientRow hrecipient).mono h₁.grows
    refine (wrap_plays hb64 (h₁.guarded hs) hkey hrow).bind ?_
    intro copy s₂ h₂ hcopy
    have hdb₂ := hdb.mono (h₁.trans h₂).grows
    have hvault := hdb₂.vaults vaultId vault (Db.membership_eq_some.mp hrows).2.1
    refine .pure ⟨hdb₂.putVault ?_ vaultId, fun _ h => h.elim⟩
    exact ⟨List.forall_mem_cons.mpr ⟨hcopy, hvault.wraps⟩, hvault.blobs⟩
  · cases hflow

theorem serve_rekey_plays {removed : String}
    {flow : ClientFlow SByte (VaultKey SByte × Db SByte T)}
    (hflow : db.serve base64 hex (.rekey email password vaultId removed) = some flow) :
    s.Plays S flow ((TeamCall.rekey email password vaultId removed).Leaves base64 hex) := by
  cases hrows : db.membership email vaultId with
  | none =>
      simp only [Db.serve, hrows] at hflow
      cases hflow
  | some rows =>
      simp only [Db.serve, hrows] at hflow
      cases hflow
      refine access_plays hb64 hdb hpassword hrows ?_
      intro oldKey s₁ h₁ hold
      refine .draw_bind ?_
      intro newKey s₂ h₂ hnew
      have h₁₂ := h₁.trans h₂
      have hdb₂ := hdb.mono h₁₂.grows
      have hvault := hdb₂.vaults vaultId _ (Db.membership_eq_some.mp hrows).2.1
      refine (rekey_plays (h₂.grows.vaultKeys hold) hnew hvault.blobs).bind ?_
      intro fresh s₃ h₃ hfresh
      have hmembers : ∀ member ∈ db.remaining rows.2.1 removed,
          member.2.Served base64 hex s₃ := by
        intro member hmember
        exact (hdb₂.mono h₃.grows).accounts _ _ (Db.accounts_remaining hmember)
      refine (rewrap_plays hb64 ((h₁₂.trans h₃).guarded hs) (h₃.grows.vaultKeys hnew)
        hmembers).bind ?_
      intro wraps s₄ h₄ hwraps
      refine .pure ⟨(hdb₂.mono (h₃.trans h₄).grows).putVault ⟨?_, ?_⟩ vaultId, ?_⟩
      · intro wrap hwrap
        obtain ⟨member, -, hserved⟩ := exists_mem_of_forall₂ hwraps hwrap
        exact hserved
      · intro blob hblob x hx
        obtain ⟨item, -, hmoved⟩ := exists_mem_of_forall₂ hfresh hblob
        exact h₄.grows.computes (hmoved x hx)
      · intro _ hgives
        cases hgives
        exact (h₃.trans h₄).grows.vaultKeys hnew

end

section
variable {β : Type} {db : Db SByte T} (hdb : db.Served base64 hex s)
include hdb

theorem serve_register_plays (hhex : hex.RoundTrips) {email : String} {password : SString}
    (hpassword : password ∈ passwords) {flow : ClientFlow SByte (AccountRow T × Db SByte T)}
    (hflow : db.serve base64 hex (.register email password) = some flow) :
    s.Plays S flow ((TeamCall.register email password).Leaves base64 hex) := by
  simp only [Db.serve] at hflow
  split at hflow
  · cases hflow
    refine (register_plays hb64 hhex email hpassword).bind ?_
    intro row s' hleads hrow
    exact .pure ⟨(hdb.mono hleads.grows).putAccount hrow email, fun _ h => h.elim⟩
  · cases hflow

omit hb64 in
theorem serve_tryKey_plays {key : VaultKey SByte} {vaultId : String} {index : ℕ}
    {flow : ClientFlow SByte (SString × Db SByte T)}
    (hflow : db.serve base64 hex (.tryKey key vaultId index) = some flow) :
    s.Plays S flow ((TeamCall.tryKey key vaultId index).Leaves base64 hex) := by
  simp only [Db.serve] at hflow
  split at hflow
  · split at hflow
    · cases hflow
      refine .call_bind trivial ?_
      intro plaintext w _ s' _ hleads
      exact .pure ⟨hdb.mono hleads.grows, fun _ h => h.elim⟩
    · cases hflow
  · cases hflow

theorem serve_plays (hs : s.Guarded) (hhex : hex.RoundTrips) {call : TeamCall SByte T β}
    (hown : call.Own) {flow : ClientFlow SByte (β × Db SByte T)}
    (hflow : db.serve base64 hex call = some flow) :
    s.Plays S flow (call.Leaves base64 hex) := by
  cases call with
  | register email password => exact serve_register_plays hb64 hdb hhex hown hflow
  | createVault email password vaultId => exact serve_createVault_plays hb64 hdb hown hs hflow
  | vaultKey email password vaultId => exact serve_vaultKey_plays hb64 hdb hown hflow
  | push email password vaultId plaintext =>
      exact serve_push_plays hb64 hdb hown.1 hown.2 hflow
  | pull email password vaultId index => exact serve_pull_plays hb64 hdb hown hflow
  | share email password vaultId recipient => exact serve_share_plays hb64 hdb hown hs hflow
  | rekey email password vaultId removed => exact serve_rekey_plays hb64 hdb hown hs hflow
  | tryKey key vaultId index => exact serve_tryKey_plays hdb hflow

end
end

/-! ## Every run of a team -/

/-- Rows that clients filled, in the world they are in. -/
structure ServedClients.Behind (base64 hex : Codec SString T) (s : ServedClients)
    (st : Db SByte T × World symbolicCrates) : Prop where
  world : s.world = st.2
  rows : st.1.Served base64 hex s

section
variable (hb64 : base64.Strict) (hhex : hex.RoundTrips) {st : Db SByte T × World symbolicCrates}
include hb64 hhex

theorem team_step (hs : s.Guarded) (h : s.Behind base64 hex st) {β : Type}
    {call : TeamCall SByte T β} (hown : call.Own) : ∃ s', ServedClients.Leads S s s' ∧
      s'.Behind base64 hex (team base64 hex symbolicCrates S β call st).2 ∧
      ∀ key, call.Gives (team base64 hex symbolicCrates S β call st).1 key →
        key ∈ s'.vaultKeys := by
  cases hflow : st.1.serve base64 hex call with
  | none =>
      simp only [team, hflow]
      refine ⟨s, .refl, h, ?_⟩
      intro key hgives
      cases call <;> cases hgives
  | some flow =>
      obtain ⟨s', hworld, hmeets⟩ := (ServedClients.simulation S).always h.world trivial
        (serve_plays hb64 h.rows hs hhex hown hflow)
      cases hresult : flow.result (Api.call symbolicCrates S) st.2 with
      | ok r =>
          rw [hresult] at hmeets
          obtain ⟨hleads, hrows, hgiven⟩ := hmeets
          simp only [team, hflow, hresult]
          exact ⟨s', hleads, ⟨hworld, hrows⟩, hgiven⟩
      | err e =>
          rw [hresult] at hmeets
          simp only [team, hflow, hresult]
          refine ⟨s', hmeets.1, ⟨hworld, h.rows.mono hmeets.1.grows⟩, ?_⟩
          intro key hgives
          cases call <;> cases hgives
      | panic =>
          rw [hresult] at hmeets
          simp only [team, hflow, hresult]
          refine ⟨s', hmeets.1, ⟨hworld, h.rows.mono hmeets.1.grows⟩, ?_⟩
          intro key hgives
          cases call <;> cases hgives

theorem team_run {α : Type} (t : Interaction (TeamCall SByte T) TeamError α) (hs : s.Guarded)
    (h : s.Behind base64 hex st)
    (hown : ∀ e ∈ t.trace (team base64 hex symbolicCrates S) st, e.call.Own) :
    ∃ s', ServedClients.Leads S s s' ∧
      (∀ st' ∈ t.states (team base64 hex symbolicCrates S) st, st'.1.Served base64 hex s') ∧
      ∀ e ∈ t.trace (team base64 hex symbolicCrates S) st, ∀ key, e.call.Gives e.answer key →
        key ∈ s'.vaultKeys := by
  induction t generalizing s st with
  | done result =>
      refine ⟨s, .refl, List.forall_mem_singleton.mpr h.rows, ?_⟩
      exact fun _ he => absurd he List.not_mem_nil
  | ask call next ih =>
      obtain ⟨hfirst, hrest⟩ := List.forall_mem_cons.mp hown
      obtain ⟨s₁, h₁, hbehind, hgiven⟩ := team_step hb64 hhex hs h hfirst
      obtain ⟨s₂, h₂, hrows, hgives⟩ := ih _ (h₁.guarded hs) hbehind hrest
      refine ⟨s₂, h₁.trans h₂, ?_, ?_⟩
      · exact List.forall_mem_cons.mpr ⟨h.rows.mono (h₁.trans h₂).grows, hrows⟩
      · refine List.forall_mem_cons.mpr ⟨?_, hgives⟩
        exact fun key hkey => h₂.grows.vaultKeys (hgiven key hkey)

end

/-! ## Whoever keeps every row -/

/-- Every string that a row held at some point of a run. -/
def Db.everStored (base64 hex : Codec SString T) (S : SrpClient SByte) {α : Type}
    (t : Interaction (TeamCall SByte T) TeamError α) : Set SString :=
  {x | ∃ st ∈ t.states (team base64 hex symbolicCrates S)
    (Db.empty, World.init symbolicCrates symbolicTape), x ∈ st.1.strings base64 hex}

/-- Whoever keeps every row that a team ever stored learns no vault key that a member was
given, whichever half of the hybrid breaks later, no password and no unguessable
plaintext, and no private key of a published account. -/
theorem team_rows_reveal_nothing (hb64 : base64.Strict) (hhex : hex.RoundTrips)
    (S : SrpClient SByte) {α : Type} (t : Interaction (TeamCall SByte T) TeamError α)
    (hown : ∀ e ∈ t.trace (team base64 hex symbolicCrates S)
      (Db.empty, World.init symbolicCrates symbolicTape), e.call.Own) :
    (∀ e ∈ t.trace (team base64 hex symbolicCrates S)
        (Db.empty, World.init symbolicCrates symbolicTape),
      ∀ key, e.call.Gives e.answer key → ∀ b : Breach,
        ¬ Derivable symbolicCrates (Db.everStored base64 hex S t ∪ b.given) key.expose.toList) ∧
    (∀ x, (x ∈ passwords ∨ ∃ i j, .atom (.plaintext i) j ∈ x) →
      ¬ Derivable symbolicCrates (Db.everStored base64 hex S t ∪ Breach.srpInput.given) x) ∧
    ∀ st ∈ t.states (team base64 hex symbolicCrates S)
        (Db.empty, World.init symbolicCrates symbolicTape),
      ∀ email row, st.1.accounts email = some row → ∃ keypair : UserKeypair SByte,
        keypair.FromSeed ∧ row.Publishes base64 keypair.publicKeys ∧
        ∀ x ∈ [keypair.ed25519PrivateSeed.toList, keypair.x25519Private.toList,
          keypair.mlkemDecap.encoding],
          ¬ Derivable symbolicCrates (Db.everStored base64 hex S t ∪ Breach.srpInput.given) x := by
  obtain ⟨s, hleads, hrows, hgiven⟩ := team_run hb64 hhex t ServedClients.Guarded.start
    ⟨rfl, Db.Served.empty⟩ hown
  have hguarded := hleads.guarded ServedClients.Guarded.start
  have hstored (b : Breach) : ∀ y ∈ Db.everStored base64 hex S t ∪ b.given,
      Derivable symbolicCrates ({y | y ∈ s.sent} ∪ b.given) y := by
    intro y hy
    rcases hy with ⟨st, hst, hy⟩ | hy
    · exact ((hrows st hst).strings y hy).mono Set.subset_union_left
    · exact .known (.inr hy)
  have hsecret {x : SString} (hx : s.Secret x) : ¬ Derivable symbolicCrates
      (Db.everStored base64 hex S t ∪ Breach.srpInput.given) x :=
    fun hderivable => hguarded.not_derivable hx (hderivable.cut (hstored _))
  refine ⟨?_, ?_, ?_⟩
  · intro e he key hgives b hderivable
    exact hguarded.vaultKey_secret (hgiven e he key hgives) b (hderivable.cut (hstored b))
  · intro x hx
    rcases hx with hpassword | ⟨i, j, hmem⟩
    · exact hsecret (.password hpassword)
    · exact hsecret (.plaintext hmem)
  · intro st hst email row hrow
    obtain ⟨keypair, hkeypair, hpublished⟩ := ((hrows st hst).accounts email row hrow).published
    refine ⟨keypair, hguarded.keypairs keypair hkeypair, hpublished, ?_⟩
    exact List.forall_mem_cons.mpr ⟨hsecret (.seed hkeypair),
      List.forall_mem_cons.mpr ⟨hsecret (.x25519Private hkeypair),
        List.forall_mem_singleton.mpr (hsecret (.mlkemDecap hkeypair))⟩⟩

/-! ## A team is founded -/

theorem team_of_ends {db db' : Db SByte T} {w w' : World symbolicCrates} {β : Type}
    {call : TeamCall SByte T β} {flow : ClientFlow SByte (β × Db SByte T)}
    (hflow : db.serve base64 hex call = some flow) {a : β}
    (hends : flow.Ends (Api.call symbolicCrates S) w (a, db') w') :
    team base64 hex symbolicCrates S β call (db, w) = (.ok a, (db', w')) := by
  obtain ⟨hresult, hfinal⟩ := Prod.ext_iff.mp hends
  change flow.result (Api.call symbolicCrates S) w = .ok (a, db') at hresult
  change flow.final (Api.call symbolicCrates S) w = w' at hfinal
  simp only [team, hflow, hresult, hfinal]

/-- An account opens with the password it was registered with. -/
theorem register_unlock_ends (hb64 : base64.Strict) (email : String) (password : SString)
    (w : World symbolicCrates) : ∃ row seed w₁ w₂,
      (registerFlow base64 hex email password).Ends (Api.call symbolicCrates S) w row w₁ ∧
      (unlockFlow base64 row password).Ends (Api.call symbolicCrates S) w₁
        (symbolicCrates.keypairOf seed) w₂ := by
  obtain ⟨masterKey, hmaster⟩ : ∃ masterKey, deriveMasterKey symbolicCrates password
      (w.next .salt SALT_LEN) = .ok masterKey := ⟨_, rfl⟩
  have hderive (u : World symbolicCrates) : Api.call symbolicCrates S _
      (.deriveMasterKey password (w.next .salt SALT_LEN)) u = (.ok masterKey, u) :=
    congrArg (Prod.mk · u) hmaster
  obtain ⟨keypair, w₀, hgenerate⟩ : ∃ keypair w₀, generateKeypair symbolicCrates
      ((w.draw .salt SALT_LEN).draw .salt SALT_LEN) = (.ok keypair, w₀) :=
    ⟨_, _, generateKeypair_apply _⟩
  obtain ⟨enc, w₁, hseal⟩ := encryptPrivateKey_returns (P := symbolicCrates) rfl keypair
    masterKey w₀
  obtain ⟨row, hregister, hsalt, henc⟩ : ∃ row,
      (registerFlow base64 hex email password).Ends (Api.call symbolicCrates S) w row w₁ ∧
      row.argon2SaltB64 = saltToBase64 base64 (w.next .salt SALT_LEN) ∧
      row.encryptedPrivateKeyB64 = enc.toBase64 base64 :=
    ⟨_, .bind (.call rfl) (.bind (.call rfl) (.bind (.call (hderive _)) (.bind (.call hgenerate)
      (.bind (.call hseal) (.bind (.call rfl) (.bind (.call rfl) .pure)))))), rfl, rfl⟩
  have hread := (EncryptedPrivateKey.fromBase64_decides hb64 _).eq_ok
    ⟨henc, encryptPrivateKey_ciphertext_length hseal⟩
  have hopen := decrypt_of_encryptPrivateKey symbolicCrates_aeadCorrect hseal (.refl w₁)
  exact ⟨row, keypair.ed25519PrivateSeed, w₁, _, hregister,
    .bind (.lift hread) (.bind (.lift ((saltFromBase64_decides hb64 _).eq_ok hsalt))
      (.bind (.call (hderive _)) (.call hopen)))⟩

variable (hex) in
theorem createVault_ends (email vaultId : String) {password : SString}
    {seed : List.Vector SByte 32} {row : AccountRow T} {w w' : World symbolicCrates}
    {db : Db SByte T} (hrow : db.accounts email = some row) (hvault : db.vaults vaultId = none)
    (hunlock : (unlockFlow base64 row password).Ends (Api.call symbolicCrates S) w
      (symbolicCrates.keypairOf seed) w') :
    ∃ flow key db' w'', db.serve base64 hex (.createVault email password vaultId) = some flow ∧
      flow.Ends (Api.call symbolicCrates S) w (key, db') w'' := by
  simp only [Db.serve, hrow, hvault]
  exact ⟨_, _, _, _, rfl, .bind hunlock (.bind (.call (VaultKey.generate_apply _))
    (.bind (.call (wrapVaultKeyForUser_of_some (symbolicCratesWith_accepts _ _ _) rfl)) .pure))⟩

def foundTeam : Interaction (TeamCall SByte (String ⊕ SString)) TeamError Unit :=
  .ask (.register "ana" anaPassword) fun _ =>
    .ask (.createVault "ana" anaPassword "team") fun _ => .done ()

theorem foundTeam_trace : ∃ row key,
    foundTeam.trace (team symbolicBase64 symbolicBase64 symbolicCrates noServer)
      (Db.empty, World.init symbolicCrates symbolicTape) =
        [⟨_, .register "ana" anaPassword, .ok row⟩,
          ⟨_, .createVault "ana" anaPassword "team", .ok key⟩] := by
  obtain ⟨row, seed, w₁, w₂, hregister, hunlock⟩ := register_unlock_ends (S := noServer)
    symbolicBase64_strict "ana" anaPassword (World.init symbolicCrates symbolicTape)
  have hregistered : team symbolicBase64 symbolicBase64 symbolicCrates noServer _
      (.register "ana" anaPassword) (Db.empty, World.init symbolicCrates symbolicTape) =
        (.ok row, (Db.empty.putAccount "ana" row, w₁)) :=
    team_of_ends rfl (hregister.bind .pure)
  have hrow : (Db.empty.putAccount "ana" row : Db SByte (String ⊕ SString)).accounts "ana" =
      some row := by
    simp only [Db.putAccount, Function.update_self]
  obtain ⟨flow, key, db, w₃, hflow, hcreate⟩ := createVault_ends symbolicBase64
    "ana" "team" hrow rfl hunlock
  have hcreated := team_of_ends hflow hcreate
  refine ⟨row, key, ?_⟩
  simp only [foundTeam, Interaction.trace, hregistered, hcreated]

/-- Not even with ML-KEM broken do the rows give up the key of the vault. -/
theorem team_rows_reveal_nothing_foundTeam : ∃ key,
    ⟨_, .createVault "ana" anaPassword "team", .ok key⟩ ∈
      foundTeam.trace (team symbolicBase64 symbolicBase64 symbolicCrates noServer)
        (Db.empty, World.init symbolicCrates symbolicTape) ∧
    ¬ Derivable symbolicCrates (Db.everStored symbolicBase64 symbolicBase64 noServer foundTeam ∪
      Breach.mlkem.given) key.expose.toList := by
  obtain ⟨row, key, htrace⟩ := foundTeam_trace
  have hmem : ⟨_, .createVault "ana" anaPassword "team", .ok key⟩ ∈
      foundTeam.trace (team symbolicBase64 symbolicBase64 symbolicCrates noServer)
        (Db.empty, World.init symbolicCrates symbolicTape) := by
    rw [htrace]
    exact List.mem_cons_of_mem _ List.mem_cons_self
  have hown : ∀ e ∈ foundTeam.trace (team symbolicBase64 symbolicBase64 symbolicCrates noServer)
      (Db.empty, World.init symbolicCrates symbolicTape), e.call.Own := by
    have hpassword : anaPassword ∈ passwords := ⟨0, 11, rfl⟩
    rw [htrace]
    exact List.forall_mem_cons.mpr ⟨hpassword, List.forall_mem_singleton.mpr hpassword⟩
  exact ⟨key, hmem, (team_rows_reveal_nothing symbolicBase64_strict
    symbolicBase64_strict.roundTrips noServer foundTeam hown).1 _ hmem key rfl .mlkem⟩

end EvnxCrypto
