import EvnxCrypto.TeamRows

/-!
# A team refines its store

One specification for each call of a team: on rows that hold a store, its flow gives
a right answer or fails where it may, and leaves rows that hold the store after it.
From these the refinement of the store by every run, and with it the revocation of
keys.
-/
namespace EvnxCrypto
open Effect ByteString AuthenticatedEncryption

variable {B T : Type} [Byte B] {P : Crates B} {base64 hex : Codec (List B) T}
  {m : TeamStore B} {db : Db B T} {D : Desk B}

/-! ## Rows of a member -/

namespace TeamStore.Held
variable {γ : Type}

/-- Who has no rows has no access. -/
theorem no_access (h : m.Held P base64 db D) {email vaultId : String}
    (hnone : db.membership email vaultId = none) (password : List B) (v : TeamVault B) :
    ¬ m.Access P email password vaultId v := by
  rintro ⟨⟨a, ha, -⟩, hvault, hmember⟩
  have haccount := h.accounts email
  rw [ha] at haccount
  obtain ⟨row, hrow, -⟩ := exists_of_optionRel_some_left haccount
  have hheld := h.vaults vaultId
  rw [hvault] at hheld
  obtain ⟨vault, hv, hheld⟩ := exists_of_optionRel_some_left hheld
  rw [← hheld.members, List.mem_map] at hmember
  obtain ⟨wrap, hwrap, hname⟩ := hmember
  cases hlookup : vault.wraps.lookup email with
  | some copy => rw [Db.membership_eq_some.mpr ⟨hrow, hv, hlookup⟩] at hnone; cases hnone
  | none =>
      have hne := List.lookup_eq_none_iff.mp hlookup wrap hwrap
      rw [hname, bne_self_eq_false] at hne
      cases hne

/-- With the rows of a member, the right password leads to the key of the vault and
every other password to an error. -/
theorem access_runs (h : m.Held P base64 db D) (hb64 : base64.Strict) {email vaultId : String}
    {row : AccountRow T} {vault : VaultRow B T} {wrap : WrapRow T}
    (hrows : db.membership email vaultId = some (row, vault, wrap)) (password : List B)
    {f : VaultKey B → ClientFlow B γ} {done : γ → Desk B → Prop}
    {fail : Option CryptoError → Prop}
    (hopen : ∀ v, m.Access P email password vaultId v →
      v.Held base64 db.accounts D vaultId vault → D.Runs P (f v.key) done fail)
    (hrefuse : (∀ v, ¬ m.Access P email password vaultId v) → ∀ c, fail (some c)) :
    D.Runs P (do
      let keypair ← unlockFlow base64 row password
      let key ← vaultKeyFlow base64 wrap keypair
      f key) done fail := by
  obtain ⟨hrow, hvault, hlookup⟩ := Db.membership_eq_some.mp hrows
  have haccount := h.accounts email
  rw [hrow] at haccount
  obtain ⟨a, ha, keypair, masterKey, enc, hheld⟩ := exists_of_optionRel_some_right haccount
  have hv := h.vaults vaultId
  rw [hvault] at hv
  obtain ⟨v, hmv, hv⟩ := exists_of_optionRel_some_right hv
  obtain ⟨before, after, hwraps, -⟩ := List.lookup_eq_some_iff.mp hlookup
  have hmem : (email, wrap) ∈ vault.wraps := by
    rw [hwraps]
    exact List.mem_append_right _ List.mem_cons_self
  have hcopy : D.Copy base64 v.key keypair.publicKeys wrap := by
    obtain ⟨row', hrow', -, keys, hpublic, hcopy⟩ := hv.copies _ hmem
    obtain rfl : row = row' := Option.some.inj (hrow.symm.trans hrow')
    obtain rfl : keys = keypair.publicKeys := UserPublicKeys.ext_base64 hb64
      (hpublic.1.symm.trans hheld.publishes.1) (hpublic.2.symm.trans hheld.publishes.2)
    exact hcopy
  refine .bind ((unlock_runs hb64 hheld h.oneMeaning password).mono (fun _ _ _ h => h) ?_) ?_
  · rintro e ⟨⟨c, rfl⟩, hne⟩
    apply hrefuse
    rintro v ⟨⟨a', ha', heq⟩, -⟩
    obtain rfl : a = a' := Option.some.inj (ha.symm.trans ha')
    exact hne heq
  · rintro kp D' - ⟨rfl, rfl, hsame⟩
    refine .bind ((vaultKey_runs hb64 hcopy hheld.issued).mono (fun _ _ _ h => h) ?_) ?_
    · exact fun _ h => h.elim
    · rintro key D'' - ⟨rfl, rfl⟩
      refine hopen v ⟨⟨a, ha, hsame⟩, hmv, ?_⟩ hv
      rw [← hv.members]
      exact List.mem_map_of_mem hmem

end TeamStore.Held

/-! ## One call -/

/-- A call without an answer may fail in any way, and the others as they may. -/
def TeamStore.Fails (P : Crates B) (base64 : Codec (List B) T) (m : TeamStore B) {β : Type}
    (call : TeamCall B T β) : Option CryptoError → Prop
  | some e => (∀ a, ¬ m.Right P base64 call a) ∨ MayFail P call e
  | none => False

/-- What is served is right for the store, and leaves rows that hold the store after it. -/
def TeamStore.Serves (P : Crates B) (base64 : Codec (List B) T) (m : TeamStore B) (D : Desk B)
    {β : Type} (call : TeamCall B T β) : Option (ClientFlow B (β × Db B T)) → Prop
  | none => ∀ a, ¬ m.Right P base64 call a
  | some flow => D.Runs P flow
      (fun r D' => m.Right P base64 call r.1 ∧ (m.next base64 call (.ok r.1)).Held P base64 r.2 D')
      (m.Fails P base64 call)

theorem wrapFails_fails {β : Type} {call : TeamCall B T β}
    (hrefused : ∀ c, P.WrapRefused c → TeamStore.MayFail P call c) (e : Option CryptoError)
    (h : WrapFails P e) : m.Fails P base64 call e := by
  obtain ⟨c, rfl, hc⟩ := h
  exact .inr (hrefused c hc)

namespace TeamStore.Held
variable (h : m.Held P base64 db D) (hb64 : base64.Strict)
include h hb64

theorem serves_register (email : String) (password : List B) :
    m.Serves P base64 D (.register email password)
      (db.serve base64 hex (.register email password)) := by
  have hnone := optionRel_eq_none_iff (h.accounts email)
  cases hrow : db.accounts email with
  | some row =>
      simp only [Db.serve, hrow]
      intro a ha
      rw [hnone.mp ha.1] at hrow
      cases hrow
  | none =>
      simp only [Db.serve, hrow]
      refine .bind ((register_runs hb64 email password).mono (fun _ _ _ h => h) ?_) ?_
      · rintro e ⟨c, rfl, hc⟩
        exact .inr hc
      · rintro row D' hleads ⟨salt, keypair, masterKey, enc, hsalt, ha⟩
        refine .pure hleads.oneMeaning ⟨⟨hnone.mpr hrow, salt, hsalt⟩, ?_⟩
        simp only [TeamStore.next, hsalt]
        exact (h.mono hleads).putAccount hrow ha

theorem serves_createVault (email : String) (password : List B) (vaultId : String) :
    m.Serves P base64 D (.createVault email password vaultId)
      (db.serve base64 hex (.createVault email password vaultId)) := by
  have hnone := optionRel_eq_none_iff (h.vaults vaultId)
  have haccount := h.accounts email
  cases hrow : db.accounts email with
  | none =>
      simp only [Db.serve, hrow]
      rintro key ⟨⟨a, ha, -⟩, -⟩
      rw [(optionRel_eq_none_iff haccount).mpr hrow] at ha
      cases ha
  | some row =>
      cases hvault : db.vaults vaultId with
      | some vault =>
          simp only [Db.serve, hrow, hvault]
          rintro key ⟨-, hfree, -⟩
          rw [hnone.mp hfree] at hvault
          cases hvault
      | none =>
          rw [hrow] at haccount
          obtain ⟨a, ha, keypair, masterKey, enc, hheld⟩ :=
            exists_of_optionRel_some_right haccount
          simp only [Db.serve, hrow, hvault]
          refine .bind ((unlock_runs hb64 hheld h.oneMeaning password).mono
            (fun _ _ _ h => h) ?_) ?_
          · rintro e ⟨⟨c, rfl⟩, hne⟩
            refine .inl ?_
            rintro key ⟨⟨a', ha', heq⟩, -⟩
            obtain rfl : a = a' := Option.some.inj (ha.symm.trans ha')
            exact hne heq
          rintro kp D₁ - ⟨rfl, rfl, hsame⟩
          refine .draw_bind ?_
          intro key hnew hdrawn
          refine .bind ((wrapCall_runs base64 key hheld.ownKeys).mono (fun _ _ _ h => h)
            (wrapFails_fails fun _ hc => hc)) ?_
          intro wrapped D₂ hleads hcopy
          have hall := hdrawn.trans hleads
          refine .pure hleads.oneMeaning
            ⟨⟨⟨a, ha, hsame⟩, hnone.mpr hvault, fun hin => hnew (h.issued hin)⟩, ?_⟩
          refine (h.mono hall).putVault (v := ⟨key, [email], []⟩) ?_ rfl ?_ rfl
          · refine ⟨rfl, ?_, fun i => .none⟩
            intro wrap hwrap
            obtain rfl := List.mem_singleton.mp hwrap
            exact ⟨row, hrow, rfl, kp.publicKeys, hheld.publishes, hcopy⟩
          · apply Set.insert_subset
            · exact hleads.drawn (Set.mem_insert _ _)
            · exact h.issued.trans hall.drawn

theorem serves_vaultKey (email : String) (password : List B) (vaultId : String) :
    m.Serves P base64 D (.vaultKey email password vaultId)
      (db.serve base64 hex (.vaultKey email password vaultId)) := by
  cases hrows : db.membership email vaultId with
  | none =>
      simp only [Db.serve, hrows]
      rintro key ⟨v, hv, -⟩
      exact h.no_access hrows password v hv
  | some rows =>
      simp only [Db.serve, hrows]
      refine h.access_runs hb64 hrows password ?_ ?_
      · intro v hv _
        exact .pure h.oneMeaning ⟨⟨v, hv, rfl⟩, h⟩
      · exact fun hno c => .inl fun _ ha => Exists.elim ha fun v hv => hno v hv.1

theorem serves_push (email : String) (password : List B) (vaultId : String) (plaintext : List B) :
    m.Serves P base64 D (.push email password vaultId plaintext)
      (db.serve base64 hex (.push email password vaultId plaintext)) := by
  cases hrows : db.membership email vaultId with
  | none =>
      simp only [Db.serve, hrows]
      rintro _ ⟨v, hv⟩
      exact h.no_access hrows password v hv
  | some rows =>
      simp only [Db.serve, hrows]
      refine h.access_runs hb64 hrows password ?_ ?_
      · intro v hv hheld
        refine .call_bind ?_ ?_
        · intro blob hblob
          refine .pure hblob.oneMeaning ⟨⟨v, hv⟩, ?_⟩
          refine (h.mono hblob.leads).putVault
            (v := { v with contents := v.contents ++ [plaintext] }) ?_ rfl ?_ ?_
          · have hleads := hheld.mono hblob.leads.toGrows
            exact { hleads with
              contents := optionRel_getElem?_concat hleads.contents (Set.mem_insert _ _) }
          · exact h.issued
          · simp only [TeamStore.next, modify, hv.vault, Option.map_some]
        · intro c hc
          obtain ⟨rfl, hlong⟩ := hc.refused c rfl
          exact .inr ⟨rfl, _, hlong⟩
      · exact fun hno c => .inl fun _ ha => Exists.elim ha hno

theorem serves_pull (email : String) (password : List B) (vaultId : String) (index : ℕ) :
    m.Serves P base64 D (.pull email password vaultId index)
      (db.serve base64 hex (.pull email password vaultId index)) := by
  cases hrows : db.membership email vaultId with
  | none =>
      simp only [Db.serve, hrows]
      rintro _ ⟨v, hv, -⟩
      exact h.no_access hrows password v hv
  | some rows =>
      obtain ⟨row, vault, wrap⟩ := rows
      cases hblob : vault.blobs[index]? with
      | none =>
          simp only [Db.serve, hrows, hblob]
          rintro p ⟨v, hv, hp⟩
          have hheld := h.vaults vaultId
          rw [hv.vault, (Db.membership_eq_some.mp hrows).2.1] at hheld
          obtain ⟨_, heq, hheld⟩ := exists_of_optionRel_some_left hheld
          cases heq
          rw [(optionRel_eq_none_iff (hheld.contents index)).mpr hblob] at hp
          cases hp
      | some blob =>
          simp only [Db.serve, hrows, hblob]
          refine h.access_runs hb64 hrows password ?_ ?_
          · intro v hv hheld
            refine .bind ((hheld.open_runs h.oneMeaning v.key hblob).mono (fun _ _ _ h => h) ?_) ?_
            · exact fun _ hne => (hne.2 rfl).elim
            · rintro p D' - ⟨rfl, -, hp⟩
              exact .pure h.oneMeaning ⟨⟨v, hv, hp⟩, h⟩
          · exact fun hno c => .inl fun _ ha => Exists.elim ha fun v hv => hno v hv.1

theorem serves_share (email : String) (password : List B) (vaultId recipient : String) :
    m.Serves P base64 D (.share email password vaultId recipient)
      (db.serve base64 hex (.share email password vaultId recipient)) := by
  have haccount := h.accounts recipient
  cases hrows : db.membership email vaultId with
  | none =>
      simp only [Db.serve, hrows]
      rintro _ ⟨⟨v, hv⟩, -⟩
      exact h.no_access hrows password v hv
  | some rows =>
      cases hrow : db.accounts recipient with
      | none =>
          simp only [Db.serve, hrows, hrow]
          rintro _ ⟨-, hne⟩
          exact hne ((optionRel_eq_none_iff haccount).mpr hrow)
      | some recipientRow =>
          rw [hrow] at haccount
          obtain ⟨a, ha, keypair, masterKey, enc, hrecipient⟩ :=
            exists_of_optionRel_some_right haccount
          simp only [Db.serve, hrows, hrow]
          refine h.access_runs hb64 hrows password ?_ ?_
          · intro v hv hheld
            refine .bind ((wrap_runs hb64 v.key hrecipient.publishes hrecipient.ownKeys).mono
              (fun _ _ _ h => h) (wrapFails_fails fun _ hc => hc)) ?_
            intro copy D' hleads hcopy
            refine .pure hleads.oneMeaning ⟨⟨⟨v, hv⟩, ?_⟩, ?_⟩
            · rw [ha]
              exact nofun
            refine (h.mono hleads).putVault
              (v := { v with members := recipient :: v.members }) ?_ rfl ?_ ?_
            · have hmono := hheld.mono hleads.toGrows
              refine { hmono with members := congrArg (recipient :: ·) hmono.members, copies := ?_ }
              intro wrap hwrap
              rcases List.mem_cons.mp hwrap with rfl | hwrap
              · exact ⟨recipientRow, hrow, rfl, _, hrecipient.publishes, hcopy⟩
              · exact hmono.copies wrap hwrap
            · exact h.issued.trans hleads.drawn
            · simp only [TeamStore.next, modify, hv.vault, Option.map_some]
          · exact fun hno c => .inl fun _ ha => ha.1.elim hno

omit hb64 in
theorem serves_tryKey (key : VaultKey B) (vaultId : String) (index : ℕ) :
    m.Serves P base64 D (.tryKey key vaultId index)
      (db.serve base64 hex (.tryKey key vaultId index)) := by
  have hvaults := h.vaults vaultId
  cases hvault : db.vaults vaultId with
  | none =>
      simp only [Db.serve, hvault]
      rintro p ⟨v, hv, -⟩
      rw [(optionRel_eq_none_iff hvaults).mpr hvault] at hv
      cases hv
  | some vault =>
      rw [hvault] at hvaults
      obtain ⟨v, hv, hheld⟩ := exists_of_optionRel_some_right hvaults
      cases hblob : vault.blobs[index]? with
      | none =>
          simp only [Db.serve, hvault, hblob]
          rintro p ⟨v', hv', -, hp⟩
          obtain rfl : v = v' := Option.some.inj (hv.symm.trans hv')
          rw [(optionRel_eq_none_iff (hheld.contents index)).mpr hblob] at hp
          cases hp
      | some blob =>
          simp only [Db.serve, hvault, hblob]
          refine .bind ((hheld.open_runs h.oneMeaning key hblob).mono (fun _ _ _ h => h) ?_) ?_
          · rintro e ⟨⟨c, rfl⟩, hne⟩
            refine .inl ?_
            rintro p ⟨v', hv', hkey, -⟩
            obtain rfl : v = v' := Option.some.inj (hv.symm.trans hv')
            exact hne hkey
          · rintro p D' - ⟨rfl, hkey, hp⟩
            exact .pure h.oneMeaning ⟨⟨v, hv, hkey, hp⟩, h⟩

omit h hb64 in
/-- The members that stay, with the rows of their accounts. -/
theorem map_fst_remaining {vaultId : String} {v : TeamVault B} {vault : VaultRow B T}
    (hheld : v.Held base64 db.accounts D vaultId vault) (removed : String) :
    (db.remaining vault removed).map Prod.fst = v.members.filter (· ≠ removed) := by
  rw [Db.remaining, hheld.members, List.map_filterMap]
  refine (List.filterMap_congr ?_).trans List.filterMap_some
  intro name hname
  have hmember : name ∈ v.members := (List.mem_filter.mp hname).1
  rw [← hheld.members, List.mem_map] at hmember
  obtain ⟨wrap, hwrap, rfl⟩ := hmember
  obtain ⟨row, hrow, -⟩ := hheld.copies wrap hwrap
  rw [hrow]
  rfl

omit h hb64 in
/-- The row after a re-keying holds the versions under the new key, for those that stay. -/
theorem rekeyed {D₁ D₂ D₃ : Desk B} {vaultId removed : String} {v : TeamVault B}
    {vault : VaultRow B T} (hheld : v.Held base64 db.accounts D vaultId vault)
    {newKey : VaultKey B} {fresh : List (EncryptedBlob B)} {wraps : List (String × WrapRow T)}
    (hdrawn : D.Grows D₁)
    (hmoved : List.Forall₂ (D₁.Moved vaultId v.key newKey D₂) vault.blobs.zipIdx fresh)
    (hrewrapped : D₂.Grows D₃)
    (hcopies : List.Forall₂ (Desk.CopyFor base64 newKey D₃) (db.remaining vault removed) wraps) :
    TeamVault.Held base64 db.accounts D₃ vaultId
      { v with key := newKey, members := v.members.filter (· ≠ removed) } ⟨wraps, fresh⟩ where
  members := by
    have hnames : List.Forall₂ (· = ·) (wraps.map Prod.fst)
        ((db.remaining vault removed).map Prod.fst) := by
      rw [List.forall₂_map_left_iff, List.forall₂_map_right_iff]
      exact hcopies.flip.imp fun _ _ hcopy => hcopy.1
    rw [List.forall₂_eq_eq_eq] at hnames
    rw [hnames, map_fst_remaining hheld]
  copies wrap hwrap := by
    obtain ⟨member, hmember, hname, hcopy⟩ := exists_mem_of_forall₂ hcopies hwrap
    refine ⟨member.2, ?_, rfl, hcopy⟩
    rw [hname]
    exact Db.accounts_remaining hmember
  contents i := by
    have hcontents := hheld.contents i
    have hblobs := optionRel_getElem?_of_forall₂ hmoved i
    rw [List.getElem?_zipIdx, Nat.zero_add] at hblobs
    cases hblob : vault.blobs[i]? with
    | none =>
        rw [hblob] at hcontents hblobs
        rw [(optionRel_eq_none_iff hcontents).mpr rfl, (optionRel_eq_none_iff hblobs).mp rfl]
        exact .none
    | some blob =>
        rw [hblob] at hcontents hblobs
        obtain ⟨p, hp, hsealed⟩ := exists_of_optionRel_some_right hcontents
        obtain ⟨blob', hfresh, hmove⟩ := exists_of_optionRel_some_left hblobs
        rw [hp, hfresh]
        exact .some (hrewrapped.vaults (hmove p (hdrawn.vaults hsealed)))

theorem serves_rekey (email : String) (password : List B) (vaultId removed : String) :
    m.Serves P base64 D (.rekey email password vaultId removed)
      (db.serve base64 hex (.rekey email password vaultId removed)) := by
  cases hrows : db.membership email vaultId with
  | none =>
      simp only [Db.serve, hrows]
      rintro _ ⟨⟨v, hv⟩, -⟩
      exact h.no_access hrows password v hv
  | some rows =>
      obtain ⟨row, vault, wrap⟩ := rows
      simp only [Db.serve, hrows]
      refine h.access_runs hb64 hrows password ?_ ?_
      · intro v hv hheld
        refine .draw_bind ?_
        intro newKey hnew hdrawn
        refine .bind ((rekey_runs hdrawn.oneMeaning ?_).mono (fun _ _ _ h => h) ?_) ?_
        · intro blob i hmem
          have hcontents := hheld.contents i
          rw [List.mk_mem_zipIdx_iff_getElem?.mp hmem] at hcontents
          obtain ⟨p, -, hp⟩ := exists_of_optionRel_some_right hcontents
          exact ⟨p, hdrawn.vaults hp⟩
        · exact fun _ h => h.elim
        intro fresh D₂ hrekeyed hmoved
        refine .bind ((rewrap_runs hb64 newKey hrekeyed.oneMeaning ?_).mono (fun _ _ _ h => h)
          (wrapFails_fails fun _ hc => hc)) ?_
        · intro member hmember
          have haccount := h.accounts member.1
          rw [Db.accounts_remaining hmember] at haccount
          obtain ⟨a, -, keypair, masterKey, enc, ha⟩ := exists_of_optionRel_some_right haccount
          exact ⟨keypair.publicKeys, ha.publishes, ha.ownKeys⟩
        intro wraps D₃ hrewrapped hcopies
        have hall := hdrawn.trans (hrekeyed.trans hrewrapped)
        refine .pure hrewrapped.oneMeaning ⟨⟨⟨v, hv⟩, fun hin => hnew (h.issued hin)⟩, ?_⟩
        refine (h.mono hall).putVault (v := { v with
          key := newKey, members := v.members.filter (· ≠ removed) }) ?_ rfl ?_ ?_
        · exact rekeyed hheld hdrawn.toGrows hmoved hrewrapped.toGrows hcopies
        · apply Set.insert_subset
          · exact hrewrapped.drawn (hrekeyed.drawn (Set.mem_insert _ _))
          · exact h.issued.trans hall.drawn
        · simp only [TeamStore.next, issue, modify, hv.vault, Option.map_some]
      · exact fun hno c => .inl fun _ ha => ha.1.elim hno

theorem serves {β : Type} (call : TeamCall B T β) :
    m.Serves P base64 D call (db.serve base64 hex call) := by
  cases call with
  | register email password => exact h.serves_register hb64 email password
  | createVault email password vaultId => exact h.serves_createVault hb64 email password vaultId
  | vaultKey email password vaultId => exact h.serves_vaultKey hb64 email password vaultId
  | push email password vaultId plaintext =>
      exact h.serves_push hb64 email password vaultId plaintext
  | pull email password vaultId index => exact h.serves_pull hb64 email password vaultId index
  | share email password vaultId recipient =>
      exact h.serves_share hb64 email password vaultId recipient
  | rekey email password vaultId removed =>
      exact h.serves_rekey hb64 email password vaultId removed
  | tryKey key vaultId index => exact h.serves_tryKey key vaultId index

end TeamStore.Held

/-! ## Every run of a team -/

variable [DecidableEq B] {S : SrpClient B}

omit [DecidableEq B] in
theorem TeamStore.Fails.allows {β : Type} {call : TeamCall B T β} {e : CryptoError}
    (h : m.Fails P base64 call (some e)) : m.Allows P base64 call (.err (.crypto e)) :=
  h.elim (fun hnone => .of_none hnone _) .of_mayFail

/-- A world and rows that together hold a store, as far as the world is sound. -/
def TeamStore.Behind (base64 : Codec (List B) T) (m : TeamStore B) (s : Db B T × World P) :
    Prop :=
  s.2.Sound → ∃ D : Desk B, D.Describes s.2 ∧ m.Held P base64 s.1 D

section
variable {β : Type} {call : TeamCall B T β} {s : Db B T × World P}

theorem team_of_none (h : s.1.serve base64 hex call = none) :
    team base64 hex P S β call s = (.err .noRow, s) := by
  simp only [team, h]

theorem team_world {flow : ClientFlow B (β × Db B T)}
    (h : s.1.serve base64 hex call = some flow) :
    (team base64 hex P S β call s).2.2 = flow.final (Api.call P S) s.2 := by
  simp only [team, h]
  split <;> rfl

theorem team_extends (call : TeamCall B T β) (s : Db B T × World P) :
    s.2.Extends (team base64 hex P S β call s).2.2 := by
  cases h : s.1.serve base64 hex call with
  | none =>
      rw [team_of_none h]
      exact World.Extends.refl _
  | some flow =>
      rw [team_world h]
      exact Interaction.rel World.Extends.refl World.Extends.trans
        (fun w _ c => Api.call_extends c w) flow s.2

end

/-- One call of a team does what the store does. -/
theorem TeamStore.Held.step (hideal : P.Idealised) (hb64 : base64.Strict) {w : World P}
    (h : m.Held P base64 db D) (hw : D.Describes w) {β : Type} (call : TeamCall B T β)
    (hsound : (team base64 hex P S β call (db, w)).2.2.Sound) :
    m.Allows P base64 call (team base64 hex P S β call (db, w)).1 ∧
      ∃ D' : Desk B, D'.Describes (team base64 hex P S β call (db, w)).2.2 ∧
        (m.next base64 call (team base64 hex P S β call (db, w)).1).Held P base64
          (team base64 hex P S β call (db, w)).2.1 D' := by
  have hserves : m.Serves P base64 D call (db.serve base64 hex call) := h.serves hb64 call
  cases hflow : db.serve base64 hex call with
  | none =>
      rw [hflow] at hserves
      rw [team_of_none hflow, next_err]
      exact ⟨.of_none hserves _, D, hw, h⟩
  | some flow =>
      rw [hflow] at hserves
      rw [team_world hflow] at hsound
      obtain ⟨D', hD', hmeets⟩ := (Desk.simulation (S := S) hideal).always hw hsound hserves
      cases hresult : flow.result (Api.call P S) w with
      | ok r =>
          rw [hresult] at hmeets
          obtain ⟨-, hright, hheld⟩ := hmeets
          simp only [team, hflow, hresult]
          exact ⟨.of_right hright, D', hD', hheld⟩
      | err e =>
          rw [hresult] at hmeets
          obtain ⟨hleads, hfails⟩ := hmeets
          simp only [team, hflow, hresult, next_err]
          exact ⟨hfails.allows, D', hD', h.mono hleads⟩
      | panic =>
          rw [hresult] at hmeets
          exact hmeets.2.elim

theorem TeamStore.simulation (hex : Codec (List B) T) (hideal : P.Idealised)
    (hb64 : base64.Strict) :
    Monitor.Simulation (TeamStore.monitor P base64) (team base64 hex P S) (fun s => s.2.Sound)
      fun (m : TeamStore B) s => m.Behind base64 s where
  good_before _ call s hsound := hsound.of_extends (team_extends call s)
  allowed := by
    intro m s hm β call hsound
    obtain ⟨D, hw, hheld⟩ := hm (hsound.of_extends (team_extends call s))
    exact (hheld.step hideal hb64 hw call hsound).1
  preserved := by
    intro m s hm β call hsound
    obtain ⟨D, hw, hheld⟩ := hm (hsound.of_extends (team_extends call s))
    exact (hheld.step hideal hb64 hw call hsound).2

/-- A call with a right answer is answered where no crate turns it down. -/
theorem TeamStore.Behind.served (hideal : P.Idealised) (hb64 : base64.Strict)
    {s : Db B T × World P} (h : m.Behind base64 s) {β : Type} {call : TeamCall B T β}
    (hsound : (team base64 hex P S β call s).2.2.Sound) (hright : ∃ a, m.Right P base64 call a)
    (htaken : ∀ e, ¬ MayFail P call e) :
    ∃ a, (team base64 hex P S β call s).1 = .ok a ∧ m.Right P base64 call a ∧
      (m.next base64 call (.ok a)).Behind base64 (team base64 hex P S β call s).2 := by
  have hallows := (TeamStore.simulation (S := S) hex hideal hb64).allowed h β call hsound
  have hnext := (TeamStore.simulation (S := S) hex hideal hb64).preserved h β call
  rcases hallows.served hright with ⟨a, ha⟩ | ⟨e, -, he⟩
  · refine ⟨a, ha, hallows.right a ha, ?_⟩
    rw [← ha]
    exact hnext
  · exact (htaken e he).elim

theorem team_inOrder {β : Type} (call : TeamCall B T β) {s : Db B T × World P}
    (h : s.2.InOrder) : (team base64 hex P S β call s).2.2.InOrder := by
  cases hflow : s.1.serve base64 hex call with
  | none =>
      rw [team_of_none hflow]
      exact h
  | some flow =>
      rw [team_world hflow]
      exact Interaction.invariant (Q := fun _ (w : World P) => w.InOrder) h
        (fun _ w β call hw => Api.call_inOrder hw call) flow

/-- On a tape without repetition, with HKDF injective, every run is sound. -/
theorem team_sound {α : Type} (hinj : P.HkdfInjective) {s : Db B T × World P}
    (horder : s.2.InOrder) (htape : NonRepeating s.2.tape)
    (t : Interaction (TeamCall B T) TeamError α) :
    (t.final (team base64 hex P S) s).2.Sound := by
  have hfinal : (t.final (team base64 hex P S) s).2.InOrder ∧
      (t.final (team base64 hex P S) s).2.tape = s.2.tape :=
    t.invariant (Q := fun _ (u : Db B T × World P) => u.2.InOrder ∧ u.2.tape = s.2.tape)
      ⟨horder, rfl⟩
      fun _ u β call hu => ⟨team_inOrder call hu.1, (team_extends call u).tape.trans hu.2⟩
  obtain ⟨hdrawn, hsame⟩ := hfinal
  refine ⟨hinj.collisionFree _, hdrawn.fresh ?_⟩
  rw [hsame]
  exact htape

/-- Whatever the members of a team do, in whatever order and each step chosen by the
answers so far, they are answered as the store of plaintexts answers. -/
theorem TeamStore.refined_by_team {α : Type} (hideal : P.Idealised) (hb64 : base64.Strict)
    (S : SrpClient B) (tape : ℕ → Purpose → (n : ℕ) → List.Vector B n)
    (t : Interaction (TeamCall B T) TeamError α)
    (hsound : (t.final (team base64 hex P S) (Db.empty, World.init P tape)).2.Sound) :
    (TeamStore.monitor P base64).Accepts TeamStore.empty
      (t.trace (team base64 hex P S) (Db.empty, World.init P tape)) :=
  (TeamStore.simulation hex hideal hb64).accepts t
    (fun _ => ⟨Desk.empty, .init tape, .empty⟩) hsound

/-- A vault key that anyone was given before a re-keying of a vault opens no version of
the vault after it, whatever the members do in between. -/
theorem old_keys_open_nothing {α : Type} (hideal : P.Idealised) (hb64 : base64.Strict)
    (S : SrpClient B) (tape : ℕ → Purpose → (n : ℕ) → List.Vector B n)
    (t : Interaction (TeamCall B T) TeamError α)
    (hsound : (t.final (team base64 hex P S) (Db.empty, World.init P tape)).2.Sound)
    {before after : List (Exchange (TeamCall B T) TeamError)} {email vaultId removed : String}
    {password : List B} {newKey : VaultKey B}
    (htrace : t.trace (team base64 hex P S) (Db.empty, World.init P tape) =
      before ++ ⟨_, .rekey email password vaultId removed, .ok newKey⟩ :: after)
    {e : Exchange (TeamCall B T) TeamError} (he : e ∈ before) {key : VaultKey B}
    (hgives : e.call.Gives e.answer key) (index : ℕ) (plaintext : List B) :
    ⟨_, .tryKey key vaultId index, .ok plaintext⟩ ∉ after := by
  have haccepts := (TeamStore.simulation (S := S) hex hideal hb64).accepts t
    (fun _ => ⟨Desk.empty, .init tape, .empty⟩) hsound
  rw [htrace] at haccepts
  exact TeamStore.revoked_of_accepts base64 haccepts he hgives index plaintext

/-! ## A member is removed, over symbolic bytes -/

section
open Symbolic Classical

theorem idealCrates_team_sound {α : Type}
    (t : Interaction (TeamCall SByte (String ⊕ SString)) TeamError α) :
    (t.final (team symbolicBase64 symbolicBase64 idealCrates noServer)
      (Db.empty, World.init idealCrates symbolicTape)).2.Sound :=
  team_sound (symbolicCratesWith_hkdfInjective _) (.init symbolicTape) symbolicTape_nonRepeating t

/-- The ideal crates refuse nothing that a team does. -/
theorem idealCrates_not_mayFail {β : Type} (call : TeamCall SByte (String ⊕ SString) β)
    (e : CryptoError) : ¬ TeamStore.MayFail idealCrates call e := by
  have hfits : ¬ idealCrates.SecretTooLong := by
    intro h
    cases h
  have hkeys : ∀ seed, ¬ idealCrates.RefusesKeys (idealCrates.keypairOf seed).publicKeys := by
    rintro seed (⟨secret, h⟩ | h)
    · have hcontributory : idealCrates.wasContributory (idealCrates.diffieHellman secret
          (idealCrates.keypairOf seed).publicKeys.x25519.bytes) = true :=
        symbolicCratesWith_contributory _ secret _
      rw [hcontributory] at h
      cases h
    · cases h
  have hwrap : ¬ idealCrates.WrapRefused e := by
    rintro (⟨-, h⟩ | ⟨-, seed, h⟩)
    · exact hfits h
    · exact hkeys seed h
  cases call with
  | register email password =>
      rintro (⟨-, h⟩ | ⟨salt, h | h⟩)
      · exact hfits h
      · cases h
      · cases h
  | push =>
      rintro ⟨-, version, h⟩
      cases h
  | createVault => exact hwrap
  | share => exact hwrap
  | rekey => exact hwrap
  | vaultKey => exact id
  | pull => exact id
  | tryKey => exact id

def anaPassword : SString := (atoms (.password 0) 12).toList

/-- The key of a vault is kept, the vault re-keyed, and the old key tried on it. -/
def keepAndTry : Interaction (TeamCall SByte (String ⊕ SString)) TeamError Unit :=
  .ask (.register "ana" anaPassword) fun _ =>
    .ask (.createVault "ana" anaPassword "team") fun
      | .ok key => .ask (.push "ana" anaPassword "team" teamNote.plaintext) fun _ =>
          .ask (.rekey "ana" anaPassword "team" "ben") fun _ =>
            .ask (.tryKey key "team" 0) fun _ => .done ()
      | _ => .done ()

theorem refined_by_team_keepAndTry :
    (TeamStore.monitor idealCrates symbolicBase64).Accepts TeamStore.empty
      (keepAndTry.trace (team symbolicBase64 symbolicBase64 idealCrates noServer)
        (Db.empty, World.init idealCrates symbolicTape)) :=
  TeamStore.refined_by_team idealCrates_idealised symbolicBase64_strict noServer symbolicTape
    keepAndTry (idealCrates_team_sound keepAndTry)

/-- A store behind rows and a world of symbolic bytes. -/
structure TeamStore.Symbolic (m : TeamStore SByte)
    (s : Db SByte (String ⊕ SString) × World idealCrates) : Prop where
  behind : m.Behind symbolicBase64 s
  inOrder : s.2.InOrder
  tape : s.2.tape = symbolicTape

theorem TeamStore.Symbolic.served {m : TeamStore SByte}
    {s : Db SByte (String ⊕ SString) × World idealCrates} (h : m.Symbolic s) {β : Type}
    (call : TeamCall SByte (String ⊕ SString) β)
    (hright : ∃ a, m.Right idealCrates symbolicBase64 call a) :
    ∃ a, (team symbolicBase64 symbolicBase64 idealCrates noServer β call s).1 = .ok a ∧
      m.Right idealCrates symbolicBase64 call a ∧ (m.next symbolicBase64 call (.ok a)).Symbolic
        (team symbolicBase64 symbolicBase64 idealCrates noServer β call s).2 := by
  have hsound : (team symbolicBase64 symbolicBase64 idealCrates noServer β call s).2.2.Sound :=
    team_sound (symbolicCratesWith_hkdfInjective _) h.inOrder
      (h.tape.symm ▸ symbolicTape_nonRepeating) (.ask call .done)
  obtain ⟨a, ha, hright, hbehind⟩ := h.behind.served idealCrates_idealised symbolicBase64_strict
    hsound hright (idealCrates_not_mayFail call)
  exact ⟨a, ha, hright, hbehind, team_inOrder call h.inOrder,
    (team_extends call s).tape.trans h.tape⟩

theorem exists_vaultKey_ne (key : VaultKey SByte) : ∃ other : VaultKey SByte, other ≠ key := by
  by_cases h : key = ⟨atoms (.draw .vaultKey 0) VAULT_KEY_LEN⟩
  · refine ⟨⟨atoms (.draw .vaultKey 1) VAULT_KEY_LEN⟩, ?_⟩
    intro heq
    have hsame := VaultKey.mk.inj (heq.trans h)
    cases (atoms_inj (by decide) (congrArg List.Vector.toList hsame)).1
  · exact ⟨_, fun heq => h heq.symm⟩

/-- Every step but the last succeeds. -/
theorem keepAndTry_trace : ∃ row key newKey x,
    keepAndTry.trace (team symbolicBase64 symbolicBase64 idealCrates noServer)
      (Db.empty, World.init idealCrates symbolicTape) =
        [⟨_, .register "ana" anaPassword, .ok row⟩,
          ⟨_, .createVault "ana" anaPassword "team", .ok key⟩,
          ⟨_, .push "ana" anaPassword "team" teamNote.plaintext, .ok ()⟩] ++
        ⟨_, .rekey "ana" anaPassword "team" "ben", .ok newKey⟩ ::
          [⟨_, .tryKey key "team" 0, x⟩] := by
  have h₀ : (TeamStore.empty : TeamStore SByte).Symbolic
      (Db.empty, World.init idealCrates symbolicTape) :=
    ⟨fun _ => ⟨Desk.empty, .init symbolicTape, .empty⟩, .init symbolicTape, rfl⟩
  obtain ⟨row, hrow, ⟨-, salt, hsalt⟩, h₁⟩ := h₀.served (.register "ana" anaPassword)
    ⟨⟨.inr [], .inr [], saltToBase64 symbolicBase64 (symbolicTape 0 .salt SALT_LEN), .inr [],
      .inr [], .inr [], .inr []⟩, rfl, _,
      (saltFromBase64_decides symbolicBase64_strict _).eq_ok rfl⟩
  simp only [TeamStore.next, hsalt] at h₁
  have hopens : (TeamStore.empty.addAccount "ana" ⟨anaPassword, salt⟩).Opens idealCrates "ana"
      anaPassword := ⟨_, TeamStore.addAccount_self .., rfl⟩
  obtain ⟨key, hkey, -, h₂⟩ := h₁.served (.createVault "ana" anaPassword "team")
    ⟨⟨atoms (.draw .vaultKey 0) VAULT_KEY_LEN⟩, hopens, rfl, id⟩
  have hcreated := TeamStore.Access.created hopens symbolicBase64 "team" key
  obtain ⟨⟨⟩, hunit, -, h₃⟩ := h₂.served (.push "ana" anaPassword "team" teamNote.plaintext)
    ⟨(), _, hcreated⟩
  have hpushed := hcreated.pushed symbolicBase64 teamNote.plaintext
  obtain ⟨other, hother⟩ := exists_vaultKey_ne key
  obtain ⟨newKey, hnewKey, -, -⟩ := h₃.served (.rekey "ana" anaPassword "team" "ben")
    ⟨other, ⟨_, hpushed⟩, fun hin => hin.elim hother id⟩
  refine ⟨row, key, newKey, ?_⟩
  simp only [keepAndTry, Interaction.trace, hrow, hkey, hunit, hnewKey]
  exact ⟨_, rfl⟩

theorem old_keys_open_nothing_keepAndTry : ∃ before after key newKey,
    keepAndTry.trace (team symbolicBase64 symbolicBase64 idealCrates noServer)
      (Db.empty, World.init idealCrates symbolicTape) =
        before ++ ⟨_, .rekey "ana" anaPassword "team" "ben", .ok newKey⟩ :: after ∧
    ⟨_, .createVault "ana" anaPassword "team", .ok key⟩ ∈ before ∧
    ∀ index plaintext, ⟨_, .tryKey key "team" index, .ok plaintext⟩ ∉ after := by
  obtain ⟨row, key, newKey, x, htrace⟩ := keepAndTry_trace
  refine ⟨_, _, key, newKey, htrace, List.mem_cons_of_mem _ List.mem_cons_self, ?_⟩
  intro index plaintext
  exact old_keys_open_nothing idealCrates_idealised symbolicBase64_strict noServer symbolicTape
    keepAndTry (idealCrates_team_sound keepAndTry) htrace
    (List.mem_cons_of_mem _ List.mem_cons_self) rfl index plaintext

end

end EvnxCrypto
