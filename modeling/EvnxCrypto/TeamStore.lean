import EvnxCrypto.Refusals
import EvnxCrypto.TeamFlows

/-!
# A team refines a store of plaintexts

What the documented flows add up to: accounts with passwords, vaults with members
and versions of plaintexts, and one current key for each vault. Whatever the members
do and in whatever order, their flows and the rows on the server answer as that
store does, and a key kept from before a re-keying opens nothing any more.
-/
namespace EvnxCrypto
open Effect ByteString AuthenticatedEncryption

variable {B T : Type}

/-! ## The store -/

structure Account (B : Type) where
  password : List B
  salt : List.Vector B SALT_LEN

structure TeamVault (B : Type) where
  key : VaultKey B
  members : List String
  contents : List (List B)

structure TeamStore (B : Type) where
  accounts : String → Option (Account B)
  vaults : String → Option (TeamVault B)
  issued : Set (VaultKey B)

namespace TeamStore

def empty : TeamStore B := ⟨fun _ => none, fun _ => none, ∅⟩

def modify (m : TeamStore B) (vaultId : String) (f : TeamVault B → TeamVault B) : TeamStore B :=
  { m with vaults := Function.update m.vaults vaultId ((m.vaults vaultId).map f) }

def issue (m : TeamStore B) (key : VaultKey B) : TeamStore B :=
  { m with issued := insert key m.issued }

def addAccount (m : TeamStore B) (email : String) (account : Account B) : TeamStore B :=
  { m with accounts := Function.update m.accounts email (some account) }

@[simp] theorem addAccount_self (m : TeamStore B) (email : String) (account : Account B) :
    (m.addAccount email account).accounts email = some account :=
  Function.update_self ..

/-- The store after a call. Only calls that succeeded change it. -/
def next (base64 : Codec (List B) T) (m : TeamStore B) {β : Type} :
    TeamCall B T β → Outcome TeamError β → TeamStore B
  | .register email password, .ok row =>
      match saltFromBase64 base64 row.argon2SaltB64 with
      | .ok salt => m.addAccount email ⟨password, salt⟩
      | _ => m
  | .createVault email _ vaultId, .ok key =>
      { m.issue key with
        vaults := Function.update m.vaults vaultId (some ⟨key, [email], []⟩) }
  | .push _ _ vaultId plaintext, .ok () =>
      m.modify vaultId fun v => { v with contents := v.contents ++ [plaintext] }
  | .share _ _ vaultId recipient, .ok () =>
      m.modify vaultId fun v => { v with members := recipient :: v.members }
  | .rekey _ _ vaultId removed, .ok key =>
      (m.issue key).modify vaultId fun v =>
        { v with key, members := v.members.filter (· ≠ removed) }
  | _, _ => m

variable [Byte B]

/-- A password opens an account where it yields the master key of the registered one. -/
def Opens (P : Crates B) (m : TeamStore B) (email : String) (password : List B) : Prop :=
  ∃ account, m.accounts email = some account ∧
    deriveMasterKey P password account.salt = deriveMasterKey P account.password account.salt

/-- A member with the right password. -/
structure Access (P : Crates B) (m : TeamStore B) (email : String) (password : List B)
    (vaultId : String) (v : TeamVault B) : Prop where
  opens : m.Opens P email password
  vault : m.vaults vaultId = some v
  member : email ∈ v.members

/-- The answers the store has to a call. -/
def Right (P : Crates B) (base64 : Codec (List B) T) (m : TeamStore B) :
    {β : Type} → TeamCall B T β → β → Prop
  | _, .register email _, row =>
      m.accounts email = none ∧ ∃ salt, saltFromBase64 base64 row.argon2SaltB64 = .ok salt
  | _, .createVault email password vaultId, key =>
      m.Opens P email password ∧ m.vaults vaultId = none ∧ key ∉ m.issued
  | _, .vaultKey email password vaultId, key =>
      ∃ v, m.Access P email password vaultId v ∧ key = v.key
  | _, .push email password vaultId _, _ => ∃ v, m.Access P email password vaultId v
  | _, .pull email password vaultId index, plaintext =>
      ∃ v, m.Access P email password vaultId v ∧ v.contents[index]? = some plaintext
  | _, .share email password vaultId recipient, _ =>
      (∃ v, m.Access P email password vaultId v) ∧ m.accounts recipient ≠ none
  | _, .rekey email password vaultId _, key =>
      (∃ v, m.Access P email password vaultId v) ∧ key ∉ m.issued
  | _, .tryKey key vaultId index, plaintext =>
      ∃ v, m.vaults vaultId = some v ∧ key = v.key ∧ v.contents[index]? = some plaintext

/-- The errors by which a call can fail although the store has an answer: a crate turns
down the password, the plaintext or what the client itself made. -/
def MayFail (P : Crates B) : {β : Type} → TeamCall B T β → CryptoError → Prop
  | _, .register _ password, e => P.RegistrationRefused password e
  | _, .push _ _ vaultId plaintext, e => e = .encryption ∧ ∃ version,
      (P.aead .aes256Gcm).fits plaintext.length (vaultAad (B := B) vaultId version).length = false
  | _, .createVault .., e => P.WrapRefused e
  | _, .share .., e => P.WrapRefused e
  | _, .rekey .., e => P.WrapRefused e
  | _, _, _ => False

/-- A call gets a right answer, and gets one wherever there is one, unless a crate turns
it down. -/
structure Allows (P : Crates B) (base64 : Codec (List B) T) (m : TeamStore B) {β : Type}
    (call : TeamCall B T β) (x : Outcome TeamError β) : Prop where
  right : ∀ a, x = .ok a → m.Right P base64 call a
  served : (∃ a, m.Right P base64 call a) →
    (∃ a, x = .ok a) ∨ ∃ e, x = .err (.crypto e) ∧ MayFail P call e

def monitor (P : Crates B) (base64 : Codec (List B) T) : Monitor (TeamCall B T) TeamError where
  State := TeamStore B
  allows m _ call x := m.Allows P base64 call x
  next m _ call x := m.next base64 call x

variable {P : Crates B} {base64 : Codec (List B) T} {m : TeamStore B} {β : Type}
  {call : TeamCall B T β}

theorem Allows.of_right {a : β} (h : m.Right P base64 call a) : m.Allows P base64 call (.ok a) where
  right b hb := by
    cases hb
    exact h
  served _ := .inl ⟨a, rfl⟩

theorem Allows.of_none (h : ∀ a, ¬ m.Right P base64 call a) (e : TeamError) :
    m.Allows P base64 call (.err e) where
  right _ hb := by cases hb
  served hserved := (hserved.elim h).elim

theorem Allows.of_mayFail {e : CryptoError} (h : MayFail P call e) :
    m.Allows P base64 call (.err (.crypto e)) where
  right _ hb := by cases hb
  served _ := .inr ⟨e, rfl, h⟩

omit [Byte B] in
theorem next_err (base64 : Codec (List B) T) (m : TeamStore B) (call : TeamCall B T β)
    (e : TeamError) : m.next base64 call (.err e) = m := by
  cases call <;> rfl

theorem Access.created {email : String} {password : List B} (h : m.Opens P email password)
    (base64 : Codec (List B) T) (vaultId : String) (key : VaultKey B) :
    (m.next base64 (.createVault email password vaultId) (.ok key)).Access P email password vaultId
      ⟨key, [email], []⟩ :=
  ⟨h, Function.update_self .., List.mem_cons_self⟩

theorem Access.pushed {email vaultId : String} {password : List B} {v : TeamVault B}
    (h : m.Access P email password vaultId v) (base64 : Codec (List B) T) (plaintext : List B) :
    (m.next base64 (.push email password vaultId plaintext) (.ok ())).Access P email password
      vaultId { v with contents := v.contents ++ [plaintext] } := by
  refine ⟨h.opens, ?_, h.member⟩
  simp only [next, modify, Function.update_self, h.vault, Option.map_some]

/-! ## Keys of a vault -/

omit [Byte B] in
/-- A registration is about accounts only. -/
theorem next_register (base64 : Codec (List B) T) (m : TeamStore B) (email : String)
    (password : List B) (row : AccountRow T) :
    (m.next base64 (.register email password) (.ok row)).vaults = m.vaults ∧
      (m.next base64 (.register email password) (.ok row)).issued = m.issued := by
  simp only [next]
  split <;> exact ⟨rfl, rfl⟩

omit [Byte B] in
theorem issued_next (base64 : Codec (List B) T) (m : TeamStore B) (call : TeamCall B T β)
    (x : Outcome TeamError β) : m.issued ⊆ (m.next base64 call x).issued := by
  cases x with
  | ok a =>
      cases call with
      | register email password => rw [(next_register base64 m email password a).2]
      | createVault => exact Set.subset_insert _ _
      | rekey => exact Set.subset_insert _ _
      | _ => exact subset_rfl
  | err e => rw [next_err]
  | panic => cases call <;> exact subset_rfl

/-- A vault keeps its key, or its key is one that was not issued before. -/
def KeyKept (m m' : TeamStore B) (vaultId : String) : Prop :=
  ∀ v', m'.vaults vaultId = some v' →
    (∃ v, m.vaults vaultId = some v ∧ v'.key = v.key) ∨ v'.key ∈ m'.issued \ m.issued

omit [Byte B] in
theorem KeyKept.of_eq {m' : TeamStore B} {vaultId : String}
    (h : m'.vaults vaultId = m.vaults vaultId) : m.KeyKept m' vaultId :=
  fun v' hv' => .inl ⟨v', h ▸ hv', rfl⟩

omit [Byte B] in
theorem modify_keyKept (m : TeamStore B) (vaultId : String) {f : TeamVault B → TeamVault B}
    (hkey : ∀ v, (f v).key = v.key) (other : String) :
    m.KeyKept (m.modify vaultId f) other := by
  by_cases h : other = vaultId
  · subst h
    intro v' hv'
    simp only [modify, Function.update_self, Option.map_eq_some_iff] at hv'
    obtain ⟨v, hv, rfl⟩ := hv'
    exact .inl ⟨v, hv, hkey v⟩
  · exact .of_eq (Function.update_of_ne h _ _)

/-- Only the creation of a vault and a re-keying give a vault a key, a new one. -/
theorem next_keyKept (base64 : Codec (List B) T) {x : Outcome TeamError β}
    (h : m.Allows P base64 call x) (vaultId : String) :
    m.KeyKept (m.next base64 call x) vaultId := by
  cases x with
  | ok a =>
      cases call with
      | register email password =>
          exact .of_eq (congrFun (next_register base64 m email password a).1 vaultId)
      | createVault email password created =>
          obtain ⟨-, -, hnew⟩ := h.right a rfl
          intro v' hv'
          by_cases hid : vaultId = created
          · subst hid
            simp only [next, issue, Function.update_self, Option.some.injEq] at hv'
            subst hv'
            exact .inr ⟨Set.mem_insert _ _, hnew⟩
          · simp only [next, issue, Function.update_of_ne hid] at hv'
            exact .inl ⟨v', hv', rfl⟩
      | push =>
          apply modify_keyKept
          intro v
          rfl
      | share =>
          apply modify_keyKept
          intro v
          rfl
      | rekey email password rekeyed removed =>
          obtain ⟨-, hnew⟩ := h.right a rfl
          intro v' hv'
          by_cases hid : vaultId = rekeyed
          · subst hid
            simp only [next, issue, modify, Function.update_self, Option.map_eq_some_iff] at hv'
            obtain ⟨v, -, rfl⟩ := hv'
            exact .inr ⟨Set.mem_insert _ _, hnew⟩
          · simp only [next, issue, modify, Function.update_of_ne hid] at hv'
            exact .inl ⟨v', hv', rfl⟩
      | _ => exact .of_eq rfl
  | err e =>
      rw [next_err]
      exact .of_eq rfl
  | panic => cases call <;> exact .of_eq rfl

end TeamStore

/-- The vault key that an answer gives. -/
def TeamCall.Gives : {β : Type} → TeamCall B T β → Outcome TeamError β → VaultKey B → Prop
  | _, .createVault .., x, key => x = .ok key
  | _, .vaultKey .., x, key => x = .ok key
  | _, .rekey .., x, key => x = .ok key
  | _, _, _, _ => False

namespace TeamStore

/-- Every key of a vault and every key given is one that was issued. -/
structure KeysIssued (es : List (Exchange (TeamCall B T) TeamError)) (m : TeamStore B) : Prop where
  vaults : ∀ vaultId v, m.vaults vaultId = some v → v.key ∈ m.issued
  given : ∀ e ∈ es, ∀ key, e.call.Gives e.answer key → key ∈ m.issued

/-- A vault has a key outside a set, which none of the set's keys opened. -/
structure Revoked (vaultId : String) (old : Set (VaultKey B))
    (es : List (Exchange (TeamCall B T) TeamError)) (m : TeamStore B) : Prop where
  issued : old ⊆ m.issued
  current : ∀ v, m.vaults vaultId = some v → v.key ∉ old
  opens : ∀ key ∈ old, ∀ index plaintext, ⟨_, .tryKey key vaultId index, .ok plaintext⟩ ∉ es

variable [Byte B] {P : Crates B} {m : TeamStore B} {β : Type} {call : TeamCall B T β}
  {x : Outcome TeamError β} {es : List (Exchange (TeamCall B T) TeamError)}

theorem KeysIssued.next (h : KeysIssued es m) (base64 : Codec (List B) T)
    (hx : m.Allows P base64 call x) : KeysIssued (es ++ [⟨β, call, x⟩]) (m.next base64 call x) where
  vaults vaultId v' hv' := by
    rcases next_keyKept base64 hx vaultId v' hv' with ⟨v, hv, hkey⟩ | hnew
    · rw [hkey]
      exact issued_next base64 m call x (h.vaults vaultId v hv)
    · exact hnew.1
  given e he key hkey := by
    rcases List.mem_append.mp he with he | he
    · exact issued_next base64 m call x (h.given e he key hkey)
    · obtain rfl := List.mem_singleton.mp he
      cases call with
      | createVault =>
          obtain rfl : x = .ok key := hkey
          exact Set.mem_insert _ _
      | vaultKey email password vaultId =>
          obtain rfl : x = .ok key := hkey
          obtain ⟨v, hv, rfl⟩ := hx.right key rfl
          exact h.vaults vaultId v hv.vault
      | rekey =>
          obtain rfl : x = .ok key := hkey
          exact Set.mem_insert _ _
      | _ => exact hkey.elim

theorem Revoked.next {vaultId : String} {old : Set (VaultKey B)} (h : Revoked vaultId old es m)
    (base64 : Codec (List B) T) (hx : m.Allows P base64 call x) :
    Revoked vaultId old (es ++ [⟨β, call, x⟩]) (m.next base64 call x) where
  issued := h.issued.trans (issued_next base64 m call x)
  current v' hv' := by
    rcases next_keyKept base64 hx vaultId v' hv' with ⟨v, hv, hkey⟩ | hnew
    · rw [hkey]
      exact h.current v hv
    · exact fun hold => hnew.2 (h.issued hold)
  opens key hkey index plaintext he := by
    rcases List.mem_append.mp he with he | he
    · exact h.opens key hkey index plaintext he
    · cases List.mem_singleton.mp he
      obtain ⟨v, hv, rfl, -⟩ := hx.right plaintext rfl
      exact h.current v hv hkey

theorem Revoked.of_rekey (base64 : Codec (List B) T) {email vaultId removed : String}
    {password : List B} {newKey : VaultKey B}
    (h : m.Allows P base64 (.rekey (T := T) email password vaultId removed) (.ok newKey)) :
    Revoked vaultId m.issued ([] : List (Exchange (TeamCall B T) TeamError))
      (m.next base64 (.rekey email password vaultId removed) (.ok newKey)) where
  issued := Set.subset_insert _ _
  current v' hv' := by
    obtain ⟨-, hnew⟩ := h.right newKey rfl
    simp only [TeamStore.next, issue, modify, Function.update_self, Option.map_eq_some_iff] at hv'
    obtain ⟨v, -, rfl⟩ := hv'
    exact hnew
  opens := nofun

/-- In every accepted run, what was given before a re-keying opens nothing after it. -/
theorem revoked_of_accepts (base64 : Codec (List B) T)
    {before after : List (Exchange (TeamCall B T) TeamError)} {email vaultId removed : String}
    {password : List B} {newKey : VaultKey B}
    (h : (monitor P base64).Accepts empty
      (before ++ ⟨_, .rekey email password vaultId removed, .ok newKey⟩ :: after))
    {e : Exchange (TeamCall B T) TeamError} (he : e ∈ before) {key : VaultKey B}
    (hkey : e.call.Gives e.answer key) (index : ℕ) (plaintext : List B) :
    ⟨_, .tryKey key vaultId index, .ok plaintext⟩ ∉ after := by
  obtain ⟨hbefore, hrekey, hafter⟩ := (Monitor.accepts_append _ _ _).mp h
  have hissued := hbefore.invariant (Q := KeysIssued) (fun _ _ _ _ _ hm hx => hm.next base64 hx)
    ⟨nofun, nofun⟩
  have hrevoked := hafter.invariant (Q := Revoked vaultId _)
    (fun _ _ _ _ _ hm hx => hm.next base64 hx) (Revoked.of_rekey base64 hrekey)
  exact hrevoked.opens key (hissued.given e he key hkey) index plaintext

end TeamStore
end EvnxCrypto
