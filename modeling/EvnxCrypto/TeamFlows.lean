import EvnxCrypto.Flow
import EvnxCrypto.Api
import EvnxCrypto.Wire

/-!
# The documented flows of a team

Registration, login, vault creation, push, pull, sharing and re-keying as the
documentation and the tests of the crate write them, each a flow over the native
interface. The server stores the rows it is sent and hands them back as they are.
-/
namespace EvnxCrypto
open Effect ByteString

variable {B T : Type}

/-! ## Rows of the server -/

/-- The registration payload. -/
structure AccountRow (T : Type) where
  verifierHex : T
  srpSaltB64 : T
  argon2SaltB64 : T
  ed25519B64 : T
  x25519B64 : T
  mlkemB64 : T
  encryptedPrivateKeyB64 : T

/-- The three fields of a member's copy of a vault key. -/
structure WrapRow (T : Type) where
  encryptedVaultKeyB64 : T
  ephPubKeyB64 : T
  mlkemCiphertextB64 : T

/-- Members with their copies of the vault key, and the versions, oldest first. -/
structure VaultRow (B T : Type) where
  wraps : List (String × WrapRow T)
  blobs : List (EncryptedBlob B)

structure Db (B T : Type) where
  accounts : String → Option (AccountRow T)
  vaults : String → Option (VaultRow B T)

namespace Db

def empty : Db B T := ⟨fun _ => none, fun _ => none⟩

def putAccount (db : Db B T) (email : String) (row : AccountRow T) : Db B T :=
  { db with accounts := Function.update db.accounts email (some row) }

def putVault (db : Db B T) (vaultId : String) (row : VaultRow B T) : Db B T :=
  { db with vaults := Function.update db.vaults vaultId (some row) }

end Db

/-! ## Flows of a client -/

/-- A flow of the native client. -/
abbrev ClientFlow (B α : Type) : Type 1 := Flow (Api B) CryptoError α

section
variable [Byte B] (base64 hex : Codec (List B) T)

def WrappedVaultKey.row (wrapped : WrappedVaultKey B) : WrapRow T where
  encryptedVaultKeyB64 := wrapped.encryptedVaultKeyBase64 base64
  ephPubKeyB64 := wrapped.ephPubKeyBase64 base64
  mlkemCiphertextB64 := wrapped.mlkemCiphertextBase64 base64

def registerFlow (email : String) (password : List B) : ClientFlow B (AccountRow T) := do
  let argon2Salt ← Flow.call .generateSalt
  let srpSalt ← Flow.call .generateSalt
  let masterKey ← Flow.call (.deriveMasterKey password argon2Salt)
  let keypair ← Flow.call .generateKeypair
  let encPrivateKey ← Flow.call (.encryptPrivateKey keypair masterKey)
  let srpPassword ← Flow.call (.deriveSrpPassword password srpSalt)
  let verifier ← Flow.call (.computeVerifier email srpPassword srpSalt)
  pure {
    verifierHex := verifier.verifierHex hex
    srpSaltB64 := verifier.srpSaltBase64 base64
    argon2SaltB64 := saltToBase64 base64 argon2Salt
    ed25519B64 := keypair.ed25519PublicBase64 base64
    x25519B64 := keypair.x25519PublicBase64 base64
    mlkemB64 := keypair.mlkemPublicBase64 base64
    encryptedPrivateKeyB64 := encPrivateKey.toBase64 base64 }

/-- The first step of a login: the client stores nothing, so the master key is derived
again and the key pair comes back from the server's row. -/
def unlockFlow (row : AccountRow T) (password : List B) : ClientFlow B (UserKeypair B) := do
  let encPrivateKey ← Flow.lift (EncryptedPrivateKey.fromBase64 base64 row.encryptedPrivateKeyB64)
  let argon2Salt ← Flow.lift (saltFromBase64 base64 row.argon2SaltB64)
  let masterKey ← Flow.call (.deriveMasterKey password argon2Salt)
  Flow.call (.decryptPrivateKey encPrivateKey masterKey)

def vaultKeyFlow (wrap : WrapRow T) (keypair : UserKeypair B) : ClientFlow B (VaultKey B) := do
  let wrapped ← Flow.lift (WrappedVaultKey.fromBase64 base64 wrap.encryptedVaultKeyB64
    wrap.ephPubKeyB64 wrap.mlkemCiphertextB64)
  Flow.call (.unwrapVaultKey wrapped keypair)

/-- Both public keys of the recipient, as the wire carries them. -/
def wrapFlow (vaultKey : VaultKey B) (recipient : AccountRow T) : ClientFlow B (WrapRow T) := do
  let keys ← Flow.lift (UserPublicKeys.fromBase64 base64 recipient.x25519B64 recipient.mlkemB64)
  let wrapped ← Flow.call (.wrapVaultKeyForUser vaultKey keys)
  pure (wrapped.row base64)

/-- The version of the `i`th blob, in the 32 bits the associated data has for it. -/
def versionNum (i : ℕ) : UInt32 := UInt32.ofNat (i + 1)

/-- Every version is moved to the new key under its own associated data. -/
def rekeyFlow (vaultId : String) (oldKey newKey : VaultKey B)
    (blobs : List (EncryptedBlob B)) : ClientFlow B (List (EncryptedBlob B)) :=
  Flow.traverse (fun (blob, i) =>
    Flow.call (.reencryptVault blob oldKey newKey (vaultAad vaultId (versionNum i)))) blobs.zipIdx

def rewrapFlow (newKey : VaultKey B) (members : List (String × AccountRow T)) :
    ClientFlow B (List (String × WrapRow T)) :=
  Flow.traverse (fun (name, row) => do
    let copy ← wrapFlow base64 newKey row
    pure (name, copy)) members

/-! ## Calls of a team -/

/-- A call fails on the server, which has no row to serve or would overwrite one, or in
its flow. -/
inductive TeamError where
  | noRow
  | crypto (e : CryptoError)
  deriving DecidableEq

/-- What the members of a team do. -/
inductive TeamCall (B T : Type) : Type → Type
  | register (email : String) (password : List B) : TeamCall B T (AccountRow T)
  | createVault (email : String) (password : List B) (vaultId : String) :
      TeamCall B T (VaultKey B)
  | vaultKey (email : String) (password : List B) (vaultId : String) : TeamCall B T (VaultKey B)
  | push (email : String) (password : List B) (vaultId : String) (plaintext : List B) :
      TeamCall B T Unit
  | pull (email : String) (password : List B) (vaultId : String) (index : ℕ) :
      TeamCall B T (List B)
  | share (email : String) (password : List B) (vaultId recipient : String) : TeamCall B T Unit
  /-- A member is removed: a new key, every version moved to it, the others given it. -/
  | rekey (email : String) (password : List B) (vaultId removed : String) :
      TeamCall B T (VaultKey B)
  /-- Whoever kept a vault key tries it on a stored version. -/
  | tryKey (key : VaultKey B) (vaultId : String) (index : ℕ) : TeamCall B T (List B)

/-- The rows a member needs to work on a vault. -/
def Db.membership (db : Db B T) (email vaultId : String) :
    Option (AccountRow T × VaultRow B T × WrapRow T) := do
  let row ← db.accounts email
  let vault ← db.vaults vaultId
  let wrap ← vault.wraps.lookup email
  some (row, vault, wrap)

/-- The accounts of the members that stay. -/
def Db.remaining (db : Db B T) (vault : VaultRow B T) (removed : String) :
    List (String × AccountRow T) :=
  ((vault.wraps.map Prod.fst).filter (· ≠ removed)).filterMap fun name =>
    (db.accounts name).map fun row => (name, row)

omit [Byte B] in
theorem Db.membership_eq_some {db : Db B T} {email vaultId : String} {row : AccountRow T}
    {vault : VaultRow B T} {wrap : WrapRow T} :
    db.membership email vaultId = some (row, vault, wrap) ↔
      db.accounts email = some row ∧ db.vaults vaultId = some vault ∧
        vault.wraps.lookup email = some wrap := by
  simp only [Db.membership, Option.bind_eq_bind, Option.bind_eq_some_iff, Option.some.injEq,
    Prod.mk.injEq]
  constructor
  · rintro ⟨_, hrow, _, hvault, _, hwrap, rfl, rfl, rfl⟩
    exact ⟨hrow, hvault, hwrap⟩
  · rintro ⟨hrow, hvault, hwrap⟩
    exact ⟨_, hrow, _, hvault, _, hwrap, rfl, rfl, rfl⟩

omit [Byte B] in
theorem Db.accounts_remaining {db : Db B T} {vault : VaultRow B T} {removed : String}
    {member : String × AccountRow T} (hmember : member ∈ db.remaining vault removed) :
    db.accounts member.1 = some member.2 := by
  obtain ⟨name, -, hname⟩ := List.mem_filterMap.mp hmember
  obtain ⟨row, hrow, rfl⟩ := Option.map_eq_some_iff.mp hname
  exact hrow

/-- The flow for whoever has the rows, with what is stored after it. -/
def Db.serve (db : Db B T) : {β : Type} → TeamCall B T β → Option (ClientFlow B (β × Db B T))
  | _, .register email password =>
      match db.accounts email with
      | none => some do
          let row ← registerFlow base64 hex email password
          pure (row, db.putAccount email row)
      | some _ => none
  | _, .createVault email password vaultId =>
      match db.accounts email, db.vaults vaultId with
      | some row, none => some do
          let keypair ← unlockFlow base64 row password
          let vaultKey ← Flow.call .generateVaultKey
          let wrapped ← Flow.call (.wrapVaultKeyForUser vaultKey keypair.publicKeys)
          pure (vaultKey, db.putVault vaultId ⟨[(email, wrapped.row base64)], []⟩)
      | _, _ => none
  | _, .vaultKey email password vaultId =>
      match db.membership email vaultId with
      | some (row, _, wrap) => some do
          let keypair ← unlockFlow base64 row password
          let key ← vaultKeyFlow base64 wrap keypair
          pure (key, db)
      | none => none
  | _, .push email password vaultId plaintext =>
      match db.membership email vaultId with
      | some (row, vault, wrap) => some do
          let keypair ← unlockFlow base64 row password
          let key ← vaultKeyFlow base64 wrap keypair
          let blob ← Flow.call (.encryptVault plaintext key
            (vaultAad vaultId (versionNum vault.blobs.length)))
          pure ((), db.putVault vaultId { vault with blobs := vault.blobs ++ [blob] })
      | none => none
  | _, .pull email password vaultId index =>
      match db.membership email vaultId with
      | some (row, vault, wrap) =>
          match vault.blobs[index]? with
          | some blob => some do
              let keypair ← unlockFlow base64 row password
              let key ← vaultKeyFlow base64 wrap keypair
              let plaintext ← Flow.call
                (.decryptVault blob key (vaultAad vaultId (versionNum index)))
              pure (plaintext, db)
          | none => none
      | none => none
  | _, .share email password vaultId recipient =>
      match db.membership email vaultId, db.accounts recipient with
      | some (row, vault, wrap), some recipientRow => some do
          let keypair ← unlockFlow base64 row password
          let key ← vaultKeyFlow base64 wrap keypair
          let copy ← wrapFlow base64 key recipientRow
          pure ((), db.putVault vaultId { vault with wraps := (recipient, copy) :: vault.wraps })
      | _, _ => none
  | _, .rekey email password vaultId removed =>
      match db.membership email vaultId with
      | some (row, vault, wrap) => some do
          let keypair ← unlockFlow base64 row password
          let oldKey ← vaultKeyFlow base64 wrap keypair
          let newKey ← Flow.call .generateVaultKey
          let blobs ← rekeyFlow vaultId oldKey newKey vault.blobs
          let wraps ← rewrapFlow base64 newKey (db.remaining vault removed)
          pure (newKey, db.putVault vaultId ⟨wraps, blobs⟩)
      | none => none
  | _, .tryKey key vaultId index =>
      match db.vaults vaultId with
      | some vault =>
          match vault.blobs[index]? with
          | some blob => some do
              let plaintext ← Flow.call
                (.decryptVault blob key (vaultAad vaultId (versionNum index)))
              pure (plaintext, db)
          | none => none
      | none => none

/-- The team at work: rows are stored where a flow succeeds. -/
def team [DecidableEq B] (P : Crates B) (S : SrpClient B) :
    Handler (TeamCall B T) (Db B T × World P) TeamError :=
  fun _ call => ⟨fun s =>
    match s.1.serve base64 hex call with
    | none => (.err .noRow, s)
    | some flow =>
        match flow.result (Api.call P S) s.2 with
        | .ok (answer, db) => (.ok answer, (db, flow.final (Api.call P S) s.2))
        | .err e => (.err (.crypto e), (s.1, flow.final (Api.call P S) s.2))
        | .panic => (.panic, (s.1, flow.final (Api.call P S) s.2))⟩

end
end EvnxCrypto
