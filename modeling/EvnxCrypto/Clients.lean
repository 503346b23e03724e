import EvnxCrypto.Deduction
import EvnxCrypto.Srp
import Mathlib.Logic.Relation

/-!
# Clients and what they send

A step is one successful call of one client, on secrets some client holds, with
everything it sends to the server. Nothing else ties the calls together: users
are not kept apart, a salt may be used for both derivations, and salts, blobs and
associated data may be the server's.
-/
namespace EvnxCrypto
open Effect ByteString AuthenticatedEncryption

variable {B : Type}

/-- The secrets clients hold, the strings they have sent, and the world. -/
structure Clients (P : Crates B) where
  masterKeys : List (MasterKey B)
  keypairs : List (UserKeypair B)
  vaultKeys : List (VaultKey B)
  sent : List (List B)
  world : World P

variable {P : Crates B}

def Clients.start (w : World P) : Clients P where
  masterKeys := []
  keypairs := []
  vaultKeys := []
  sent := []
  world := w

variable [Byte B]

inductive ClientStep (passwords : Set (List B)) : Clients P → Clients P → Prop
  | generateSalt {s : Clients P} {salt : List.Vector B SALT_LEN} {w : World P} :
      generateSalt P s.world = (.ok salt, w) →
      ClientStep passwords s { s with sent := salt.toList :: s.sent, world := w }
  | deriveMasterKey {s : Clients P} {password : List B} {salt : List.Vector B SALT_LEN}
      {masterKey : MasterKey B} : password ∈ passwords →
      deriveMasterKey P password salt = .ok masterKey →
      ClientStep passwords s { s with masterKeys := masterKey :: s.masterKeys }
  | register {s : Clients P} {email : String} {password srpPassword : List B}
      {salt : List.Vector B SALT_LEN} {verifier : SrpVerifier B} : password ∈ passwords →
      salt.toList ∈ s.sent → deriveSrpPassword P password salt = .ok srpPassword →
      computeVerifier P email srpPassword salt = .ok verifier →
      ClientStep passwords s
        { s with sent := verifier.verifier :: verifier.srpSalt.toList :: s.sent }
  | generateKeypair {s : Clients P} {keypair : UserKeypair B} {w : World P} :
      generateKeypair P s.world = (.ok keypair, w) →
      ClientStep passwords s
        { s with
          keypairs := keypair :: s.keypairs
          sent := keypair.ed25519Public.bytes.toList :: keypair.publicKeys.fields ++ s.sent
          world := w }
  | encryptPrivateKey {s : Clients P} {keypair : UserKeypair B} {masterKey : MasterKey B}
      {enc : EncryptedPrivateKey B} {w : World P} :
      keypair ∈ s.keypairs → masterKey ∈ s.masterKeys →
      encryptPrivateKey P keypair masterKey s.world = (.ok enc, w) →
      ClientStep passwords s { s with sent := enc.fields ++ s.sent, world := w }
  | generateVaultKey {s : Clients P} {vaultKey : VaultKey B} {w : World P} :
      VaultKey.generate P s.world = (.ok vaultKey, w) →
      ClientStep passwords s { s with vaultKeys := vaultKey :: s.vaultKeys, world := w }
  | wrapWithMasterKey {s : Clients P} {vaultKey : VaultKey B} {masterKey : MasterKey B}
      {wrapped : List B} {w : World P} :
      vaultKey ∈ s.vaultKeys → masterKey ∈ s.masterKeys →
      wrapVaultKeyWithMasterKey P vaultKey masterKey s.world = (.ok wrapped, w) →
      ClientStep passwords s { s with sent := wrapped :: s.sent, world := w }
  | wrapForUser {s : Clients P} {vaultKey : VaultKey B} {recipient : UserKeypair B}
      {wrapped : WrappedVaultKey B} {w : World P} :
      vaultKey ∈ s.vaultKeys → recipient ∈ s.keypairs →
      wrapVaultKeyForUser P vaultKey recipient.publicKeys s.world = (.ok wrapped, w) →
      ClientStep passwords s { s with sent := wrapped.fields ++ s.sent, world := w }
  | encryptVault {s : Clients P} {plaintext aad : List B} {vaultKey : VaultKey B}
      {blob : EncryptedBlob B} {w : World P} : vaultKey ∈ s.vaultKeys →
      encryptVault P plaintext vaultKey aad s.world = (.ok blob, w) →
      ClientStep passwords s { s with sent := blob.fields ++ s.sent, world := w }
  | reencryptVault {s : Clients P} {blob fresh : EncryptedBlob B} {oldKey newKey : VaultKey B}
      {aad : List B} {w : World P} : oldKey ∈ s.vaultKeys → newKey ∈ s.vaultKeys →
      reencryptVault P blob oldKey newKey aad s.world = (.ok fresh, w) →
      ClientStep passwords s { s with sent := fresh.fields ++ s.sent, world := w }
  | blobHash {s : Clients P} {ciphertext : List B} : ciphertext ∈ s.sent →
      ClientStep passwords s { s with sent := blobHash P id ciphertext :: s.sent }
  -- a call that fails or only opens sends nothing, and may have drawn and derived
  | failed {s : Clients P} {w : World P} : s.world.Extends w →
      ClientStep passwords s { s with world := w }

/-- The states a run of calls reaches, in any order and number. -/
def Clients.Reachable (passwords : Set (List B)) (w : World P) (s : Clients P) : Prop :=
  Relation.ReflTransGen (ClientStep passwords) (.start w) s

end EvnxCrypto
