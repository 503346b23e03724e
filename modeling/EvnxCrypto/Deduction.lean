import EvnxCrypto.Sharing
import Mathlib.Data.Set.Basic

/-!
# What an adversary can compute

A value on the wire is the list of its fields. What can be computed from strings
is their closure under everything the crates compute, together with cutting,
joining and writing down literal bytes. Opening a ciphertext needs its key; the
ciphers may be run against any genuine record.
-/
namespace EvnxCrypto
open Effect ByteString AuthenticatedEncryption

variable {B : Type}

def UserPublicKeys.fields (keys : UserPublicKeys B) : List (List B) :=
  [keys.x25519.bytes.toList, keys.mlkem.bytes.toList]

def EncryptedBlob.fields (blob : EncryptedBlob B) : List (List B) :=
  [blob.nonce.toList, blob.ciphertext]

def WrappedVaultKey.fields (wrapped : WrappedVaultKey B) : List (List B) :=
  [wrapped.ephPubKey.toList, wrapped.mlkemCiphertext, wrapped.encryptedVaultKey]

def EncryptedPrivateKey.fields (enc : EncryptedPrivateKey B) : List (List B) :=
  [enc.nonce.toList, enc.ciphertext]

variable [Byte B]

inductive Derivable (P : Crates B) (K : Set (List B)) : List B → Prop
  | known {x : List B} : x ∈ K → Derivable P K x
  | lits (bs : List UInt8) : Derivable P K (lits bs)
  | append {x y : List B} : Derivable P K x → Derivable P K y → Derivable P K (x ++ y)
  | take {x : List B} (n : ℕ) : Derivable P K x → Derivable P K (x.take n)
  | drop {x : List B} (n : ℕ) : Derivable P K x → Derivable P K (x.drop n)
  | hkdfExpand {ikm info : List B} {n : ℕ} {okm : List.Vector B n} :
      P.hkdfExpand ikm info n = some okm →
      Derivable P K ikm → Derivable P K info → Derivable P K okm.toList
  | argon2id {m t p n : ℕ} {secret password salt : List B} {v : List.Vector B n} :
      P.argon2id m t p secret password salt n = .ok v →
      Derivable P K secret → Derivable P K password → Derivable P K salt →
      Derivable P K v.toList
  | blake3Hash {x : List B} : Derivable P K x → Derivable P K (P.blake3Hash x).toList
  | ed25519VerifyingKey {seed : List.Vector B 32} : Derivable P K seed.toList →
      Derivable P K (P.ed25519VerifyingKey seed).toList
  | x25519StaticSecret {a : List.Vector B 32} : Derivable P K a.toList →
      Derivable P K (P.x25519StaticSecret a).toList
  | x25519PublicKey {a : List.Vector B 32} : Derivable P K a.toList →
      Derivable P K (P.x25519PublicKey a).toList
  | diffieHellman {a point : List.Vector B 32} : Derivable P K a.toList →
      Derivable P K point.toList → Derivable P K (P.diffieHellman a point).toList
  | mlkemFromSeed {seed : List.Vector B 64} : Derivable P K seed.toList →
      Derivable P K (P.mlkemFromSeed seed).encoding
  | mlkemEncapsulationKey {dk : DecapsulationKey768 B} : Derivable P K dk.encoding →
      Derivable P K (P.mlkemEncapsulationKey dk).toList
  | encapsulated {ek : List.Vector B 1184} {m : List.Vector B 32} : Derivable P K ek.toList →
      Derivable P K m.toList → Derivable P K (P.encapsulateDeterministic ek m).1.toList
  | encapsulatedSecret {ek : List.Vector B 1184} {m : List.Vector B 32} :
      Derivable P K ek.toList → Derivable P K m.toList →
      Derivable P K (P.encapsulateDeterministic ek m).2.toList
  | decapsulated {dk : DecapsulationKey768 B} {ct : List B} {ss : List.Vector B 32} :
      P.decapsulateSlice dk ct = some ss →
      Derivable P K dk.encoding → Derivable P K ct → Derivable P K ss.toList
  | srpComputeVerifier {username password salt : List B} : Derivable P K username →
      Derivable P K password → Derivable P K salt →
      Derivable P K (P.srpComputeVerifier username password salt)
  | aeadEncrypt {c : Cipher} {key nonce aad msg ct : List B} :
      (P.aead c).encrypt key nonce aad msg = some ct →
      Derivable P K key → Derivable P K nonce → Derivable P K aad → Derivable P K msg →
      Derivable P K ct
  | aeadDecrypt {c : Cipher} {key nonce aad ct msg : List B} (H : History (P.aead c)) :
      (P.aead c).decrypt H.sealings key nonce aad ct = some msg →
      Derivable P K key → Derivable P K nonce → Derivable P K aad → Derivable P K ct →
      Derivable P K msg

namespace Derivable
variable {P : Crates B} {K : Set (List B)}

theorem asBytes (s : String) : Derivable P K (asBytes s) := .lits _

theorem okm {ikm info : List B} (n : ℕ) (hn : n ≤ 255 * 32) (hikm : Derivable P K ikm)
    (hinfo : Derivable P K info) : Derivable P K (P.okm ikm info n hn).toList :=
  .hkdfExpand (P.hkdfExpand_eq ikm info hn) hikm hinfo

theorem subkey {ikm info : List B} (hikm : Derivable P K ikm) (hinfo : Derivable P K info) :
    Derivable P K (P.subkey ikm info).toList :=
  okm 32 _ hikm hinfo

/-- What can be computed from computed strings can be computed. -/
theorem cut {K' : Set (List B)} (hK : ∀ y ∈ K, Derivable P K' y) {x : List B}
    (h : Derivable P K x) : Derivable P K' x := by
  induction h with
  | known hx => exact hK _ hx
  | lits bs => exact .lits bs
  | append _ _ ihx ihy => exact .append ihx ihy
  | take n _ ih => exact .take n ih
  | drop n _ ih => exact .drop n ih
  | hkdfExpand h _ _ ihikm ihinfo => exact .hkdfExpand h ihikm ihinfo
  | argon2id h _ _ _ ihsecret ihpassword ihsalt => exact .argon2id h ihsecret ihpassword ihsalt
  | blake3Hash _ ih => exact .blake3Hash ih
  | ed25519VerifyingKey _ ih => exact .ed25519VerifyingKey ih
  | x25519StaticSecret _ ih => exact .x25519StaticSecret ih
  | x25519PublicKey _ ih => exact .x25519PublicKey ih
  | diffieHellman _ _ ihscalar ihpoint => exact .diffieHellman ihscalar ihpoint
  | mlkemFromSeed _ ih => exact .mlkemFromSeed ih
  | mlkemEncapsulationKey _ ih => exact .mlkemEncapsulationKey ih
  | encapsulated _ _ ihek ihm => exact .encapsulated ihek ihm
  | encapsulatedSecret _ _ ihek ihm => exact .encapsulatedSecret ihek ihm
  | decapsulated h _ _ ihdk ihct => exact .decapsulated h ihdk ihct
  | srpComputeVerifier _ _ _ ihusername ihpassword ihsalt =>
      exact .srpComputeVerifier ihusername ihpassword ihsalt
  | aeadEncrypt h _ _ _ _ ihkey ihnonce ihaad ihmsg =>
      exact .aeadEncrypt h ihkey ihnonce ihaad ihmsg
  | aeadDecrypt H h _ _ _ _ ihkey ihnonce ihaad ihct =>
      exact .aeadDecrypt H h ihkey ihnonce ihaad ihct

theorem mono {K' : Set (List B)} (hK : K ⊆ K') {x : List B} (h : Derivable P K x) :
    Derivable P K' x :=
  h.cut fun _ hy => .known (hK hy)

end Derivable
end EvnxCrypto
