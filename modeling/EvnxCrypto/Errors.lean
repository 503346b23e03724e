import EvnxCrypto.Effect

/-!
# The error type of every fallible operation

The texts are those of the `Display` implementation. Several variants are coarse
on purpose: `decryption` does not say which of key, ciphertext and associated
data was wrong.
-/
namespace EvnxCrypto
open Effect

inductive CryptoError where
  | kdf (description : String)
  | encryption
  | decryption
  | integrityCheck
  | keyWrap
  | keyUnwrap
  | invalidInput (message : String)
  | invalidPublicKey
  | srp (message : String)
  deriving DecidableEq, Repr

namespace CryptoError

def toString : CryptoError → String
  | .kdf d => "Key derivation failed: " ++ d
  | .encryption => "Encryption failed"
  | .decryption => "Decryption failed — wrong key or tampered data"
  | .integrityCheck => "Integrity check failed — ciphertext hash mismatch"
  | .keyWrap => "Key wrap failed"
  | .keyUnwrap => "Key unwrap failed — wrong key or tampered wrapped key"
  | .invalidInput m => "Invalid input: " ++ m
  | .invalidPublicKey =>
      "Invalid public key — non-contributory ECDH, possible key-substitution attack"
  | .srp m => "SRP error: " ++ m

/-- The error is about the shape of an argument. -/
def IsInvalidInput (e : CryptoError) : Prop := ∃ m, e = .invalidInput m

end CryptoError

/-- `Result<α, CryptoError>`, with panics observable. -/
abbrev Result (α : Type) : Type := Outcome CryptoError α

end EvnxCrypto
