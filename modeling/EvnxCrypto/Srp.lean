import EvnxCrypto.Kdf

/-!
# SRP registration and login

The verifier is computed by the SRP crate from the email as identity, the
stretched password and the salt, and travels with the salt. The login half of
the crate is a parameter of its own. The program adds checks for zero values and
the error texts, and passes every argument on as it is.
-/
namespace EvnxCrypto
open Effect ByteString

variable {B : Type} [Byte B]

structure SrpVerifier (B : Type) where
  verifier : List B
  srpSalt : List.Vector B SALT_LEN
  deriving DecidableEq

def computeVerifier (P : Crates B) (email : String) (srpPasswordBytes : List B)
    (srpSalt : List.Vector B SALT_LEN) : Result (SrpVerifier B) :=
  let verifier := P.srpComputeVerifier (asBytes email) srpPasswordBytes srpSalt.toList
  .ok { verifier, srpSalt }

/-! ## Login -/

/-- The bytes of a client's secret ephemeral. -/
abbrev SRP_PRIVATE_LEN : ℕ := 64

/-- What the crate keeps of one exchange: `proof()`, `key()` and `verify_server`. -/
structure SrpClientVerifier (B : Type) where
  proof : List B
  key : List B
  verifyServer : List B → Bool

/-- `SrpClient::<Sha256>::new(&G_2048)`. The error of `process_reply` is given by
its `Debug` text. -/
structure SrpClient (B : Type) where
  computePublicEphemeral : List B → List B
  processReply : (a username password salt bPub : List B) →
    Except String (SrpClientVerifier B)

structure SrpClientEphemeral (B : Type) where
  privateA : List B
  publicA : List B

structure SrpClientProof (B : Type) where
  clientProof : List B
  verifier : SrpClientVerifier B

def SrpClientProof.sessionKey (proof : SrpClientProof B) : List B := proof.verifier.key

section
variable [DecidableEq B] (S : SrpClient B)

/-- `bs.iter().all(|&b| b == 0)`. -/
def allZero (bs : List B) : Bool := bs.all fun b => b = Byte.lit 0

theorem allZero_eq_true {bs : List B} : allZero bs = true ↔ ∀ b ∈ bs, b = Byte.lit 0 := by
  rw [allZero, List.all_eq_true]
  simp only [decide_eq_true_eq]

def generateClientEphemeral (P : Crates B) : Prog P (SrpClientEphemeral B) := do
  let privateA ← fillBytes .srpEphemeral SRP_PRIVATE_LEN
  let publicA := S.computePublicEphemeral privateA.toList
  if allZero publicA then
    Run.fail (.srp "Generated A = 0 mod N — this should be computationally impossible.")
  else
    pure { privateA := privateA.toList, publicA }

def computeClientProof (email : String) (srpPasswordBytes srpSalt serverPublicB : List B)
    (ephemeral : SrpClientEphemeral B) : Result (SrpClientProof B) :=
  if allZero serverPublicB then
    .err (.srp "Server sent B = 0 — possible attack or server bug")
  else
    match S.processReply ephemeral.privateA (asBytes email) srpPasswordBytes srpSalt
        serverPublicB with
    | .ok verifier => .ok { clientProof := verifier.proof, verifier }
    | .error e => .err (.srp s!"SRP process_reply failed: {e}")

end

def verifyServerProof (serverProof : List B) (srpProof : SrpClientProof B) : Result Unit :=
  if srpProof.verifier.verifyServer serverProof then
    .ok ()
  else
    .err (.srp "Server proof verification failed — possible MITM or server error")

/-! ## Wire encoding -/

section
variable {T : Type}

/-- The hex crate is a parameter as the base64 crate is. -/
def SrpVerifier.verifierHex (hex : Codec (List B) T) (v : SrpVerifier B) : T :=
  hex.encode v.verifier

def SrpVerifier.srpSaltBase64 (base64 : Codec (List B) T) (v : SrpVerifier B) : T :=
  b64Encode base64 v.srpSalt.toList

end
end EvnxCrypto
