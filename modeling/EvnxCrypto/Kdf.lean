import EvnxCrypto.Crates
import EvnxCrypto.Encoding

/-!
# Password-based key derivation and HKDF subkeys

`hkdfSubkey` is the one derivation of the symmetric keys outside the hybrid
key-pair code. Its outcome never depends on the world, since HKDF accepts every
length in use; it only leaves a derivation on record.
-/
namespace EvnxCrypto
open Effect ByteString

abbrev MASTER_KEY_LEN : ℕ := 32
abbrev SALT_LEN : ℕ := 32
abbrev SRP_PASSWORD_LEN : ℕ := 32

def ARGON2_M_COST : ℕ := 65536
def ARGON2_T_COST : ℕ := 3
def ARGON2_P_COST : ℕ := 4

variable {B : Type}

def KDF_DOMAIN_MASTER_KEY [Byte B] : List B := asBytes "evnx-master-key-v1"
def KDF_DOMAIN_SRP_PASSWORD [Byte B] : List B := asBytes "evnx-srp-password-v1"

/-- A key derived from the password. -/
@[ext] structure MasterKey (B : Type) where
  expose : List.Vector B MASTER_KEY_LEN
  deriving DecidableEq

section
variable (P : Crates B)

def generateSalt : Prog P (List.Vector B SALT_LEN) := fillBytes .salt SALT_LEN

/-- The error of the crate becomes a `kdf` error at whichever step it arises. -/
def argon2Derive (domain password : List B) (salt : List.Vector B SALT_LEN) (n : ℕ) :
    Result (List.Vector B n) :=
  match P.argon2id ARGON2_M_COST ARGON2_T_COST ARGON2_P_COST domain password salt.toList n with
  | .ok out => .ok out
  | .error description => .err (.kdf description)

def deriveMasterKey [Byte B] (password : List B) (salt : List.Vector B SALT_LEN) :
    Result (MasterKey B) := do
  let key ← argon2Derive P KDF_DOMAIN_MASTER_KEY password salt MASTER_KEY_LEN
  pure ⟨key⟩

def deriveSrpPassword [Byte B] (password : List B) (srpSalt : List.Vector B SALT_LEN) :
    Result (List B) := do
  let output ← argon2Derive P KDF_DOMAIN_SRP_PASSWORD password srpSalt SRP_PASSWORD_LEN
  pure output.toList

def hkdfSubkey (ikm info : List B) : Prog P (List.Vector B 32) := do
  let key ← hkdfExpand ikm info 32
  Run.lift (.okOr (.kdf "HKDF expand failed") key)

end

def saltToBase64 {T : Type} (base64 : Codec (List B) T) (salt : List.Vector B SALT_LEN) : T :=
  b64Encode base64 salt.toList

def saltFromBase64 {T : Type} (base64 : Codec (List B) T) (s : T) :
    Result (List.Vector B SALT_LEN) :=
  b64DecodeArray base64 SALT_LEN s "salt"

/-! ## What an expansion returns and leaves on record -/

section Expand
variable {P : Crates B}

/-- The `n` bytes HKDF returns for an admissible length. -/
def Crates.okm (P : Crates B) (ikm info : List B) (n : ℕ) (hn : n ≤ 255 * 32) :
    List.Vector B n :=
  (P.hkdfExpand ikm info n).get (P.hkdfExpand_isSome ikm info n hn)

theorem Crates.hkdfExpand_eq (P : Crates B) (ikm info : List B) {n : ℕ} (hn : n ≤ 255 * 32) :
    P.hkdfExpand ikm info n = some (P.okm ikm info n hn) :=
  (Option.some_get _).symm

/-- The world after an expansion. -/
def World.expand (w : World P) (ikm info : List B) (n : ℕ) (hn : n ≤ 255 * 32) : World P :=
  w.derive (congrArg (Option.map List.Vector.toList) (P.hkdfExpand_eq ikm info hn))

theorem World.extends_expand (w : World P) (ikm info : List B) {n : ℕ} (hn : n ≤ 255 * 32) :
    w.Extends (w.expand ikm info n hn) :=
  w.extends_derive _

theorem hkdfExpand_apply (ikm info : List B) {n : ℕ} (hn : n ≤ 255 * 32) (w : World P) :
    hkdfExpand ikm info n w =
      (.ok (some (P.okm ikm info n hn)), w.expand ikm info n hn) :=
  hkdfExpand_of_some w (P.hkdfExpand_eq ikm info hn)

def Crates.subkey (P : Crates B) (ikm info : List B) : List.Vector B 32 :=
  P.okm ikm info 32 (by decide)

def World.subkey (w : World P) (ikm info : List B) : World P := w.expand ikm info 32 (by decide)

@[simp] theorem World.subkey_history (w : World P) (ikm info : List B) :
    (w.subkey ikm info).history = w.history := rfl
@[simp] theorem World.subkey_next (w : World P) (ikm info : List B) (p : Purpose) (m : ℕ) :
    (w.subkey ikm info).next p m = w.next p m := rfl

theorem World.extends_subkey (w : World P) (ikm info : List B) : w.Extends (w.subkey ikm info) :=
  w.extends_expand ikm info _

theorem hkdfSubkey_apply (ikm info : List B) (w : World P) :
    hkdfSubkey P ikm info w = (.ok (P.subkey ikm info), w.subkey ikm info) := by
  unfold hkdfSubkey
  rw [Run.bind_of_ok (hkdfExpand_apply ikm info (by decide) w)]
  rfl

/-- Equal subkeys of one collision-free run come from equal inputs. -/
theorem World.CollisionFree.subkey_inj {w : World P} (hw : w.CollisionFree)
    {i i' f f' : List B}
    (h : ⟨i, f, 32, (P.subkey i f).toList⟩ ∈ w.derived)
    (h' : ⟨i', f', 32, (P.subkey i' f').toList⟩ ∈ w.derived)
    (heq : P.subkey i f = P.subkey i' f') : i = i' ∧ f = f' := by
  refine hw _ h _ h' ?_ (congrArg List.Vector.toList heq)
  apply List.ne_nil_of_length_pos
  simp only [List.Vector.toList_length]
  omega

end Expand
end EvnxCrypto
