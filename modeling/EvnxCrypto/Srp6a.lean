import EvnxCrypto.ByteString
import Mathlib.Data.ZMod.Basic
import Mathlib.Tactic.Ring

/-!
# SRP-6a

The client holds an identity, a password and a salt; the server holds the
verifier made from them and nothing else. Both sides reduce every number modulo
`N` and hash numbers in their shortest big-endian form. Their replies are the
same whenever the client was sent the server's own ephemeral, for all exponents
and for every hash: only the ring of integers modulo `N` is used.
-/
namespace EvnxCrypto.Srp6a
open ByteString

/-! ## Numbers as octets -/

/-- The shortest big-endian form. Zero is written as one zero octet. -/
def toBytesBe (n : ℕ) : List UInt8 := bigEndian (n.log2 / 8 + 1) n

theorem lt_pow_length (n : ℕ) : n < 256 ^ (n.log2 / 8 + 1) := by
  have hlog : n < 2 ^ (n.log2 + 1) := Nat.lt_log2_self
  have hle : 2 ^ (n.log2 + 1) ≤ 2 ^ (8 * (n.log2 / 8 + 1)) :=
    Nat.pow_le_pow_right (by decide) (by omega)
  calc n < 2 ^ (n.log2 + 1) := hlog
    _ ≤ 2 ^ (8 * (n.log2 / 8 + 1)) := hle
    _ = 256 ^ (n.log2 / 8 + 1) := by rw [pow_mul]; norm_num

@[simp] theorem ofBigEndian_toBytesBe (n : ℕ) : ofBigEndian (toBytesBe n) = n := by
  rw [toBytesBe, ofBigEndian_bigEndian, Nat.mod_eq_of_lt (lt_pow_length n)]

/-! ## The group and the numbers both sides compute -/

/-- A modulus and a generator that has an inverse. -/
structure Group where
  N : ℕ
  g : ℕ
  one_lt : 1 < N
  coprime : g.Coprime N

/-- What one side has at the end: the session key and both proofs. -/
structure Reply where
  key : List UInt8
  m1 : List UInt8
  m2 : List UInt8
  deriving DecidableEq, Repr

section
variable {h : ℕ} (H : List UInt8 → List.Vector UInt8 h)

def identityInput (identity password : List UInt8) : List UInt8 :=
  identity ++ utf8 ":" ++ password

def exponentInput (identity password salt : List UInt8) : List UInt8 :=
  salt ++ (H (identityInput identity password)).toList

/-- `H(salt | H(identity | ":" | password))`. -/
def x (identity password salt : List UInt8) : ℕ :=
  ofBigEndian (H (exponentInput H identity password salt)).toList

def u (aPub bPub : ℕ) : ℕ := ofBigEndian (H (toBytesBe aPub ++ toBytesBe bPub)).toList

def m1 (aPub bPub key : ℕ) : List UInt8 :=
  (H (toBytesBe aPub ++ toBytesBe bPub ++ toBytesBe key)).toList

def m2 (aPub : ℕ) (m1 : List UInt8) (key : ℕ) : List UInt8 :=
  (H (toBytesBe aPub ++ m1 ++ toBytesBe key)).toList

/-- What either side replies once it has the shared secret. -/
def reply (aPub bPub key : ℕ) : Reply where
  key := toBytesBe key
  m1 := m1 H aPub bPub key
  m2 := m2 H aPub (m1 H aPub bPub key) key

namespace Group
variable (G : Group)

/-- A number padded to the length of the modulus. -/
def pad (n : ℕ) : List UInt8 :=
  List.replicate ((toBytesBe G.N).length - (toBytesBe n).length) 0 ++ toBytesBe n

def k : ℕ := ofBigEndian (H (toBytesBe G.N ++ G.pad G.g)).toList

def verifier (x : ℕ) : ℕ := G.g ^ x % G.N

def clientPublic (a : ℕ) : ℕ := G.g ^ a % G.N

def serverPublic (v b : ℕ) : ℕ := (G.k H * v + G.g ^ b % G.N) % G.N

/-- `(B - k * g^x) ^ (a + u * x)`, with `N` added before the subtraction. -/
def clientSecret (a x bPub u : ℕ) : ℕ :=
  ((G.N + bPub - G.k H * (G.g ^ x % G.N) % G.N) % G.N) ^ (a + u * x) % G.N

/-- `(A * v^u) ^ b`. -/
def serverSecret (aPub v u b : ℕ) : ℕ := (aPub * (v ^ u % G.N) % G.N) ^ b % G.N

/-- The client's side. A multiple of the modulus is refused. -/
def clientReply (a : ℕ) (identity password salt : List UInt8) (bPub : ℕ) : Option Reply :=
  if bPub % G.N = 0 then none
  else
    let aPub := G.clientPublic a
    some (reply H aPub bPub
      (G.clientSecret H a (x H identity password salt) bPub (u H aPub bPub)))

/-- The server's side, which knows the verifier only. -/
def serverReply (b v aPub : ℕ) : Option Reply :=
  if aPub % G.N = 0 then none
  else
    let bPub := G.serverPublic H v b
    some (reply H aPub bPub (G.serverSecret aPub v (u H aPub bPub) b))

/-! ## Agreement -/

theorem clientPublic_ne_zero (a : ℕ) : G.clientPublic a % G.N ≠ 0 := by
  intro hzero
  rw [clientPublic, Nat.mod_mod] at hzero
  have hcoprime : (G.g ^ a).Coprime G.N := G.coprime.pow_left a
  have hgcd := Nat.gcd_eq_right (Nat.dvd_of_mod_eq_zero hzero)
  have hone := G.one_lt
  rw [hcoprime] at hgcd
  omega

theorem serverPublic_cast (x b : ℕ) :
    (G.serverPublic H (G.verifier x) b : ZMod G.N) = G.k H * G.g ^ x + G.g ^ b := by
  simp only [serverPublic, verifier, ZMod.natCast_mod, Nat.cast_add, Nat.cast_mul, Nat.cast_pow]

theorem clientSecret_cast (a x bPub u : ℕ) :
    (G.clientSecret H a x bPub u : ZMod G.N) =
      (bPub - G.k H * (G.g : ZMod G.N) ^ x) ^ (a + u * x) := by
  have hpos : 0 < G.N := lt_trans Nat.one_pos G.one_lt
  have hle : G.k H * (G.g ^ x % G.N) % G.N ≤ G.N + bPub :=
    le_trans (Nat.mod_lt _ hpos).le (Nat.le_add_right _ _)
  simp only [clientSecret, ZMod.natCast_mod, Nat.cast_pow, Nat.cast_sub hle, Nat.cast_add,
    Nat.cast_mul, ZMod.natCast_self, zero_add]

theorem serverSecret_cast (a x u b : ℕ) :
    (G.serverSecret (G.clientPublic a) (G.verifier x) u b : ZMod G.N) =
      ((G.g : ZMod G.N) ^ a * (G.g ^ x) ^ u) ^ b := by
  simp only [serverSecret, clientPublic, verifier, ZMod.natCast_mod, Nat.cast_pow, Nat.cast_mul]

/-- Both sides raise the generator to the same power. -/
theorem secrets_agree (a x b u : ℕ) :
    G.clientSecret H a x (G.serverPublic H (G.verifier x) b) u =
      G.serverSecret (G.clientPublic a) (G.verifier x) u b := by
  have hcast : (G.clientSecret H a x (G.serverPublic H (G.verifier x) b) u : ZMod G.N) =
      G.serverSecret (G.clientPublic a) (G.verifier x) u b := by
    rw [clientSecret_cast, serverSecret_cast, serverPublic_cast, add_sub_cancel_left]
    calc ((G.g : ZMod G.N) ^ b) ^ (a + u * x) = (G.g : ZMod G.N) ^ (b * (a + u * x)) := by
          rw [pow_mul]
      _ = (G.g : ZMod G.N) ^ ((a + x * u) * b) := by ring_nf
      _ = ((G.g : ZMod G.N) ^ a * (G.g ^ x) ^ u) ^ b := by rw [pow_mul, pow_add, pow_mul]
  have hmod := (ZMod.natCast_eq_natCast_iff' _ _ G.N).mp hcast
  simpa only [clientSecret, serverSecret, Nat.mod_mod] using hmod

/-- The replies of the two sides to one exchange are the same. -/
theorem replies_agree (a b : ℕ) (identity password salt : List UInt8)
    (hb : G.serverPublic H (G.verifier (x H identity password salt)) b ≠ 0) :
    ∃ r, G.clientReply H a identity password salt
        (G.serverPublic H (G.verifier (x H identity password salt)) b) = some r ∧
      G.serverReply H b (G.verifier (x H identity password salt)) (G.clientPublic a) = some r := by
  have hmod : G.serverPublic H (G.verifier (x H identity password salt)) b % G.N ≠ 0 := by
    rw [serverPublic, Nat.mod_mod]
    exact hb
  refine ⟨_, if_neg hmod, ?_⟩
  rw [serverReply, if_neg (G.clientPublic_ne_zero a), secrets_agree]

end Group

/-! ## What the exponent binds -/

/-- Where the hash takes no two of the four inputs to one digest, the exponent
determines identity, password and salt, given the lengths of the last two. The
separator proves nothing, since identity and password may both contain it. -/
theorem x_inj {used : Set (List UInt8)} (hinj : Set.InjOn H used)
    {i i' p p' s s' : List UInt8} (hp : p.length = p'.length) (hs : s.length = s'.length)
    (hinner : identityInput i p ∈ used) (hinner' : identityInput i' p' ∈ used)
    (houter : exponentInput H i p s ∈ used) (houter' : exponentInput H i' p' s' ∈ used)
    (hx : x H i p s = x H i' p' s') : i = i' ∧ p = p' ∧ s = s' := by
  have hdigest : H (exponentInput H i p s) = H (exponentInput H i' p' s') := by
    apply toList_injective
    apply ofBigEndian_inj _ hx
    simp only [List.Vector.toList_length]
  have hexponent := hinj houter houter' hdigest
  rcases List.append_inj hexponent hs with ⟨hsalt, hidentity⟩
  have hjoined := hinj hinner hinner' (toList_injective hidentity)
  rcases List.append_inj' hjoined hp with ⟨hleft, hpassword⟩
  exact ⟨List.append_cancel_right hleft, hpassword, hsalt⟩

end
end EvnxCrypto.Srp6a
