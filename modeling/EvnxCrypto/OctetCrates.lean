import EvnxCrypto.Srp
import EvnxCrypto.Srp6a

/-!
# Crates over octets

Executable stand-ins for the crates over ordinary bytes. A digest is a checksum
written in as many octets as asked for; the ciphers append a checksum of key,
nonce, associated data and message as tag, and check it; the SRP client is
SRP-6a itself, over any group. They have the lengths of the real ones and none
of their strength.
-/
namespace EvnxCrypto.Octet
open Effect ByteString AuthenticatedEncryption Srp6a

def checksum (bs : List UInt8) : ℕ := bs.foldl (fun sum b => (3 * sum + b.toNat + 1) % 251) 0

def digest (n : ℕ) (bs : List UInt8) : List.Vector UInt8 n :=
  ⟨bigEndian n (checksum bs), bigEndian_length _ _⟩

def tag (key nonce aad msg : List UInt8) : List UInt8 :=
  (digest TAG_LEN (key ++ nonce ++ aad ++ msg)).toList

theorem tag_length (key nonce aad msg : List UInt8) : (tag key nonce aad msg).length = TAG_LEN :=
  List.Vector.toList_length _

def aead : Aead UInt8 where
  fits _ _ := true
  encrypt k n a m := some (m ++ tag k n a m)
  decrypt _ k n a c :=
    let m := c.take (c.length - TAG_LEN)
    if c = m ++ tag k n a m then some m else none
  encrypt_isSome _ _ _ _ := rfl
  encrypt_length := by
    intro k n a m c h
    cases h
    rw [List.length_append, tag_length]

theorem aead_correct : aead.Correct := by
  intro H s hs
  have hct : s.msg ++ tag s.key s.nonce s.aad s.msg = s.ct := Option.some.inj (H.genuine s hs)
  have hmsg : s.ct.take (s.ct.length - TAG_LEN) = s.msg := by
    rw [← hct, List.length_append, tag_length, Nat.add_sub_cancel]
    exact List.take_left
  change (if s.ct = s.ct.take (s.ct.length - TAG_LEN) ++
      tag s.key s.nonce s.aad (s.ct.take (s.ct.length - TAG_LEN)) then
    some (s.ct.take (s.ct.length - TAG_LEN)) else none) = some s.msg
  rw [hmsg, if_pos hct.symm]

theorem aead_tagLength : aead.TagLength := by
  intro H k n a c m hopen
  simp only [aead] at hopen
  split at hopen
  · rename_i hct
    cases hopen
    have hlen := congrArg List.length hct
    rwa [List.length_append, tag_length] at hlen
  · cases hopen

/-- The crates over octets. The SRP half is over the group `G`. -/
def crates (G : Group) : Crates UInt8 where
  aead _ := aead
  hkdfExpand ikm info n := if n ≤ 255 * 32 then some (digest n (ikm ++ info)) else none
  hkdfExpand_isSome := by
    intro ikm info n hn
    rw [if_pos hn]
    rfl
  argon2id _ _ _ secret password salt n := .ok (digest n (secret ++ password ++ salt))
  blake3Hash := digest 32
  ed25519VerifyingKey seed := digest 32 seed.toList
  x25519StaticSecret := id
  x25519StaticSecret_idem _ := rfl
  x25519PublicKey a := digest 32 a.toList
  diffieHellman a p := digest 32 (a.toList ++ p.toList)
  wasContributory ss := decide (ss.toList ≠ List.replicate 32 0)
  mlkemFromSeed seed := ⟨seed.toList⟩
  mlkemEncapsulationKey dk := digest 1184 dk.encoding
  mlkemKeyIsValid _ := true
  encapsulateDeterministic ek m := (digest 1088 m.toList, digest 32 (ek.toList ++ m.toList))
  decapsulateSlice dk ct := if ct.length = 1088 then some (digest 32 (dk.encoding ++ ct)) else none
  srpComputeVerifier username password salt :=
    toBytesBe (G.verifier (x (digest 32) username password salt))

theorem deriveSrpPassword_eq (G : Group) (password : List UInt8)
    (salt : List.Vector UInt8 SALT_LEN) :
    deriveSrpPassword (crates G) password salt =
      .ok (digest SRP_PASSWORD_LEN
        (KDF_DOMAIN_SRP_PASSWORD ++ password ++ salt.toList)).toList := by
  unfold deriveSrpPassword argon2Derive crates
  simp only [Outcome.ok_bind, Outcome.pure_eq]

/-- The client that computes SRP-6a as it is written. -/
def srpClient (G : Group) : SrpClient UInt8 where
  computePublicEphemeral a := toBytesBe (G.clientPublic (ofBigEndian a))
  processReply a username password salt bPub :=
    match G.clientReply (digest 32) (ofBigEndian a) username password salt (ofBigEndian bPub) with
    | some r => .ok ⟨r.m1, r.key, fun proof => decide (proof = r.m2)⟩
    | none => .error "IllegalParameter(\"b_pub\")"

/-- The integers modulo 23, generated by 5. -/
def group23 : Group where
  N := 23
  g := 5
  one_lt := by decide
  coprime := by decide

end EvnxCrypto.Octet
