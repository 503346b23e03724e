import EvnxCrypto.OctetCrates

/-!
# SRP registration and login agree

The SRP crate is assumed to follow SRP-6a. The program decides which argument is
identity, password and salt in each step, and looks at the server's number with a
check of its own that only catches the number zero; the multiples of the modulus
are left to the crate.
-/
namespace EvnxCrypto
open Effect ByteString Srp6a

/-- The crate's client computes the client's side of SRP-6a, over a group and a
hash. It reads numbers of any length and writes the shortest. -/
structure FollowsSrp6a (P : Crates UInt8) (S : SrpClient UInt8) (G : Group)
    (H : List UInt8 → List.Vector UInt8 32) : Prop where
  verifier : ∀ username password salt,
    P.srpComputeVerifier username password salt =
      toBytesBe (G.verifier (x H username password salt))
  publicEphemeral : ∀ a,
    S.computePublicEphemeral a = toBytesBe (G.clientPublic (ofBigEndian a))
  refuses : ∀ a username password salt bPub,
    G.clientReply H (ofBigEndian a) username password salt (ofBigEndian bPub) = none →
    ∃ e, S.processReply a username password salt bPub = .error e
  replies : ∀ a username password salt bPub r,
    G.clientReply H (ofBigEndian a) username password salt (ofBigEndian bPub) = some r →
    ∃ v, S.processReply a username password salt bPub = .ok v ∧ v.proof = r.m1 ∧ v.key = r.key ∧
      ∀ proof, v.verifyServer proof = decide (proof = r.m2)

theorem allZero_iff {bs : List UInt8} : allZero bs = true ↔ ofBigEndian bs = 0 := by
  rw [allZero_eq_true, ofBigEndian_eq_zero]
  rfl

section
variable {P : Crates UInt8} {S : SrpClient UInt8} {G : Group}
variable {H : List UInt8 → List.Vector UInt8 32}

theorem FollowsSrp6a.computeVerifier (h : FollowsSrp6a P S G H) {email : String}
    {pw : List UInt8} {salt : List.Vector UInt8 SALT_LEN} {ver : SrpVerifier UInt8}
    (hver : computeVerifier P email pw salt = .ok ver) :
    ver.verifier = toBytesBe (G.verifier (x H (utf8 email) pw salt.toList)) ∧
      ver.srpSalt = salt := by
  cases hver
  refine ⟨?_, rfl⟩
  simp only [h.verifier, asBytes, lits_octets]

/-- The client's public value is never zero, so drawing it never fails. -/
theorem FollowsSrp6a.generateClientEphemeral (h : FollowsSrp6a P S G H) (w : World P) :
    generateClientEphemeral S P w =
      (.ok ⟨(w.next .srpEphemeral SRP_PRIVATE_LEN).toList,
        S.computePublicEphemeral (w.next .srpEphemeral SRP_PRIVATE_LEN).toList⟩,
        w.draw .srpEphemeral SRP_PRIVATE_LEN) := by
  have hne : ¬ allZero (S.computePublicEphemeral
      (w.next .srpEphemeral SRP_PRIVATE_LEN).toList) = true := by
    rw [allZero_iff, h.publicEphemeral, ofBigEndian_toBytesBe]
    intro hzero
    apply G.clientPublic_ne_zero (ofBigEndian (w.next .srpEphemeral SRP_PRIVATE_LEN).toList)
    rw [hzero, Nat.zero_mod]
  unfold EvnxCrypto.generateClientEphemeral
  rw [Run.bind_of_ok (fillBytes_apply .srpEphemeral SRP_PRIVATE_LEN w)]
  simp only [if_neg hne, Run.pure_apply]

section
variable {email : String} {pw salt bPub : List UInt8} {ephemeral : SrpClientEphemeral UInt8}

/-- Whatever bytes the server sends for a multiple of the modulus, there is no proof. -/
theorem FollowsSrp6a.computeClientProof_refused (h : FollowsSrp6a P S G H)
    (hzero : ofBigEndian bPub % G.N = 0) :
    ∃ m, computeClientProof S email pw salt bPub ephemeral = .err (.srp m) := by
  unfold computeClientProof
  by_cases hall : allZero bPub = true
  · rw [if_pos hall]
    exact ⟨_, rfl⟩
  · have hnone : G.clientReply H (ofBigEndian ephemeral.privateA) (asBytes email) pw salt
        (ofBigEndian bPub) = none := if_pos hzero
    rcases h.refuses _ _ _ _ _ hnone with ⟨e, he⟩
    rw [if_neg hall, he]
    exact ⟨_, rfl⟩

theorem FollowsSrp6a.computeClientProof_of_reply (h : FollowsSrp6a P S G H)
    (ephemeral : SrpClientEphemeral UInt8) {r : Reply}
    (hr : G.clientReply H (ofBigEndian ephemeral.privateA) (utf8 email) pw salt
      (ofBigEndian bPub) = some r) :
    ∃ proof, computeClientProof S email pw salt bPub ephemeral = .ok proof ∧
      proof.clientProof = r.m1 ∧ proof.sessionKey = r.key ∧
      ∀ m, proof.verifier.verifyServer m = decide (m = r.m2) := by
  have hall : ¬ allZero bPub = true := by
    rw [allZero_iff]
    intro hzero
    rw [hzero, Group.clientReply, if_pos (Nat.zero_mod _)] at hr
    cases hr
  have hname : (asBytes email : List UInt8) = utf8 email := lits_octets _
  rcases h.replies _ _ _ _ _ _ hr with ⟨v, hv, hm1, hkey, hm2⟩
  unfold computeClientProof
  rw [if_neg hall, hname, hv]
  exact ⟨⟨v.proof, v⟩, rfl, hm1, hkey, hm2⟩

end

theorem verifyServerProof_iff {m m2 : List UInt8} {proof : SrpClientProof UInt8}
    (hproof : proof.verifier.verifyServer m = decide (m = m2)) :
    (m = m2 → verifyServerProof m proof = .ok ()) ∧
      (m ≠ m2 → ∃ text, verifyServerProof m proof = .err (.srp text)) := by
  unfold verifyServerProof
  rw [hproof]
  constructor
  · intro heq
    rw [if_pos (decide_eq_true heq)]
  · intro hne
    rw [if_neg (by simpa using hne)]
    exact ⟨_, rfl⟩

/-- A login against the server that holds the verifier of the registration ends
with the server's own proof and key, and accepts the server's second proof and
nothing else. For a multiple of the modulus there is no proof at all. The ephemeral
a client generates is one of these, for the secret it draws. -/
theorem login_agrees_with_registration (h : FollowsSrp6a P S G H) :
    (∀ (email : String) (password : List UInt8) (salt : List.Vector UInt8 SALT_LEN)
        (a : List.Vector UInt8 SRP_PRIVATE_LEN) (b : ℕ) (pw : List UInt8)
        (ver : SrpVerifier UInt8) (ephemeral : SrpClientEphemeral UInt8)
        (serverPublicB : List UInt8),
      deriveSrpPassword P password salt = .ok pw →
      computeVerifier P email pw salt = .ok ver →
      ephemeral = ⟨a.toList, S.computePublicEphemeral a.toList⟩ →
      ofBigEndian serverPublicB = G.serverPublic H (ofBigEndian ver.verifier) b →
      ofBigEndian serverPublicB ≠ 0 →
      ∃ server proof,
        G.serverReply H b (ofBigEndian ver.verifier) (ofBigEndian ephemeral.publicA) =
          some server ∧
        computeClientProof S email pw salt.toList serverPublicB ephemeral = .ok proof ∧
        proof.clientProof = server.m1 ∧
        proof.sessionKey = server.key ∧
        verifyServerProof server.m2 proof = .ok () ∧
        ∀ m, m ≠ server.m2 → ∃ text, verifyServerProof m proof = .err (.srp text)) ∧
    (∀ (email : String) (pw : List UInt8) (salt : List.Vector UInt8 SALT_LEN)
        (ephemeral : SrpClientEphemeral UInt8) (serverPublicB : List UInt8),
      ofBigEndian serverPublicB % G.N = 0 →
      ∃ text, computeClientProof S email pw salt.toList serverPublicB ephemeral =
        .err (.srp text)) ∧
    ∀ w : World P, ∃ (a : List.Vector UInt8 SRP_PRIVATE_LEN) (ephemeral : SrpClientEphemeral UInt8),
      generateClientEphemeral S P w = (.ok ephemeral, w.draw .srpEphemeral SRP_PRIVATE_LEN) ∧
      a = w.next .srpEphemeral SRP_PRIVATE_LEN ∧
      ephemeral = ⟨a.toList, S.computePublicEphemeral a.toList⟩ := by
  refine ⟨?_, ?_, ?_⟩
  · rintro email password salt a b pw ver _ serverPublicB hpw hver rfl hb hne
    have hv : ofBigEndian ver.verifier = G.verifier (x H (utf8 email) pw salt.toList) := by
      rw [(h.computeVerifier hver).1, ofBigEndian_toBytesBe]
    rw [hv] at hb
    rw [hb] at hne
    rcases G.replies_agree H (ofBigEndian a.toList) b (utf8 email) pw salt.toList hne with
      ⟨server, hclient, hserver⟩
    rw [← hb] at hclient
    rcases h.computeClientProof_of_reply ⟨a.toList, _⟩ hclient with
      ⟨proof, hproof, hm1, hkey, hm2⟩
    refine ⟨server, proof, ?_, hproof, hm1, hkey, ?_, ?_⟩
    · rw [hv, h.publicEphemeral, ofBigEndian_toBytesBe]
      exact hserver
    · exact (verifyServerProof_iff (hm2 server.m2)).1 rfl
    · intro m
      exact (verifyServerProof_iff (hm2 m)).2
  · intro email pw salt ephemeral serverPublicB hzero
    exact h.computeClientProof_refused hzero
  · intro w
    exact ⟨_, _, h.generateClientEphemeral w, rfl, rfl⟩

end

section
open Octet

theorem octet_followsSrp6a (G : Group) :
    FollowsSrp6a (crates G) (srpClient G) G (digest 32) where
  verifier _ _ _ := rfl
  publicEphemeral _ := rfl
  refuses a username password salt bPub hnone := by
    refine ⟨"IllegalParameter(\"b_pub\")", ?_⟩
    simp only [srpClient, hnone]
  replies a username password salt bPub r hr := by
    refine ⟨⟨r.m1, r.key, fun proof => decide (proof = r.m2)⟩, ?_, rfl, rfl, fun _ => rfl⟩
    simp only [srpClient, hr]

def aliceSalt : List.Vector UInt8 SALT_LEN := List.Vector.replicate SALT_LEN 9

def aliceSecret : List.Vector UInt8 SRP_PRIVATE_LEN := List.Vector.replicate SRP_PRIVATE_LEN 7

def aliceEphemeral : SrpClientEphemeral UInt8 :=
  ⟨aliceSecret.toList, (srpClient group23).computePublicEphemeral aliceSecret.toList⟩

def alicePassword : List UInt8 :=
  (digest SRP_PASSWORD_LEN (KDF_DOMAIN_SRP_PASSWORD ++ utf8 "correct horse" ++
    aliceSalt.toList)).toList

def aliceVerifier : SrpVerifier UInt8 where
  verifier := toBytesBe (group23.verifier (x (digest 32) (utf8 "alice@example.com")
    alicePassword aliceSalt.toList))
  srpSalt := aliceSalt

/-- The server's ephemeral for the secret 6. -/
def serverEphemeral : List UInt8 :=
  toBytesBe (group23.serverPublic (digest 32) (ofBigEndian aliceVerifier.verifier) 6)

theorem alice_registered :
    computeVerifier (crates group23) "alice@example.com" alicePassword aliceSalt =
      .ok aliceVerifier := by
  unfold computeVerifier crates aliceVerifier
  rw [asBytes, lits_octets]

/-- A generator that draws Alice's secret. -/
def aliceWorld : World (crates group23) :=
  World.init _ fun _ _ n => List.Vector.replicate n 7

/-- Alice generates her ephemeral and logs in, and gets no proof where the server sends
the modulus itself. -/
theorem login_agrees_with_registration_alice :
    (∃ w, generateClientEphemeral (srpClient group23) (crates group23) aliceWorld =
      (.ok aliceEphemeral, w)) ∧
    (∃ server proof,
      group23.serverReply (digest 32) 6 (ofBigEndian aliceVerifier.verifier)
        (ofBigEndian aliceEphemeral.publicA) = some server ∧
      computeClientProof (srpClient group23) "alice@example.com" alicePassword aliceSalt.toList
        serverEphemeral aliceEphemeral = .ok proof ∧
      proof.clientProof = server.m1 ∧ proof.sessionKey = server.key ∧
      verifyServerProof server.m2 proof = .ok () ∧
      ∀ m, m ≠ server.m2 → ∃ text, verifyServerProof m proof = .err (.srp text)) ∧
    ∃ text, computeClientProof (srpClient group23) "alice@example.com" alicePassword
      aliceSalt.toList [23] aliceEphemeral = .err (.srp text) := by
  have hvalue : ofBigEndian serverEphemeral =
      group23.serverPublic (digest 32) (ofBigEndian aliceVerifier.verifier) 6 :=
    ofBigEndian_toBytesBe _
  have hne : ofBigEndian serverEphemeral ≠ 0 := by
    rw [hvalue]
    decide +kernel
  obtain ⟨hlogin, hrefused, hgenerated⟩ :=
    login_agrees_with_registration (octet_followsSrp6a group23)
  refine ⟨?_, ?_, ?_⟩
  · obtain ⟨a, ephemeral, hcall, rfl, rfl⟩ := hgenerated aliceWorld
    exact ⟨_, hcall⟩
  · exact hlogin _ (utf8 "correct horse") aliceSalt aliceSecret _ _ _ _ _
      (deriveSrpPassword_eq ..) alice_registered rfl hvalue hne
  · exact hrefused _ _ _ _ _ (by decide)

end
end EvnxCrypto
