import EvnxCrypto.SrpLogin

/-!
# The SRP verifier binds email, password and salt

The exponent behind a verifier is a hash of the salt and of the email and the
stretched password around a colon. An email may hold colons, and so may the
stretched password: what separates the two is the fixed length of the latter,
which the stretching ensures and `computeVerifier` does not check.
-/
namespace EvnxCrypto
open Effect ByteString Srp6a

structure Registration where
  email : String
  password : List UInt8
  salt : List.Vector UInt8 SALT_LEN
  deriving DecidableEq

section
variable (P : Crates UInt8) (H : List UInt8 → List.Vector UInt8 32)

def Registration.register (r : Registration) : Result (SrpVerifier UInt8) := do
  let pw ← deriveSrpPassword P r.password r.salt
  computeVerifier P r.email pw r.salt

/-- The private exponent of SRP-6a for the inputs of the registration. -/
def Registration.exponent (r : Registration) : Result ℕ := do
  let pw ← deriveSrpPassword P r.password r.salt
  pure (x H (utf8 r.email) pw r.salt.toList)

/-- Argon2id takes no two of the triples of tag, password and salt to one output. -/
def Crates.Argon2idInjOn (used : Set (List UInt8 × List UInt8 × List UInt8)) : Prop :=
  ∀ a ∈ used, ∀ b ∈ used, ∀ out : List.Vector UInt8 SRP_PASSWORD_LEN,
    P.argon2id ARGON2_M_COST ARGON2_T_COST ARGON2_P_COST a.1 a.2.1 a.2.2 SRP_PASSWORD_LEN =
      .ok out →
    P.argon2id ARGON2_M_COST ARGON2_T_COST ARGON2_P_COST b.1 b.2.1 b.2.2 SRP_PASSWORD_LEN =
      .ok out → a = b

/-- The strings hashed for the exponents of the registrations in `R`. -/
def hashInputs (R : Set Registration) : Set (List UInt8) :=
  { input | ∃ r ∈ R, ∃ pw, deriveSrpPassword P r.password r.salt = .ok pw ∧
    (input = identityInput (utf8 r.email) pw ∨
      input = exponentInput H (utf8 r.email) pw r.salt.toList) }

/-- No collision of Argon2id or of the hash among the registrations in `R`. On the
set of all registrations this is injectivity on everything that can be asked. -/
structure NoCollision (R : Set Registration) : Prop where
  argon2id : P.Argon2idInjOn
    ((fun r => (KDF_DOMAIN_SRP_PASSWORD, r.password, r.salt.toList)) '' R)
  hash : Set.InjOn H (hashInputs P H R)

end

section
variable {P : Crates UInt8} {S : SrpClient UInt8} {G : Group}
variable {H : List UInt8 → List.Vector UInt8 32}

/-- The stretched password has a fixed length, and is the output of Argon2id. -/
theorem deriveSrpPassword_eq_ok {password pw : List UInt8} {salt : List.Vector UInt8 SALT_LEN}
    (h : deriveSrpPassword P password salt = .ok pw) :
    ∃ out : List.Vector UInt8 SRP_PASSWORD_LEN, pw = out.toList ∧
      P.argon2id ARGON2_M_COST ARGON2_T_COST ARGON2_P_COST KDF_DOMAIN_SRP_PASSWORD password
        salt.toList SRP_PASSWORD_LEN = .ok out := by
  rcases Outcome.bind_eq_ok.mp h with ⟨out, hout, hpw⟩
  cases hpw
  refine ⟨out, rfl, ?_⟩
  unfold argon2Derive at hout
  split at hout
  · rename_i out' heq
    cases hout
    exact heq
  · cases hout

/-- One exponent comes from one registration. -/
theorem Registration.exponent_inj {R : Set Registration} (hfree : NoCollision P H R)
    {r r' : Registration} (hr : r ∈ R) (hr' : r' ∈ R) {e : ℕ} (he : r.exponent P H = .ok e)
    (he' : r'.exponent P H = .ok e) : r = r' := by
  rcases Outcome.bind_eq_ok.mp he with ⟨pw, hpw, hx⟩
  rcases Outcome.bind_eq_ok.mp he' with ⟨pw', hpw', hx'⟩
  rcases deriveSrpPassword_eq_ok hpw with ⟨out, rfl, hout⟩
  rcases deriveSrpPassword_eq_ok hpw' with ⟨out', rfl, hout'⟩
  have hlen : out.toList.length = out'.toList.length := by simp only [List.Vector.toList_length]
  have hsalts : r.salt.toList.length = r'.salt.toList.length := by
    simp only [List.Vector.toList_length]
  have hexponent := Outcome.ok.inj (hx.trans hx'.symm)
  rcases x_inj H hfree.hash hlen hsalts ⟨r, hr, _, hpw, .inl rfl⟩ ⟨r', hr', _, hpw', .inl rfl⟩
    ⟨r, hr, _, hpw, .inr rfl⟩ ⟨r', hr', _, hpw', .inr rfl⟩ hexponent with
    ⟨hemail, hstretched, -⟩
  rw [toList_injective hstretched] at hout
  have hargon := hfree.argon2id _ ⟨r, hr, rfl⟩ _ ⟨r', hr', rfl⟩ out' hout hout'
  simp only [Prod.mk.injEq, toList_inj, true_and] at hargon
  cases r
  cases r'
  simp only [Registration.mk.injEq]
  exact ⟨utf8_injective hemail, hargon⟩

/-- Different registrations have different exponents behind their verifiers. -/
theorem verifiers_bind_registration (h : FollowsSrp6a P S G H) {R : Set Registration}
    (hfree : NoCollision P H R) {r r' : Registration} (hr : r ∈ R) (hr' : r' ∈ R)
    {ver ver' : SrpVerifier UInt8} (hver : r.register P = .ok ver)
    (hver' : r'.register P = .ok ver') (hne : r ≠ r') :
    ∃ e e', r.exponent P H = .ok e ∧ r'.exponent P H = .ok e' ∧
      ver.verifier = toBytesBe (G.verifier e) ∧ ver'.verifier = toBytesBe (G.verifier e') ∧
      e ≠ e' := by
  rcases Outcome.bind_eq_ok.mp hver with ⟨pw, hpw, hv⟩
  rcases Outcome.bind_eq_ok.mp hver' with ⟨pw', hpw', hv'⟩
  have he : r.exponent P H = .ok (x H (utf8 r.email) pw r.salt.toList) :=
    Outcome.bind_eq_ok.mpr ⟨pw, hpw, rfl⟩
  have he' : r'.exponent P H = .ok (x H (utf8 r'.email) pw' r'.salt.toList) :=
    Outcome.bind_eq_ok.mpr ⟨pw', hpw', rfl⟩
  refine ⟨_, _, he, he', (h.computeVerifier hv).1, (h.computeVerifier hv').1, ?_⟩
  intro hsame
  rw [← hsame] at he'
  exact hne (Registration.exponent_inj hfree hr hr' he he')

end

/-! ## Two registrations around a colon -/

section
open Octet

/-- An email that ends where the other one's password could be thought to begin. -/
def colonEmail : Registration := ⟨"a:b", [1], List.Vector.replicate SALT_LEN 0⟩

def plainEmail : Registration := ⟨"a", [2], List.Vector.replicate SALT_LEN 0⟩

def stretched (r : Registration) : List.Vector UInt8 32 :=
  digest SRP_PASSWORD_LEN (KDF_DOMAIN_SRP_PASSWORD ++ r.password ++ r.salt.toList)

def inputsOf (r : Registration) : List (List UInt8) :=
  [identityInput (utf8 r.email) (stretched r).toList,
    exponentInput (digest 32) (utf8 r.email) (stretched r).toList r.salt.toList]

theorem hashInputs_octet {R : Set Registration} {input : List UInt8}
    (h : input ∈ hashInputs (crates group23) (digest 32) R) : ∃ r ∈ R, input ∈ inputsOf r := by
  rcases h with ⟨r, hr, pw, hpw, hinput⟩
  have hout : (stretched r).toList = pw := Outcome.ok.inj ((deriveSrpPassword_eq ..).symm.trans hpw)
  subst hout
  refine ⟨r, hr, ?_⟩
  rw [inputsOf, List.mem_cons, List.mem_singleton]
  exact hinput

theorem colon_noCollision :
    NoCollision (crates group23) (digest 32) {colonEmail, plainEmail} := by
  have hstretched : stretched colonEmail ≠ stretched plainEmail := by decide +kernel
  have hinputs : ∀ a ∈ inputsOf colonEmail ++ inputsOf plainEmail,
      ∀ b ∈ inputsOf colonEmail ++ inputsOf plainEmail, digest 32 a = digest 32 b → a = b := by
    decide +kernel
  have hmem : ∀ a, a ∈ hashInputs (crates group23) (digest 32) {colonEmail, plainEmail} →
      a ∈ inputsOf colonEmail ++ inputsOf plainEmail := by
    intro a ha
    rcases hashInputs_octet ha with ⟨r, rfl | rfl, hinput⟩
    · exact List.mem_append_left _ hinput
    · exact List.mem_append_right _ hinput
  constructor
  · rintro _ ⟨r, hr, rfl⟩ _ ⟨r', hr', rfl⟩ out hout hout'
    have hsame : stretched r = stretched r' := Except.ok.inj (hout.trans hout'.symm)
    rcases hr with rfl | rfl
    · rcases hr' with rfl | rfl
      · rfl
      · exact absurd hsame hstretched
    · rcases hr' with rfl | rfl
      · exact absurd hsame.symm hstretched
      · rfl
  · intro a ha b hb hab
    exact hinputs a (hmem a ha) b (hmem b hb) hab

theorem verifiers_bind_registration_colon :
    ∃ e e', colonEmail.exponent (crates group23) (digest 32) = .ok e ∧
      plainEmail.exponent (crates group23) (digest 32) = .ok e' ∧ e ≠ e' := by
  rcases verifiers_bind_registration (octet_followsSrp6a group23) colon_noCollision
    (Set.mem_insert _ _) (Set.mem_insert_of_mem _ rfl) rfl rfl (by decide) with
    ⟨e, e', he, he', -, -, hne⟩
  exact ⟨e, e', he, he', hne⟩

end
end EvnxCrypto
