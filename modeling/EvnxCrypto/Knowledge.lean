import EvnxCrypto.Deduction
import EvnxCrypto.Sharing
import EvnxCrypto.SymbolicCrates

/-!
# What a breach can reveal, over symbolic bytes

A breach fixes what an adversary is given besides what it has seen. Its recipes
bound what can be computed from there: the set they generate is closed under
every deduction, so a string outside of it stays secret. The keys that honest
clients seal under are outside of it in every breach, and a ciphertext under
such a key reveals nothing, so it counts as public.
-/
namespace EvnxCrypto
open Effect ByteString AuthenticatedEncryption Symbolic

inductive Breach where
  | server
  | srpInput
  | x25519
  | mlkem
  deriving DecidableEq

namespace Breach

/-- Salts and nonces are sent; a broken primitive gives up its coins. -/
def gives : Breach → Purpose → Bool
  | _, .salt | _, .nonce | .x25519, .ephemeralSecret | .mlkem, .encapsulation => true
  | _, _ => false

def pub (b : Breach) : Set Atom := {a | ∃ p i, b.gives p = true ∧ a = .draw p i}

/-- The function values a breach gives up. -/
def opened : Breach → Fn → List SString → Prop
  | .srpInput, .argon2id, args => ∃ password salt, args = [KDF_DOMAIN_SRP_PASSWORD, password, salt]
  | .x25519, .hkdf, args => ∃ seed, args = [seed, HKDF_INFO_X25519_DERIVE]
  | .x25519, .point, _ => True
  | .mlkem, .hkdf, args => ∃ seed, args = [seed, HKDF_INFO_MLKEM_DERIVE]
  | .mlkem, .sharedSecret, _ => True
  | .mlkem, .rejection, _ => True
  | _, _, _ => False

end Breach

/-- The functions whose values are public whatever they are applied to. -/
def Fn.published : Fn → Bool
  | .ed25519 | .encapsulationKey | .encapsulation | .srpVerifier => true
  | _ => false

/-- A master key derived from a password nobody else knows. -/
def MasterKey.FromPassword (masterKey : MasterKey SByte) : Prop :=
  ∃ i n salt, masterKey.expose =
    out .argon2id [KDF_DOMAIN_MASTER_KEY, (atoms (.password i) (n + 1)).toList, salt] 32

/-- A key pair that descends from a drawn seed. -/
def UserKeypair.FromSeed (keypair : UserKeypair SByte) : Prop :=
  ∃ i, keypair = symbolicCrates.keypairOf (atoms (.draw .seed i) 32)

/-- The keys honest clients seal under. -/
inductive SecretKey : SString → Prop
  | vaultKey (i : ℕ) : SecretKey (atoms (.draw .vaultKey i) VAULT_KEY_LEN).toList
  | sealSubkey {masterKey : MasterKey SByte} : masterKey.FromPassword →
      SecretKey (symbolicCrates.sealSubkey masterKey).toList
  | wrapSubkey {masterKey : MasterKey SByte} : masterKey.FromPassword →
      SecretKey (symbolicCrates.wrapSubkey masterKey).toList
  | hybridKey {keypair : UserKeypair SByte} {coins : WrapCoins SByte} (i j : ℕ) :
      keypair.FromSeed → coins.ephSecret = atoms (.draw .ephemeralSecret i) 32 →
      coins.m = atoms (.draw .encapsulation j) 32 →
      SecretKey (symbolicCrates.hybridKey
        (symbolicCrates.senderIkm keypair.publicKeys coins)).toList

/-- What suffices to compute a function value. A point takes its base and all
scalars but one, as that one may come in through a public key. -/
inductive Recipe (b : Breach) : Recipes Fn Atom
  | compute (f : Fn) (args : List SString) : Recipe b f args args
  | opened {f : Fn} {args : List SString} : b.opened f args → Recipe b f args []
  | published {f : Fn} (args : List SString) : f.published = true → Recipe b f args []
  | point {base s : SString} {ss rest : List SString} :
      (ss : Multiset SString) = s ::ₘ (rest : Multiset SString) →
      Recipe b .point (base :: ss) (base :: rest)
  | encapsulated (ek m : SString) : Recipe b .sharedSecret [ek, m] [m]
  | decapsulated {dk ek : SString} (m : SString) :
      ek = (out .encapsulationKey [dk] 1184).toList → Recipe b .sharedSecret [ek, m] [dk]
  | sealed {f : Fn} {key : SString} (c : Cipher) (nonce aad msg : SString) :
      f = cipherFn c → SecretKey key → Recipe b f [key, nonce, aad, msg] []

abbrev Breach.Knows (b : Breach) (x : SString) : Prop := KnownString b.pub (Recipe b) x

variable {b : Breach}

/-! ## What each breach gives up -/

theorem opened_hkdf {ikm info : SString} (h : b.opened .hkdf [ikm, info]) :
    (b = .x25519 ∧ info = HKDF_INFO_X25519_DERIVE) ∨
      (b = .mlkem ∧ info = HKDF_INFO_MLKEM_DERIVE) := by
  cases b with
  | server => cases h
  | srpInput => cases h
  | x25519 =>
      rcases h with ⟨seed, hargs⟩
      simp only [List.cons.injEq, and_true] at hargs
      exact .inl ⟨rfl, hargs.2⟩
  | mlkem =>
      rcases h with ⟨seed, hargs⟩
      simp only [List.cons.injEq, and_true] at hargs
      exact .inr ⟨rfl, hargs.2⟩

theorem opened_argon2id {secret password salt : SString}
    (h : b.opened .argon2id [secret, password, salt]) :
    b = .srpInput ∧ secret = KDF_DOMAIN_SRP_PASSWORD := by
  cases b with
  | server => cases h
  | srpInput =>
      rcases h with ⟨password', salt', hargs⟩
      simp only [List.cons.injEq] at hargs
      exact ⟨rfl, hargs.1⟩
  | x25519 => cases h
  | mlkem => cases h

theorem opened_point {args : List SString} : b.opened .point args ↔ b = .x25519 := by
  cases b <;> simp [Breach.opened]

theorem opened_sharedSecret {args : List SString} :
    b.opened .sharedSecret args ↔ b = .mlkem := by
  cases b <;> simp [Breach.opened]

theorem not_opened_cipher (c : Cipher) (args : List SString) :
    ¬ b.opened (cipherFn c) args := by
  cases b <;> cases c <;> simp [Breach.opened, cipherFn]

/-! ## What knowing a function value takes -/

section
variable {n : ℕ} (hn : 0 < n)
include hn

theorem knows_hkdf {ikm info : SString} (h : b.Knows (out .hkdf [ikm, info] n).toList) :
    b.Knows ikm ∨ (b = .x25519 ∧ info = HKDF_INFO_X25519_DERIVE) ∨
      (b = .mlkem ∧ info = HKDF_INFO_MLKEM_DERIVE) := by
  obtain ⟨needs, hrecipe, hneeds⟩ := KnownString.of_out hn h
  cases hrecipe with
  | compute => exact .inl (hneeds _ List.mem_cons_self)
  | opened hopened => exact .inr (opened_hkdf hopened)
  | published _ hpublished => cases hpublished

theorem knows_argon2id {secret password salt : SString}
    (h : b.Knows (out .argon2id [secret, password, salt] n).toList) :
    b.Knows password ∨ (b = .srpInput ∧ secret = KDF_DOMAIN_SRP_PASSWORD) := by
  obtain ⟨needs, hrecipe, hneeds⟩ := KnownString.of_out hn h
  cases hrecipe with
  | compute => exact .inl (hneeds _ (List.mem_cons_of_mem _ List.mem_cons_self))
  | opened hopened => exact .inr (opened_argon2id hopened)
  | published _ hpublished => cases hpublished

theorem knows_sharedSecret {ek m : SString} (h : b.Knows (out .sharedSecret [ek, m] n).toList) :
    b = .mlkem ∨ b.Knows m ∨
      ∃ dk, ek = (out .encapsulationKey [dk] 1184).toList ∧ b.Knows dk := by
  obtain ⟨needs, hrecipe, hneeds⟩ := KnownString.of_out hn h
  cases hrecipe with
  | compute => exact .inr (.inl (hneeds _ (List.mem_cons_of_mem _ List.mem_cons_self)))
  | opened hopened => exact .inl (opened_sharedSecret.mp hopened)
  | published _ hpublished => cases hpublished
  | encapsulated => exact .inr (.inl (hneeds _ List.mem_cons_self))
  | decapsulated _ hek => exact .inr (.inr ⟨_, hek, hneeds _ List.mem_cons_self⟩)

/-- A product of two scalars takes one of them. -/
theorem knows_point {base s t : SString} {ss : List SString}
    (hss : (ss : Multiset SString) = s ::ₘ {t})
    (h : b.Knows (out .point (base :: ss) n).toList) :
    b = .x25519 ∨ b.Knows s ∨ b.Knows t := by
  obtain ⟨needs, hrecipe, hneeds⟩ := KnownString.of_out hn h
  cases hrecipe with
  | compute =>
      have hs : s ∈ ss := by
        rw [← Multiset.mem_coe, hss]
        exact Multiset.mem_cons_self s _
      exact .inr (.inl (hneeds s (List.mem_cons_of_mem _ hs)))
  | opened hopened => exact .inl (opened_point.mp hopened)
  | published _ hpublished => cases hpublished
  | @point _ x _ rest hrest =>
      have hbag : x ::ₘ (rest : Multiset SString) = s ::ₘ {t} := hrest.symm.trans hss
      have hcard : rest.length = 1 := by
        have := congrArg Multiset.card hbag
        simpa using this
      obtain ⟨y, rfl⟩ := List.length_eq_one_iff.mp hcard
      have hy : y ∈ s ::ₘ ({t} : Multiset SString) := by
        rw [← hbag]
        simp
      have hknown := hneeds y (List.mem_cons_of_mem _ List.mem_cons_self)
      rw [Multiset.mem_cons, Multiset.mem_singleton] at hy
      rcases hy with rfl | rfl
      · exact .inr (.inl hknown)
      · exact .inr (.inr hknown)
  | sealed c _ _ _ hf => cases c <;> cases hf

theorem knows_sealed {c : Cipher} {key nonce aad msg : SString}
    (h : b.Knows (out (cipherFn c) [key, nonce, aad, msg] n).toList) :
    b.Knows msg ∨ SecretKey key := by
  obtain ⟨needs, hrecipe, hneeds⟩ := KnownString.of_out hn h
  generalize hf : cipherFn c = f at hrecipe
  generalize hargs : [key, nonce, aad, msg] = args at hrecipe
  cases hrecipe with
  | compute =>
      subst hargs
      exact .inl (hneeds _ (by simp))
  | opened hopened =>
      subst hf
      exact absurd hopened (not_opened_cipher c _)
  | published _ hpublished =>
      subst hf
      cases c <;> cases hpublished
  | point => cases c <;> cases hf
  | encapsulated => cases hargs
  | decapsulated => cases hargs
  | sealed _ _ _ _ _ hsecret =>
      cases hargs
      exact .inr hsecret

end

/-! ## What no breach reveals -/

theorem symbolicCrates_okm (ikm info : SString) (n : ℕ) (hn : n ≤ 255 * 32) :
    symbolicCrates.okm ikm info n hn = out .hkdf [ikm, info] n := by
  have hexpand : symbolicCrates.hkdfExpand ikm info n = some (out .hkdf [ikm, info] n) :=
    if_pos hn
  exact Option.some.inj ((symbolicCrates.hkdfExpand_eq ikm info hn).symm.trans hexpand)

theorem knows_atoms {a : Atom} {n : ℕ} (hn : 0 < n) (h : b.Knows (atoms a n).toList) :
    ∃ p i, b.gives p = true ∧ a = .draw p i := by
  have hpub : a ∈ b.pub := KnownString.of_atoms hn h
  exact hpub

/-- A draw known whole is of a purpose the breach gives away. -/
theorem gives_of_knows {p : Purpose} {i n : ℕ} (hn : 0 < n)
    (h : b.Knows (atoms (.draw p i) n).toList) : b.gives p = true := by
  obtain ⟨q, j, hgives, heq⟩ := knows_atoms hn h
  cases heq
  exact hgives

theorem not_knows_seed (i : ℕ) : ¬ b.Knows (atoms (.draw .seed i) 32).toList := by
  intro h
  have hgives := gives_of_knows (by decide) h
  cases b <;> cases hgives

theorem not_knows_vaultKey (i : ℕ) : ¬ b.Knows (atoms (.draw .vaultKey i) 32).toList := by
  intro h
  have hgives := gives_of_knows (by decide) h
  cases b <;> cases hgives

theorem not_knows_password (i n : ℕ) : ¬ b.Knows (atoms (.password i) (n + 1)).toList := by
  intro h
  obtain ⟨p, j, -, heq⟩ := knows_atoms (Nat.succ_pos n) h
  cases heq

theorem knows_ephemeralSecret {i : ℕ}
    (h : b.Knows (atoms (.draw .ephemeralSecret i) 32).toList) : b = .x25519 := by
  have hgives := gives_of_knows (by decide) h
  revert hgives
  cases b <;> decide

theorem knows_encapsulation {i : ℕ}
    (h : b.Knows (atoms (.draw .encapsulation i) 32).toList) : b = .mlkem := by
  have hgives := gives_of_knows (by decide) h
  revert hgives
  cases b <;> decide

/-- The two uses of a password are kept apart by their tags. -/
theorem not_knows_masterKey {masterKey : MasterKey SByte} (h : masterKey.FromPassword) :
    ¬ b.Knows masterKey.expose.toList := by
  intro hknown
  obtain ⟨i, n, salt, hkey⟩ := h
  rw [hkey] at hknown
  rcases knows_argon2id (by decide) hknown with hpassword | ⟨-, hdomain⟩
  · exact not_knows_password i n hpassword
  · exact absurd (asBytes_injective hdomain) (by decide)

/-- A subkey with a tag of its own is as secret as its input. -/
theorem not_knows_subkey {ikm : SString} {tag : String} (hikm : ¬ b.Knows ikm)
    (hx25519 : tag ≠ "evnx-x25519-from-ed25519-v1") (hmlkem : tag ≠ "evnx/mlkem768/v1") :
    ¬ b.Knows (symbolicCrates.subkey ikm (asBytes tag)).toList := by
  intro hknown
  rw [Crates.subkey, symbolicCrates_okm] at hknown
  rcases knows_hkdf (by decide) hknown with h | ⟨-, h⟩ | ⟨-, h⟩
  · exact hikm h
  · exact hx25519 (asBytes_injective h)
  · exact hmlkem (asBytes_injective h)

/-- Only a break of X25519 reveals an X25519 private key: the seed stays secret, and
the other private key that descends from it has a tag of its own. -/
theorem knows_x25519Private {keypair : UserKeypair SByte} (h : keypair.FromSeed)
    (hknown : b.Knows keypair.x25519Private.toList) : b = .x25519 := by
  rcases h with ⟨i, rfl⟩
  have hvalue : (symbolicCrates.keypairOf (atoms (.draw .seed i) 32)).x25519Private =
      out .hkdf [(atoms (.draw .seed i) 32).toList, HKDF_INFO_X25519_DERIVE] 32 :=
    symbolicCrates_okm _ _ 32 (by decide)
  rw [hvalue] at hknown
  rcases knows_hkdf (by decide) hknown with hseed | ⟨hb, -⟩ | ⟨-, htag⟩
  · exact absurd hseed (not_knows_seed i)
  · exact hb
  · exact absurd (asBytes_injective htag) (by decide)

theorem knows_mlkemDecap {keypair : UserKeypair SByte} (h : keypair.FromSeed)
    (hknown : b.Knows keypair.mlkemDecap.encoding) : b = .mlkem := by
  rcases h with ⟨i, rfl⟩
  have hvalue : (symbolicCrates.keypairOf (atoms (.draw .seed i) 32)).mlkemDecap.encoding =
      (out .hkdf [(atoms (.draw .seed i) 32).toList, HKDF_INFO_MLKEM_DERIVE] 64).toList :=
    congrArg List.Vector.toList (symbolicCrates_okm _ _ 64 (by decide))
  rw [hvalue] at hknown
  rcases knows_hkdf (by decide) hknown with hseed | ⟨-, htag⟩ | ⟨hb, -⟩
  · exact absurd hseed (not_knows_seed i)
  · exact absurd (asBytes_injective htag) (by decide)
  · exact hb

section
variable {keypair : UserKeypair SByte} {coins : WrapCoins SByte} {i : ℕ}

/-- The classical half of an honest wrap. -/
theorem knows_x25519_half (h : keypair.FromSeed)
    (hcoins : coins.ephSecret = atoms (.draw .ephemeralSecret i) 32)
    (hknown : b.Knows
      (symbolicCrates.diffieHellman coins.ephSecret keypair.x25519Public.bytes).toList) :
    b = .x25519 := by
  have hpublic : keypair.x25519Public.bytes =
      scalarMul keypair.x25519Private.toList basePoint := by
    rcases h with ⟨j, rfl⟩
    rfl
  change b.Knows (scalarMul coins.ephSecret.toList keypair.x25519Public.bytes.toList).toList
    at hknown
  rw [hpublic, scalarMul_base, scalarMul_point] at hknown
  have hbag : ((coins.ephSecret.toList ::ₘ
      ([keypair.x25519Private.toList] : Multiset SString)).toList : Multiset SString) =
      coins.ephSecret.toList ::ₘ {keypair.x25519Private.toList} := Multiset.coe_toList _
  rcases knows_point (by decide) hbag hknown with hb | heph | hprivate
  · exact hb
  · rw [hcoins] at heph
    exact knows_ephemeralSecret heph
  · exact knows_x25519Private h hprivate

/-- The post-quantum half of an honest wrap. -/
theorem knows_mlkem_half (h : keypair.FromSeed)
    (hcoins : coins.m = atoms (.draw .encapsulation i) 32)
    (hknown : b.Knows
      (symbolicCrates.encapsulateDeterministic keypair.mlkemPublic.bytes coins.m).2.toList) :
    b = .mlkem := by
  have hvalue : (symbolicCrates.encapsulateDeterministic keypair.mlkemPublic.bytes coins.m).2 =
      out .sharedSecret [keypair.mlkemPublic.bytes.toList, coins.m.toList] 32 := rfl
  have hpublic : keypair.mlkemPublic.bytes =
      out .encapsulationKey [keypair.mlkemDecap.encoding] 1184 := by
    rcases h with ⟨j, rfl⟩
    rfl
  rw [hvalue] at hknown
  rcases knows_sharedSecret (by decide) hknown with hb | hm | ⟨dk, hek, hdk⟩
  · exact hb
  · rw [hcoins] at hm
    exact knows_encapsulation hm
  · rw [hpublic] at hek
    have hargs := (out_inj (by decide) hek).2.1
    rw [← List.singleton_inj.mp hargs] at hdk
    exact knows_mlkemDecap h hdk

end

/-- Every breach leaves one half of an honest mix secret. -/
theorem not_knows_secretKey {key : SString} (h : SecretKey key) : ¬ b.Knows key := by
  cases h with
  | vaultKey i => exact not_knows_vaultKey i
  | sealSubkey hmaster =>
      exact not_knows_subkey (not_knows_masterKey hmaster) (by decide) (by decide)
  | wrapSubkey hmaster =>
      exact not_knows_subkey (not_knows_masterKey hmaster) (by decide) (by decide)
  | hybridKey i j hseed heph hm =>
      apply not_knows_subkey _ (by decide) (by decide)
      intro hikm
      simp only [Crates.senderIkm, hybridIkm, KnownString.append] at hikm
      have hx25519 := knows_x25519_half hseed heph hikm.1.1.1.2
      have hmlkem := knows_mlkem_half hseed hm hikm.1.1.1.1
      rw [hx25519] at hmlkem
      cases hmlkem

/-! ## The knowledge is closed under every deduction -/

theorem knows_compute {f : Fn} {args : List SString} (n : ℕ) (h : ∀ x ∈ args, b.Knows x) :
    b.Knows (out f args n).toList :=
  .out n (.compute f args) h

theorem knows_published {f : Fn} (args : List SString) (n : ℕ) (h : f.published = true) :
    b.Knows (out f args n).toList :=
  .out n (.published args h) (by simp)

theorem knows_opened {f : Fn} {args : List SString} (n : ℕ) (h : b.opened f args) :
    b.Knows (out f args n).toList :=
  .out n (.opened h) (by simp)

theorem knows_insert {a s : SString} {rest : List SString} (ha : b.Knows a)
    (hneeds : ∀ x ∈ s :: rest, b.Knows x) {x : SString} (hx : x = s ∨ x = a ∨ x ∈ rest) :
    b.Knows x := by
  rcases hx with rfl | rfl | hx
  · exact hneeds _ List.mem_cons_self
  · exact ha
  · exact hneeds _ (List.mem_cons_of_mem _ hx)

/-- A known point may be multiplied by a known scalar. -/
theorem knows_scalarMul {a point : SString} (ha : b.Knows a) (hpoint : b.Knows point) :
    b.Knows (scalarMul a point).toList := by
  by_cases hex : ∃ q : SString × List SString, point = (out .point (q.1 :: q.2) 32).toList
  · rcases hex with ⟨⟨base, ss⟩, rfl⟩
    rw [scalarMul_point]
    have hbag : ((a ::ₘ (ss : Multiset SString)).toList : Multiset SString) = a ::ₘ ss :=
      Multiset.coe_toList _
    obtain ⟨needs, hrecipe, hneeds⟩ := KnownString.of_out (by decide) hpoint
    cases hrecipe with
    | compute =>
        apply knows_compute
        intro x hx
        rw [List.mem_cons, Multiset.mem_toList, Multiset.mem_cons, Multiset.mem_coe] at hx
        exact knows_insert ha hneeds hx
    | opened hopened => exact knows_opened 32 (opened_point.mpr (opened_point.mp hopened))
    | published _ hpublished => cases hpublished
    | @point _ s _ rest hrest =>
        have hmore : ((a ::ₘ (ss : Multiset SString)).toList : Multiset SString) =
            s ::ₘ ((a :: rest : List SString) : Multiset SString) := by
          rw [hbag, hrest, Multiset.cons_swap]
          rfl
        refine .out 32 (.point hmore) ?_
        intro x hx
        simp only [List.mem_cons] at hx
        exact knows_insert ha hneeds hx
    | sealed c _ _ _ hf => cases c <;> cases hf
  · rw [scalarMul, dif_neg hex]
    apply knows_compute
    simp only [List.mem_cons, List.not_mem_nil, or_false, forall_eq_or_imp, forall_eq]
    exact ⟨hpoint, ha⟩

theorem knows_encapsulated (ek : List.Vector SByte 1184) (m : List.Vector SByte 32) :
    b.Knows (symbolicCrates.encapsulateDeterministic ek m).1.toList :=
  knows_published [ek.toList, m.toList] 1088 rfl

/-- What decapsulation returns over symbolic bytes. -/
theorem symbolicCrates_decapsulated {dk : DecapsulationKey768 SByte} {ct : SString}
    {ss : List.Vector SByte 32} (h : symbolicCrates.decapsulateSlice dk ct = some ss) :
    (∃ m, ss = out .sharedSecret [(symbolicEncapsulationKey dk).toList, m] 32) ∨
      ss = out .rejection [dk.encoding, ct] 32 := by
  simp only [symbolicCrates, symbolicCratesWith, Option.ite_none_right_eq_some,
    Option.some.injEq] at h
  rw [← h.2, symbolicDecapsulate]
  split
  · exact .inl ⟨_, rfl⟩
  · exact .inr rfl

/-- The closed set: what a breach knows, it knows however it goes on computing. -/
theorem knows_of_derivable {K : Set SString} (hK : ∀ x ∈ K, b.Knows x) {x : SString}
    (h : Derivable symbolicCrates K x) : b.Knows x := by
  induction h with
  | known hx => exact hK _ hx
  | lits bs => exact KnownString.lits bs
  | append _ _ ihx ihy => exact KnownString.append.mpr ⟨ihx, ihy⟩
  | take n _ ih => exact ih.take n
  | drop n _ ih => exact ih.drop n
  | @hkdfExpand ikm info n okm hexpand _ _ ihikm ihinfo =>
      have hvalue : okm = out .hkdf [ikm, info] n := by
        simp only [symbolicCrates, symbolicCratesWith, Option.ite_none_right_eq_some,
          Option.some.injEq] at hexpand
        exact hexpand.2.symm
      rw [hvalue]
      exact knows_compute n (by simpa using ⟨ihikm, ihinfo⟩)
  | argon2id hderive _ _ _ ihsecret ihpassword ihsalt =>
      cases hderive
      exact knows_compute _ (by simpa using ⟨ihsecret, ihpassword, ihsalt⟩)
  | blake3Hash _ ih => exact knows_compute 32 (by simpa using ih)
  | ed25519VerifyingKey _ _ => exact knows_published _ 32 rfl
  | x25519StaticSecret _ ih => exact ih
  | x25519PublicKey _ ih => exact knows_scalarMul ih (KnownString.lits _)
  | diffieHellman _ _ ihscalar ihpoint => exact knows_scalarMul ihscalar ihpoint
  | mlkemFromSeed _ ih => exact ih
  | mlkemEncapsulationKey _ _ => exact knows_published _ 1184 rfl
  | encapsulated _ _ _ _ => exact knows_encapsulated _ _
  | encapsulatedSecret _ _ ihek ihm => exact knows_compute 32 (by simpa using ⟨ihek, ihm⟩)
  | decapsulated hdec _ _ ihdk ihct =>
      rcases symbolicCrates_decapsulated hdec with ⟨m, rfl⟩ | rfl
      · exact .out 32 (.decapsulated m rfl) (by simpa using ihdk)
      · exact knows_compute 32 (by simpa using ⟨ihdk, ihct⟩)
  | srpComputeVerifier _ _ _ _ _ _ => exact knows_published _ 256 rfl
  | @aeadEncrypt c key nonce aad msg ct henc _ _ _ _ ihkey ihnonce ihaad ihmsg =>
      cases henc
      exact knows_compute _ (by simpa using ⟨ihkey, ihnonce, ihaad, ihmsg⟩)
  | @aeadDecrypt c key nonce aad ct msg H hopen _ _ _ _ ihkey _ _ ihct =>
      -- the ciphertext gives away its message, or its key is one of the secret ones
      have henc := symbolicAead_decrypt_eq_some.mp hopen
      cases henc
      rcases knows_sealed (Nat.succ_pos _) ihct with hmsg | hsecret
      · exact hmsg
      · exact absurd ihkey (not_knows_secretKey hsecret)

/-! ## What an adversary is given -/

/-- A leaked stretched password, or everything a broken primitive has to give. -/
def Breach.given : Breach → Set SString
  | .server => ∅
  | .srpInput => {x | ∃ password salt, deriveSrpPassword symbolicCrates password salt = .ok x}
  | .x25519 => {x |
      (∃ seed, x = (symbolicCrates.x25519SecretOf seed).toList) ∨
      (∃ i n, x = (symbolicTape i .ephemeralSecret n).toList) ∨
      ∃ a point, x = (symbolicCrates.diffieHellman a point).toList}
  | .mlkem => {x |
      (∃ seed, x = (symbolicCrates.mlkemDecapOf seed).encoding) ∨
      (∃ i n, x = (symbolicTape i .encapsulation n).toList) ∨
      (∃ ek m, x = (symbolicCrates.encapsulateDeterministic ek m).2.toList) ∨
      ∃ dk ct ss, symbolicCrates.decapsulateSlice dk ct = some ss ∧ x = ss.toList}

theorem knows_x25519_given : ∀ x ∈ Breach.x25519.given, Breach.x25519.Knows x := by
  intro x hx
  rcases hx with ⟨seed, rfl⟩ | ⟨i, n, rfl⟩ | ⟨a, point, rfl⟩
  · have hvalue : symbolicCrates.x25519SecretOf seed =
        out .hkdf [seed.toList, HKDF_INFO_X25519_DERIVE] 32 :=
      symbolicCrates_okm _ _ 32 (by decide)
    rw [hvalue]
    exact knows_opened 32 ⟨seed.toList, rfl⟩
  · exact KnownString.atoms n ⟨.ephemeralSecret, i, rfl, rfl⟩
  · change Breach.x25519.Knows (scalarMul a.toList point.toList).toList
    unfold scalarMul
    split
    · exact knows_opened 32 trivial
    · exact knows_opened 32 trivial

theorem knows_mlkem_given : ∀ x ∈ Breach.mlkem.given, Breach.mlkem.Knows x := by
  intro x hx
  rcases hx with ⟨seed, rfl⟩ | ⟨i, n, rfl⟩ | ⟨ek, m, rfl⟩ | ⟨dk, ct, ss, hdec, rfl⟩
  · have hvalue : (symbolicCrates.mlkemDecapOf seed).encoding =
        (out .hkdf [seed.toList, HKDF_INFO_MLKEM_DERIVE] 64).toList :=
      congrArg List.Vector.toList (symbolicCrates_okm _ _ 64 (by decide))
    rw [hvalue]
    exact knows_opened 64 ⟨seed.toList, rfl⟩
  · exact KnownString.atoms n ⟨.encapsulation, i, rfl, rfl⟩
  · have hopened : Breach.mlkem.opened .sharedSecret [ek.toList, m.toList] := trivial
    exact knows_opened 32 hopened
  · rcases symbolicCrates_decapsulated hdec with ⟨m, rfl⟩ | rfl
    · exact knows_opened 32 trivial
    · exact knows_opened 32 trivial

theorem knows_given (b : Breach) : ∀ x ∈ b.given, b.Knows x := by
  cases b with
  | server =>
      intro x hx
      cases hx
  | srpInput =>
      intro x hx
      rcases hx with ⟨password, salt, hderive⟩
      cases hderive
      have hopened : Breach.srpInput.opened .argon2id
          [KDF_DOMAIN_SRP_PASSWORD, password, salt.toList] := ⟨password, salt.toList, rfl⟩
      exact knows_opened 32 hopened
  | x25519 => exact knows_x25519_given
  | mlkem => exact knows_mlkem_given

end EvnxCrypto
