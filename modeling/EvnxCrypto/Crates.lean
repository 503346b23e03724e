import EvnxCrypto.AuthenticatedEncryption
import EvnxCrypto.ByteString
import EvnxCrypto.Errors
import Mathlib.Data.List.Infix
import Mathlib.Logic.Function.Basic

/-!
# The external crates and the world they act on

Everything the program calls and does not define is a field of `Crates`: the two
ciphers, HKDF-SHA256, Argon2id, BLAKE3, the curve and lattice primitives, the SRP
client. A field that is a proof states a documented fact about lengths; anything
stronger is a hypothesis of the theorem that needs it.

The world holds the generator and a record of what the primitives were asked to
do. The record is what idealised primitives are judged against: a cipher by the
sealings made so far, HKDF by the derivations made so far, the generator by the
values it has returned. Its proof fields say that the record is true.
-/
namespace EvnxCrypto
open Effect ByteString AuthenticatedEncryption

inductive Cipher where
  | aes256Gcm
  | xchacha20Poly1305
  deriving DecidableEq, Repr

/-- Both ciphers take a 256-bit key. -/
abbrev AEAD_KEY_LEN : ℕ := 32

/-- An expanded ML-KEM-768 decapsulation key, kept as an opaque encoding. -/
structure DecapsulationKey768 (B : Type) where
  encoding : List B
  deriving DecidableEq

structure Crates (B : Type) where
  aead : Cipher → Aead B
  /-- `Hkdf::<Sha256>::new(None, ikm).expand(info, okm)` for an `n`-byte `okm`. -/
  hkdfExpand : (ikm info : List B) → (n : ℕ) → Option (List.Vector B n)
  hkdfExpand_isSome : ∀ ikm info n, n ≤ 255 * 32 → (hkdfExpand ikm info n).isSome
  /-- Argon2id v0x13 with costs `m`, `t`, `p` and a secret; the error is the
  crate's description. -/
  argon2id : (m t p : ℕ) → (secret password salt : List B) → (n : ℕ) →
    Except String (List.Vector B n)
  blake3Hash : List B → List.Vector B 32
  ed25519VerifyingKey : List.Vector B 32 → List.Vector B 32
  /-- The bytes a `StaticSecret` made from the given ones holds. -/
  x25519StaticSecret : List.Vector B 32 → List.Vector B 32
  x25519StaticSecret_idem : ∀ b, x25519StaticSecret (x25519StaticSecret b) = x25519StaticSecret b
  x25519PublicKey : List.Vector B 32 → List.Vector B 32
  diffieHellman : (secret point : List.Vector B 32) → List.Vector B 32
  wasContributory : List.Vector B 32 → Bool
  mlkemFromSeed : List.Vector B 64 → DecapsulationKey768 B
  mlkemEncapsulationKey : DecapsulationKey768 B → List.Vector B 1184
  /-- Whether `EncapsulationKey768::new` accepts the encoding. -/
  mlkemKeyIsValid : List.Vector B 1184 → Bool
  encapsulateDeterministic : List.Vector B 1184 → List.Vector B 32 →
    List.Vector B 1088 × List.Vector B 32
  decapsulateSlice : DecapsulationKey768 B → List B → Option (List.Vector B 32)
  /-- `SrpClient::<Sha256>::new(&G_2048).compute_verifier(username, password, salt)`. -/
  srpComputeVerifier : (username password salt : List B) → List B

/-- What a value drawn from the generator is for. -/
inductive Purpose where
  | salt
  | vaultKey
  | seed
  | nonce
  | ephemeralSecret
  | encapsulation
  | srpEphemeral
  deriving DecidableEq, Repr

structure Draw (B : Type) where
  purpose : Purpose
  bytes : List B
  deriving DecidableEq

/-- What an encryption was given to encrypt with, whether or not it succeeded. -/
structure Encryption (B : Type) where
  cipher : Cipher
  key : List B
  nonce : List B
  deriving DecidableEq

/-- One successful HKDF expansion. -/
structure Derivation (B : Type) where
  ikm : List B
  info : List B
  len : ℕ
  okm : List B
  deriving DecidableEq

variable {B : Type}

/-- The tape is arbitrary, and is told what a draw is for: a statement about
every tape is in particular one about a generator that is not told. -/
structure World (P : Crates B) where
  tape : ℕ → Purpose → (n : ℕ) → List.Vector B n
  drawn : List (Draw B)
  encryptions : List (Encryption B)
  history : (c : Cipher) → History (P.aead c)
  derived : List (Derivation B)
  drawn_from_tape : ∀ d ∈ drawn, ∃ i n, d.bytes = (tape i d.purpose n).toList
  derived_by_hkdf : ∀ d ∈ derived,
    (P.hkdfExpand d.ikm d.info d.len).map List.Vector.toList = some d.okm

/-- A call of the program under the crates `P`. -/
abbrev Prog (P : Crates B) (α : Type) : Type := Run (World P) CryptoError α

namespace World
variable {P : Crates B}

def init (P : Crates B) (tape : ℕ → Purpose → (n : ℕ) → List.Vector B n) : World P where
  tape := tape
  drawn := []
  encryptions := []
  history := fun _ => .empty
  derived := []
  drawn_from_tape := by simp
  derived_by_hkdf := by simp

@[simp] theorem init_history (tape : ℕ → Purpose → (n : ℕ) → List.Vector B n) (c : Cipher) :
    (init P tape).history c = .empty := rfl

/-- The next value of the generator. -/
def next (w : World P) (p : Purpose) (n : ℕ) : List.Vector B n := w.tape w.drawn.length p n

def draw (w : World P) (p : Purpose) (n : ℕ) : World P :=
  { w with
    drawn := ⟨p, (w.next p n).toList⟩ :: w.drawn
    drawn_from_tape := by
      intro d hd
      rcases List.mem_cons.mp hd with rfl | hd
      · exact ⟨w.drawn.length, n, rfl⟩
      · exact w.drawn_from_tape d hd }

def record (w : World P) (c : Cipher) {k n a m ct : List B}
    (h : (P.aead c).encrypt k n a m = some ct) : World P :=
  { w with
    encryptions := ⟨c, k, n⟩ :: w.encryptions
    history := Function.update w.history c ((w.history c).add h) }

/-- An encryption the cipher turned down. -/
def refuse (w : World P) (c : Cipher) (k n : List B) : World P :=
  { w with encryptions := ⟨c, k, n⟩ :: w.encryptions }

def derive (w : World P) {ikm info okm : List B} {len : ℕ}
    (h : (P.hkdfExpand ikm info len).map List.Vector.toList = some okm) : World P :=
  { w with
    derived := ⟨ikm, info, len, okm⟩ :: w.derived
    derived_by_hkdf := by
      intro e he
      rcases List.mem_cons.mp he with rfl | he
      · exact h
      · exact w.derived_by_hkdf e he }

section Fields
variable (w : World P) {c : Cipher} {key nonce aad msg ct : List B}
variable (henc : (P.aead c).encrypt key nonce aad msg = some ct)

@[simp] theorem draw_history (p : Purpose) (n : ℕ) : (w.draw p n).history = w.history := rfl

@[simp] theorem record_history_self :
    (w.record c henc).history c = (w.history c).add henc := by
  simp [record]

theorem record_history_of_ne {c' : Cipher} (h : c' ≠ c) :
    (w.record c henc).history c' = w.history c' := by
  simp [record, h]

end Fields

/-- What can happen to a world: the tape stays and every record only grows. -/
structure Extends (w w' : World P) : Prop where
  tape : w'.tape = w.tape
  drawn : w.drawn <:+ w'.drawn
  history : ∀ c, (w.history c).sealings <:+ (w'.history c).sealings
  derived : w.derived <:+ w'.derived

theorem Extends.refl (w : World P) : w.Extends w :=
  ⟨rfl, List.suffix_refl _, fun _ => List.suffix_refl _, List.suffix_refl _⟩

theorem Extends.trans {u v w : World P} (h : u.Extends v) (k : v.Extends w) : u.Extends w :=
  ⟨k.tape.trans h.tape, h.drawn.trans k.drawn,
    fun c => (h.history c).trans (k.history c), h.derived.trans k.derived⟩

theorem Extends.mem {w w' : World P} (h : w.Extends w') {c : Cipher} {s : Sealing B}
    (hs : s ∈ w.history c) : s ∈ w'.history c :=
  (h.history c).subset hs

theorem extends_draw (w : World P) (p : Purpose) (n : ℕ) : w.Extends (w.draw p n) :=
  ⟨rfl, List.suffix_cons _ _, fun _ => List.suffix_refl _, List.suffix_refl _⟩

theorem extends_record (w : World P) {c : Cipher} {k n a m ct : List B}
    (h : (P.aead c).encrypt k n a m = some ct) : w.Extends (w.record c h) := by
  refine ⟨rfl, List.suffix_refl _, ?_, List.suffix_refl _⟩
  intro c'
  by_cases hc : c' = c
  · subst hc
    rw [record_history_self]
    exact List.suffix_cons _ _
  · rw [record_history_of_ne _ _ hc]

theorem extends_refuse (w : World P) (c : Cipher) (k n : List B) : w.Extends (w.refuse c k n) :=
  ⟨rfl, List.suffix_refl _, fun _ => List.suffix_refl _, List.suffix_refl _⟩

theorem extends_derive (w : World P) {ikm info okm : List B} {len : ℕ}
    (h : (P.hkdfExpand ikm info len).map List.Vector.toList = some okm) :
    w.Extends (w.derive h) :=
  ⟨rfl, List.suffix_refl _, fun _ => List.suffix_refl _, List.suffix_cons _ _⟩

/-- No two different HKDF inputs of the run gave the same output. -/
def CollisionFree (w : World P) : Prop :=
  ∀ d ∈ w.derived, ∀ e ∈ w.derived, d.okm ≠ [] → d.okm = e.okm → d.ikm = e.ikm ∧ d.info = e.info

theorem CollisionFree.of_extends {w w' : World P} (h : w.Extends w') (hw : w'.CollisionFree) :
    w.CollisionFree :=
  fun d hd e he => hw d (h.derived.subset hd) e (h.derived.subset he)

/-- No two draws of the run returned the same value. -/
def Fresh (w : World P) : Prop := (w.drawn.map Draw.bytes).Nodup

theorem Fresh.of_extends {w w' : World P} (h : w.Extends w') (hw : w'.Fresh) : w.Fresh :=
  hw.sublist (h.drawn.sublist.map _)

end World

/-- HKDF as an injective function of its inputs, at every nonempty length. -/
def Crates.HkdfInjective (P : Crates B) : Prop :=
  ∀ {i i' f f' : List B} {n n' : ℕ} {v : List.Vector B n} {v' : List.Vector B n'},
    P.hkdfExpand i f n = some v → P.hkdfExpand i' f' n' = some v' →
    v.toList ≠ [] → v.toList = v'.toList → i = i' ∧ f = f'

theorem Crates.HkdfInjective.collisionFree {P : Crates B} (h : P.HkdfInjective) (w : World P) :
    w.CollisionFree := by
  intro d hd e he hne heq
  obtain ⟨v, hv, hvd⟩ := Option.map_eq_some_iff.mp (w.derived_by_hkdf d hd)
  obtain ⟨v', hv', hve⟩ := Option.map_eq_some_iff.mp (w.derived_by_hkdf e he)
  exact h hv hv' (hvd ▸ hne) (by rw [hvd, hve, heq])

/-! ## Draws in order -/

/-- Every value drawn is the one at its place on the tape, and none is empty. -/
def World.InOrder {P : Crates B} (w : World P) : Prop :=
  ∀ d ds, d :: ds <:+ w.drawn → ∃ n, 0 < n ∧ d.bytes = (w.tape ds.length d.purpose n).toList

/-- A generator whose values at different places differ. -/
def NonRepeating (tape : ℕ → Purpose → (n : ℕ) → List.Vector B n) : Prop :=
  ∀ i j p q m n, 0 < m → (tape i p m).toList = (tape j q n).toList → i = j

namespace World.InOrder
variable {P : Crates B} {w : World P}

theorem init (tape : ℕ → Purpose → (n : ℕ) → List.Vector B n) : (World.init P tape).InOrder := by
  intro d ds h
  cases List.eq_nil_of_suffix_nil h

theorem draw (h : w.InOrder) (p : Purpose) {n : ℕ} (hn : 0 < n) : (w.draw p n).InOrder := by
  intro d ds hsuffix
  rcases List.suffix_cons_iff.mp hsuffix with heq | hsuffix
  · cases heq
    exact ⟨n, hn, rfl⟩
  · exact h d ds hsuffix

/-- On such a tape nothing is drawn twice. -/
theorem fresh (h : w.InOrder) (htape : NonRepeating w.tape) : w.Fresh := by
  suffices hall : ∀ ds, ds <:+ w.drawn → (ds.map Draw.bytes).Nodup from hall _ List.suffix_rfl
  intro ds
  induction ds with
  | nil => exact fun _ => List.nodup_nil
  | cons d ds ih =>
      intro hsuffix
      refine List.nodup_cons.mpr ⟨?_, ih ((List.suffix_cons d ds).trans hsuffix)⟩
      intro hmem
      obtain ⟨e, he, hbytes⟩ := List.mem_map.mp hmem
      obtain ⟨before, es, rfl⟩ := List.append_of_mem he
      obtain ⟨n, hn, hd⟩ := h d _ hsuffix
      obtain ⟨m, hm, he⟩ := h e es
        (((List.suffix_append before _).trans (List.suffix_cons d _)).trans hsuffix)
      have hplace := htape _ _ _ _ _ _ hm (he.symm.trans (hbytes.trans hd))
      rw [List.length_append, List.length_cons] at hplace
      omega

end World.InOrder

/-! ## The calls that touch the world -/

section Calls
variable {P : Crates B}

/-- `OsRng.fill_bytes` on an `n`-byte buffer. -/
def fillBytes (p : Purpose) (n : ℕ) : Prog P (List.Vector B n) :=
  ⟨fun w => (.ok (w.next p n), w.draw p n)⟩

/-- `cipher.encrypt(nonce, Payload { msg, aad })`. -/
def aeadEncrypt (c : Cipher) (key nonce aad msg : List B) : Prog P (Option (List B)) :=
  ⟨fun w =>
    match h : (P.aead c).encrypt key nonce aad msg with
    | some ct => (.ok (some ct), w.record c h)
    | none => (.ok none, w.refuse c key nonce)⟩

/-- `cipher.decrypt(nonce, Payload { msg, aad })`. -/
def aeadDecrypt (c : Cipher) (key nonce aad ct : List B) : Prog P (Option (List B)) :=
  Run.read fun w => (P.aead c).decrypt (w.history c).sealings key nonce aad ct

def hkdfExpand (ikm info : List B) (n : ℕ) : Prog P (Option (List.Vector B n)) :=
  ⟨fun w =>
    match h : P.hkdfExpand ikm info n with
    | some okm => (.ok (some okm), w.derive (congrArg (Option.map List.Vector.toList) h))
    | none => (.ok none, w)⟩

/-- `XChaCha20Poly1305::new_from_slice`: no cipher on a wrong key length. -/
def newFromSlice (key : List B) : Option (List.Vector B AEAD_KEY_LEN) :=
  tryIntoArray AEAD_KEY_LEN key

@[simp] theorem newFromSlice_toList (key : List.Vector B 32) :
    newFromSlice key.toList = some key :=
  tryIntoArray_toList key

theorem fillBytes_apply (p : Purpose) (n : ℕ) (w : World P) :
    fillBytes p n w = (.ok (w.next p n), w.draw p n) := rfl

theorem aeadDecrypt_apply (c : Cipher) (key nonce aad ct : List B) (w : World P) :
    aeadDecrypt c key nonce aad ct w =
      (.ok ((P.aead c).decrypt (w.history c).sealings key nonce aad ct), w) := rfl

theorem aeadEncrypt_of_some {c : Cipher} {key nonce aad msg ct : List B} (w : World P)
    (h : (P.aead c).encrypt key nonce aad msg = some ct) :
    aeadEncrypt c key nonce aad msg w =
      (.ok (some ct), w.record c h) := by
  unfold aeadEncrypt
  split
  · rename_i ct' h'
    obtain rfl : ct' = ct := Option.some.inj (h'.symm.trans h)
    rfl
  · rename_i h'
    simp [h] at h'

theorem aeadEncrypt_of_none {c : Cipher} {key nonce aad msg : List B} (w : World P)
    (h : (P.aead c).encrypt key nonce aad msg = none) :
    aeadEncrypt c key nonce aad msg w = (.ok none, w.refuse c key nonce) := by
  unfold aeadEncrypt
  split
  · rename_i h'
    simp [h] at h'
  · rfl

/-- The common end of the sealing operations: what is sealed is packed by `f`. -/
theorem seal_of_some {α : Type} {c : Cipher} {key nonce aad msg ct : List B} (e : CryptoError)
    (f : List B → α) (w : World P) (h : (P.aead c).encrypt key nonce aad msg = some ct) :
    (do
      let sealed ← aeadEncrypt c key nonce aad msg
      let ciphertext ← Run.lift (.okOr e sealed)
      pure (f ciphertext) : Prog P α) w = (.ok (f ct), w.record c h) := by
  rw [Run.bind_of_ok (aeadEncrypt_of_some w h)]
  rfl

theorem seal_of_none {α : Type} {c : Cipher} {key nonce aad msg : List B} (e : CryptoError)
    (f : List B → α) (w : World P) (h : (P.aead c).encrypt key nonce aad msg = none) :
    (do
      let sealed ← aeadEncrypt c key nonce aad msg
      let ciphertext ← Run.lift (.okOr e sealed)
      pure (f ciphertext) : Prog P α) w = (.err e, w.refuse c key nonce) := by
  rw [Run.bind_of_ok (aeadEncrypt_of_none w h)]
  rfl

theorem hkdfExpand_of_some {ikm info : List B} {n : ℕ} {okm : List.Vector B n} (w : World P)
    (h : P.hkdfExpand ikm info n = some okm) :
    hkdfExpand ikm info n w =
      (.ok (some okm), w.derive (congrArg (Option.map List.Vector.toList) h)) := by
  unfold hkdfExpand
  split
  · rename_i okm' h'
    obtain rfl : okm' = okm := Option.some.inj (h'.symm.trans h)
    rfl
  · rename_i h'
    simp [h] at h'

end Calls
end EvnxCrypto
