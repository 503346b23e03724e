import EvnxCrypto.Base64
import EvnxCrypto.Crates
import EvnxCrypto.Symbolic
import Mathlib.Data.Multiset.Basic
import Mathlib.Data.Multiset.AddSub

/-!
# The crates over symbolic bytes

Every primitive is a free function here, with two equations: sealing and opening
cancel, and the scalars applied to a curve point commute. A curve point is its
base together with the bag of scalars it has been multiplied by, so a shared
secret can again be used as a point. Decapsulation under the wrong key returns a
value of its own instead of failing.

This is a model of what the program assumes of the real crates. Programs run
over it unchanged.
-/
namespace EvnxCrypto
open Effect ByteString AuthenticatedEncryption Symbolic

/-- The free functions. -/
inductive Fn where
  | aes256Gcm
  | xchacha20Poly1305
  | hkdf
  | argon2id
  | blake3
  | ed25519
  | point
  | encapsulationKey
  | encapsulation
  | sharedSecret
  | rejection
  | srpVerifier
  deriving DecidableEq

/-- The unguessable values: draws of the generator, passwords, plaintexts. -/
inductive Atom where
  | draw (purpose : Purpose) (i : ℕ)
  | password (i : ℕ)
  | plaintext (i : ℕ)
  deriving DecidableEq

abbrev SByte : Type := SymByte Fn Atom
abbrev SString : Type := List SByte

noncomputable section
open Classical

/-- A free cipher: what was sealed opens, and nothing else does. -/
def symbolicAead (f : Fn) : Aead SByte where
  fits := fun _ _ => true
  encrypt k n a m := some (out f [k, n, a, m] (m.length + TAG_LEN)).toList
  decrypt _ k n a c :=
    if h : ∃ m, c = (out f [k, n, a, m] (m.length + TAG_LEN)).toList then some h.choose else none
  encrypt_isSome := by simp
  encrypt_length := by
    intro k n a m c h
    rw [← Option.some.inj h]
    simp

theorem sealed_inj {f : Fn} {k n a m k' n' a' m' : SString}
    (h : (out f [k, n, a, m] (m.length + TAG_LEN)).toList =
      (out f [k', n', a', m'] (m'.length + TAG_LEN)).toList) :
    k = k' ∧ n = n' ∧ a = a' ∧ m = m' := by
  have hargs := (out_inj (by simp [TAG_LEN]) h).2.1
  simpa only [List.cons.injEq, and_true] using hargs

theorem symbolicAead_decrypt_eq_some {f : Fn} {H : List (Sealing SByte)} {k n a c m : SString} :
    (symbolicAead f).decrypt H k n a c = some m ↔ (symbolicAead f).encrypt k n a m = some c := by
  change (if h : _ then _ else _) = some m ↔ some _ = some c
  constructor
  · intro h
    split at h
    · rename_i hex
      rw [← Option.some.inj h]
      exact congrArg some hex.choose_spec.symm
    · cases h
  · intro h
    have hex : ∃ m, c = (out f [k, n, a, m] (m.length + TAG_LEN)).toList :=
      ⟨m, (Option.some.inj h).symm⟩
    rw [dif_pos hex]
    have hm := sealed_inj (hex.choose_spec.symm.trans (Option.some.inj h).symm)
    rw [hm.2.2.2]

theorem symbolicAead_correct (f : Fn) : (symbolicAead f).Correct :=
  fun H s hs => symbolicAead_decrypt_eq_some.mpr (H.genuine s hs)

/-- The ideal functionality of the free cipher. -/
theorem symbolicAead_ledger_ideal (f : Fn) : (symbolicAead f).ledger.Ideal := by
  apply Aead.ledger_ideal
  intro k n a m m' c h h'
  exact (sealed_inj (Option.some.inj (h.trans h'.symm))).2.2.2

/-- The curve's base point, as an encoding. -/
def basePoint : SString := lits (9 :: List.replicate 31 0)

/-- A scalar times a point. A string that encodes no point is a base of its own. -/
def scalarMul (a P : SString) : List.Vector SByte 32 :=
  if h : ∃ q : SString × List SString, P = (out .point (q.1 :: q.2) 32).toList then
    out .point (h.choose.1 :: (a ::ₘ (h.choose.2 : Multiset SString)).toList) 32
  else out .point [P, a] 32

theorem scalarMul_point (a base : SString) (ss : List SString) :
    scalarMul a (out .point (base :: ss) 32).toList =
      out .point (base :: (a ::ₘ (ss : Multiset SString)).toList) 32 := by
  have hex : ∃ q : SString × List SString, (out Fn.point (base :: ss) 32).toList =
      (out .point (q.1 :: q.2) 32).toList := ⟨(base, ss), rfl⟩
  have hq := (out_inj (by simp) hex.choose_spec).2.1
  rw [List.cons.injEq] at hq
  rw [scalarMul, dif_pos hex, ← hq.1, ← hq.2]

theorem scalarMul_base (a : SString) : scalarMul a basePoint = out .point [basePoint, a] 32 := by
  rw [scalarMul, dif_neg]
  intro h
  rcases h with ⟨q, hq⟩
  exact out_ne_lits (by simp) _ hq.symm

/-- Scalar multiplications commute. -/
theorem scalarMul_comm (a b : SString) :
    scalarMul a (scalarMul b basePoint).toList = scalarMul b (scalarMul a basePoint).toList := by
  rw [scalarMul_base, scalarMul_base, scalarMul_point, scalarMul_point]
  congr 3
  exact Multiset.cons_swap a b 0

def symbolicEncapsulationKey (dk : DecapsulationKey768 SByte) : List.Vector SByte 1184 :=
  out .encapsulationKey [dk.encoding] 1184

/-- The shared secret where the ciphertext was made for this key, and otherwise
the implicit rejection of FIPS 203. -/
def symbolicDecapsulate (dk : DecapsulationKey768 SByte) (ct : SString) : List.Vector SByte 32 :=
  if h : ∃ m, ct = (out .encapsulation [(symbolicEncapsulationKey dk).toList, m] 1088).toList then
    out .sharedSecret [(symbolicEncapsulationKey dk).toList, h.choose] 32
  else out .rejection [dk.encoding, ct] 32

/-- The crates over symbolic bytes, for a choice of the two ciphers. -/
def symbolicCratesWith (aead : Cipher → Aead SByte) : Crates SByte where
  aead := aead
  hkdfExpand ikm info n := if n ≤ 255 * 32 then some (out .hkdf [ikm, info] n) else none
  hkdfExpand_isSome := by
    intro ikm info n hn
    rw [if_pos hn]
    rfl
  argon2id _ _ _ secret password salt n := .ok (out .argon2id [secret, password, salt] n)
  blake3Hash x := out .blake3 [x] 32
  ed25519VerifyingKey seed := out .ed25519 [seed.toList] 32
  x25519StaticSecret := id
  x25519StaticSecret_idem _ := rfl
  x25519PublicKey a := scalarMul a.toList basePoint
  diffieHellman a P := scalarMul a.toList P.toList
  wasContributory ss := decide (ss.toList ≠ lits (List.replicate 32 0))
  mlkemFromSeed seed := ⟨seed.toList⟩
  mlkemEncapsulationKey := symbolicEncapsulationKey
  mlkemKeyIsValid _ := true
  encapsulateDeterministic ek m :=
    (out .encapsulation [ek.toList, m.toList] 1088, out .sharedSecret [ek.toList, m.toList] 32)
  decapsulateSlice dk ct := if ct.length = 1088 then some (symbolicDecapsulate dk ct) else none
  srpComputeVerifier username password salt :=
    (out .srpVerifier [username, password, salt] 256).toList

def cipherFn : Cipher → Fn
  | .aes256Gcm => .aes256Gcm
  | .xchacha20Poly1305 => .xchacha20Poly1305

/-- The free ciphers: anyone who knows a key may seal and open with it. -/
def symbolicCrates : Crates SByte := symbolicCratesWith fun c => symbolicAead (cipherFn c)

/-- The ideal ciphers: only what is on record opens. -/
def idealCrates : Crates SByte := symbolicCratesWith fun c => (symbolicAead (cipherFn c)).ledger

/-- A generator that never repeats a value. -/
def symbolicTape (i : ℕ) (p : Purpose) (n : ℕ) : List.Vector SByte n := atoms (.draw p i) n

/-- Literal bytes are written in base64, and a string that holds a symbol as itself. -/
def symbolicBase64 : Codec SString (String ⊕ SString) where
  encode xs := if h : ∃ bs, xs = lits bs then .inl (Base64.codec.encode h.choose) else .inr xs
  decode
    | .inl t => (Base64.codec.decode t).map lits
    | .inr xs => if ∃ bs, xs = lits bs then none else some xs

theorem symbolicBase64_encode_lits (bs : List UInt8) :
    symbolicBase64.encode (lits bs) = .inl (Base64.codec.encode bs) := by
  have hex : ∃ cs, (lits bs : SString) = lits cs := ⟨bs, rfl⟩
  have hbs : hex.choose = bs := (lits_injective hex.choose_spec).symm
  change (if h : _ then _ else _) = _
  rw [dif_pos hex, hbs]

theorem symbolicBase64_strict : symbolicBase64.Strict := by
  intro t xs
  by_cases hex : ∃ bs, xs = lits bs
  · rcases hex with ⟨bs, rfl⟩
    rw [symbolicBase64_encode_lits]
    cases t with
    | inl t =>
        change (Base64.codec.decode t).map lits = some (lits bs) ↔ _
        rw [Sum.inl.injEq, ← Base64.codec_strict t bs, Option.map_eq_some_iff]
        constructor
        · intro h
          rcases h with ⟨cs, hcs, heq⟩
          rw [hcs, lits_injective heq]
        · intro h
          exact ⟨bs, h, rfl⟩
    | inr ys =>
        change (if ∃ cs, ys = lits cs then none else some ys) = some (lits bs) ↔ _
        simp only [reduceCtorEq, iff_false]
        intro h
        split at h
        · cases h
        · rename_i hne
          exact hne ⟨bs, Option.some.inj h⟩
  · have henc : symbolicBase64.encode xs = .inr xs := dif_neg hex
    rw [henc]
    cases t with
    | inl t =>
        change (Base64.codec.decode t).map lits = some xs ↔ _
        simp only [Option.map_eq_some_iff, reduceCtorEq, iff_false]
        intro h
        rcases h with ⟨bs, -, rfl⟩
        exact hex ⟨bs, rfl⟩
    | inr ys =>
        change (if ∃ cs, ys = lits cs then none else some ys) = some xs ↔ _
        rw [Sum.inr.injEq]
        constructor
        · intro h
          split at h
          · cases h
          · exact Option.some.inj h
        · intro h
          subst h
          exact if_neg hex

end

/-- The symbolic generator does not repeat itself. -/
theorem symbolicTape_nodup (draws : List (ℕ × Purpose × ℕ)) (hpos : ∀ x ∈ draws, 0 < x.2.2)
    (hnodup : (draws.map Prod.fst).Nodup) :
    (draws.map fun x => (symbolicTape x.1 x.2.1 x.2.2).toList).Nodup := by
  apply List.Nodup.map_on _ (List.Nodup.of_map _ hnodup)
  intro x hx y hy h
  have hatom := (atoms_inj (hpos x hx) h).1
  apply List.inj_on_of_nodup_map hnodup hx hy
  exact (Atom.draw.inj hatom).2

theorem symbolicTape_nonRepeating : NonRepeating symbolicTape := by
  intro i j p q k n hk h
  exact (Atom.draw.inj (atoms_inj hk h).1).2

/-- Worlds on the symbolic tape that are about to draw the same have drawn as often. -/
theorem length_drawn_of_next_eq {P : Crates SByte} (w w' : World P) (hw : w.tape = symbolicTape)
    (hw' : w'.tape = symbolicTape) {p q : Purpose} {n m : ℕ} (hn : 0 < n)
    (h : (w.next p n).toList = (w'.next q m).toList) : w.drawn.length = w'.drawn.length := by
  unfold World.next at h
  rw [hw, hw'] at h
  exact symbolicTape_nonRepeating _ _ _ _ _ _ hn h

theorem idealCrates_ideal (c : Cipher) : (idealCrates.aead c).Ideal :=
  symbolicAead_ledger_ideal (cipherFn c)

theorem symbolicCratesWith_hkdfInjective (aead : Cipher → Aead SByte) :
    (symbolicCratesWith aead).HkdfInjective := by
  intro i i' f f' n n' v v' hv hv' hne heq
  change (if n ≤ 255 * 32 then some (out .hkdf [i, f] n) else none) = some v at hv
  change (if n' ≤ 255 * 32 then some (out .hkdf [i', f'] n') else none) = some v' at hv'
  split at hv
  · split at hv'
    · have hn : 0 < n := by
        rw [← v.toList_length]
        exact List.length_pos_of_ne_nil hne
      rw [← Option.some.inj hv, ← Option.some.inj hv'] at heq
      have hargs := (out_inj hn heq).2.1
      simpa only [List.cons.injEq, and_true] using hargs
    · cases hv'
  · cases hv

theorem symbolicDecapsulate_encapsulation (dk : DecapsulationKey768 SByte) (m : SString) :
    symbolicDecapsulate dk
        (out .encapsulation [(symbolicEncapsulationKey dk).toList, m] 1088).toList =
      out .sharedSecret [(symbolicEncapsulationKey dk).toList, m] 32 := by
  have hex : ∃ m', (out Fn.encapsulation [(symbolicEncapsulationKey dk).toList, m] 1088).toList =
      (out .encapsulation [(symbolicEncapsulationKey dk).toList, m'] 1088).toList := ⟨m, rfl⟩
  have hargs := (out_inj (by simp) hex.choose_spec).2.1
  simp only [List.cons.injEq, and_true, true_and] at hargs
  rw [symbolicDecapsulate, dif_pos hex, ← hargs]

end EvnxCrypto
