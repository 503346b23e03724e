import Mathlib.Algebra.Order.Ring.Nat
import Mathlib.Data.List.Induction
import Mathlib.Data.Vector.Basic
import Mathlib.Tactic.Common

/-!
# Strings over an alphabet that contains the octets

The alphabet is a parameter. At `UInt8` a string is an ordinary byte string; at
a larger alphabet it may also hold symbols for the individual bytes of values
nobody has computed. Everything that builds or splits a string by length alone
is the same program at every alphabet.
-/
namespace EvnxCrypto.ByteString

/-- An alphabet with a symbol for every literal octet. -/
class Byte (B : Type) where
  lit : UInt8 → B
  lit_injective : Function.Injective lit

instance : Byte UInt8 where
  lit := id
  lit_injective := Function.injective_id

variable {B : Type} [Byte B]

def lits (bs : List UInt8) : List B := bs.map Byte.lit

@[simp] theorem lits_length (bs : List UInt8) : (lits bs : List B).length = bs.length :=
  List.length_map _

theorem lits_injective : Function.Injective (lits : List UInt8 → List B) :=
  List.map_injective_iff.mpr Byte.lit_injective

theorem lits_octets (bs : List UInt8) : (lits bs : List UInt8) = bs := List.map_id bs

/-- The UTF-8 octets of a text, which for an ASCII literal are its characters. -/
def utf8 (s : String) : List UInt8 := s.toUTF8.data.toList

theorem utf8_injective : Function.Injective utf8 := by
  intro s t h
  apply String.toByteArray_inj.mp
  exact ByteArray.ext (Array.toList_inj.mp h)

/-- The text a string of octets spells in UTF-8. -/
def ofUtf8 (bs : List UInt8) : Option String := String.fromUTF8? ⟨bs.toArray⟩

theorem ofUtf8_eq_some {bs : List UInt8} {s : String} : ofUtf8 bs = some s ↔ bs = utf8 s := by
  have hbytes : utf8 s = bs ↔ s.toByteArray = ⟨bs.toArray⟩ := by
    constructor
    · rintro rfl
      rfl
    · intro h
      change s.toByteArray.data.toList = bs
      rw [h]
  rw [ofUtf8, String.fromUTF8?, eq_comm (a := bs), hbytes]
  constructor
  · intro h
    split at h
    · cases h
      rfl
    · cases h
  · intro h
    have hvalid : (⟨bs.toArray⟩ : ByteArray).IsValidUTF8 := h ▸ s.isValidUTF8
    rw [dif_pos hvalid, Option.some.injEq]
    exact String.toByteArray_inj.mp h.symm

/-- `s.as_bytes()`, and the byte string literal `b"…"`. -/
def asBytes (s : String) : List B := lits (utf8 s)

theorem asBytes_injective : Function.Injective (asBytes : String → List B) :=
  lits_injective.comp utf8_injective

@[simp] theorem asBytes_length (s : String) :
    (asBytes s : List B).length = (utf8 s).length := lits_length _

theorem asBytes_ne_nil {s : String} (hs : s ≠ "") : (asBytes s : List B) ≠ [] :=
  fun h => hs (asBytes_injective h)

/-- The low `n` octets of `x`, most significant first. -/
def bigEndian : ℕ → ℕ → List UInt8
  | 0, _ => []
  | n + 1, x => bigEndian n (x / 256) ++ [UInt8.ofNat x]

@[simp] theorem bigEndian_length (n x : ℕ) : (bigEndian n x).length = n := by
  induction n generalizing x with
  | zero => rfl
  | succ n ih => simp [bigEndian, ih]

theorem bigEndian_inj {n x y : ℕ} (hx : x < 256 ^ n) (hy : y < 256 ^ n)
    (h : bigEndian n x = bigEndian n y) : x = y := by
  induction n generalizing x y with
  | zero =>
      simp only [pow_zero] at hx hy
      omega
  | succ n ih =>
      have hlen : (bigEndian n (x / 256)).length = (bigEndian n (y / 256)).length := by simp
      obtain ⟨hhigh, hlow⟩ := List.append_inj h hlen
      have hq : x / 256 = y / 256 := by
        apply ih _ _ hhigh
        · rw [pow_succ] at hx
          omega
        · rw [pow_succ] at hy
          omega
      have hr : x % 256 = y % 256 := by
        have := congrArg UInt8.toNat (List.singleton_inj.mp hlow)
        simpa only [UInt8.toNat_ofNat'] using this
      omega

/-- The number a string of octets spells, most significant first. -/
def ofBigEndian (bs : List UInt8) : ℕ := bs.foldl (fun n b => 256 * n + b.toNat) 0

@[simp] theorem ofBigEndian_nil : ofBigEndian [] = 0 := rfl

theorem ofBigEndian_concat (bs : List UInt8) (b : UInt8) :
    ofBigEndian (bs ++ [b]) = 256 * ofBigEndian bs + b.toNat := by
  simp [ofBigEndian]

theorem ofBigEndian_bigEndian (n x : ℕ) : ofBigEndian (bigEndian n x) = x % 256 ^ n := by
  induction n generalizing x with
  | zero => simp [bigEndian, Nat.mod_one]
  | succ n ih =>
      have hdigit : (UInt8.ofNat x).toNat = x % 256 := UInt8.toNat_ofNat'
      rw [bigEndian, ofBigEndian_concat, ih, hdigit, pow_succ', Nat.mod_mul]
      omega

theorem ofBigEndian_lt (bs : List UInt8) : ofBigEndian bs < 256 ^ bs.length := by
  induction bs using List.reverseRecOn with
  | nil => simp
  | append_singleton bs b ih =>
      have hb := b.toNat_lt
      rw [ofBigEndian_concat, List.length_append, List.length_singleton, pow_succ]
      omega

theorem bigEndian_ofBigEndian (bs : List UInt8) : bigEndian bs.length (ofBigEndian bs) = bs := by
  induction bs using List.reverseRecOn with
  | nil => rfl
  | append_singleton bs b ih =>
      have hb := b.toNat_lt
      have hhigh : (256 * ofBigEndian bs + b.toNat) / 256 = ofBigEndian bs := by omega
      have hlow : UInt8.ofNat (256 * ofBigEndian bs + b.toNat) = b := by
        apply UInt8.toNat_inj.mp
        rw [UInt8.toNat_ofNat']
        omega
      rw [List.length_append, List.length_singleton, bigEndian, ofBigEndian_concat, hhigh, hlow,
        ih]

/-- At one length a string is determined by the number it spells. -/
theorem ofBigEndian_inj {bs cs : List UInt8} (hlen : bs.length = cs.length)
    (h : ofBigEndian bs = ofBigEndian cs) : bs = cs := by
  rw [← bigEndian_ofBigEndian bs, ← bigEndian_ofBigEndian cs, hlen, h]

/-- A string spells zero exactly when it holds nothing but zeros. -/
theorem ofBigEndian_eq_zero {bs : List UInt8} : ofBigEndian bs = 0 ↔ ∀ b ∈ bs, b = 0 := by
  induction bs using List.reverseRecOn with
  | nil => simp
  | append_singleton bs b ih =>
      have hb : b.toNat = 0 ↔ b = 0 := by rw [← UInt8.toNat_inj, UInt8.toNat_zero]
      rw [ofBigEndian_concat, Nat.add_eq_zero_iff, Nat.mul_eq_zero, ih, hb]
      simp [or_imp, forall_and]

/-! ## Concatenations split by length -/

section Split
variable {α : Type}

/-- Fixed-length ends pin down a variable-length middle. -/
theorem append_middle_inj {a a' m m' z z' : List α} (ha : a.length = a'.length)
    (hz : z.length = z'.length) (h : a ++ m ++ z = a' ++ m' ++ z') :
    a = a' ∧ m = m' ∧ z = z' := by
  obtain ⟨hleft, hzz⟩ := List.append_inj' h hz
  obtain ⟨haa, hmm⟩ := List.append_inj hleft ha
  exact ⟨haa, hmm, hzz⟩

theorem take_append_of_length {a b : List α} {n : ℕ} (h : a.length = n) :
    (a ++ b).take n = a := by
  subst h
  exact List.take_left

theorem drop_append_of_length {a b : List α} {n : ℕ} (h : a.length = n) :
    (a ++ b).drop n = b := by
  subst h
  exact List.drop_left

theorem toList_injective {n : ℕ} :
    Function.Injective (List.Vector.toList : List.Vector α n → List α) :=
  fun v w h => List.Vector.eq v w h

@[simp] theorem toList_inj {n : ℕ} {v w : List.Vector α n} : v.toList = w.toList ↔ v = w :=
  toList_injective.eq_iff

end Split
end EvnxCrypto.ByteString
