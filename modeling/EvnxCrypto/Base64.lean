import EvnxCrypto.Codec
import Mathlib.Data.List.Nodup
import Mathlib.Tactic.NormNum

/-!
# Padded base64 as in RFC 4648

Three octets become four digits of six bits. The decoder accepts padding only in
the last group, and there only where the unused bits are zero. It is therefore
strict: no text is read that the encoder would not have written.
-/
namespace EvnxCrypto.Base64

def alphabet : List Char :=
  "ABCDEFGHIJKLMNOPQRSTUVWXYZabcdefghijklmnopqrstuvwxyz0123456789+/".toList

def digit (n : ℕ) : Char := alphabet.getD n '='

def value (c : Char) : Option ℕ := alphabet.idxOf? c

theorem value_digit {n : ℕ} (hn : n < 64) : value (digit n) = some n := by
  have hall : ∀ i : Fin 64, value (digit i) = some i.val := by decide +kernel
  exact hall ⟨n, hn⟩

theorem digit_ne_pad {n : ℕ} (hn : n < 64) : digit n ≠ '=' := by
  have hall : ∀ i : Fin 64, digit i ≠ '=' := by decide +kernel
  exact hall ⟨n, hn⟩

theorem value_eq_some {c : Char} {n : ℕ} (h : value c = some n) : n < 64 ∧ c = digit n := by
  obtain ⟨hn, hc, -⟩ := List.idxOf?_eq_some_iff.mp h
  refine ⟨hn, ?_⟩
  rw [digit, List.getD_eq_getElem?_getD, List.getElem?_eq_getElem hn]
  exact hc.symm

def encodeChars : List UInt8 → List Char
  | [] => []
  | [a] => [digit (a.toNat / 4), digit (a.toNat % 4 * 16), '=', '=']
  | [a, b] =>
      [digit (a.toNat / 4), digit (a.toNat % 4 * 16 + b.toNat / 16),
        digit (b.toNat % 16 * 4), '=']
  | a :: b :: c :: rest =>
      digit (a.toNat / 4) :: digit (a.toNat % 4 * 16 + b.toNat / 16) ::
        digit (b.toNat % 16 * 4 + c.toNat / 64) :: digit (c.toNat % 64) :: encodeChars rest

/-- One octet from the last two digits before `==`. -/
def decodeOne (p q : Char) : Option (List UInt8) := do
  let w ← value p
  let x ← value q
  if x % 16 = 0 then some [UInt8.ofNat (w * 4 + x / 16)] else none

/-- Two octets from the last three digits before `=`. -/
def decodeTwo (p q r : Char) : Option (List UInt8) := do
  let w ← value p
  let x ← value q
  let y ← value r
  if y % 4 = 0 then
    some [UInt8.ofNat (w * 4 + x / 16), UInt8.ofNat (x % 16 * 16 + y / 4)]
  else none

def decodeThree (p q r s : Char) : Option (List UInt8) := do
  let w ← value p
  let x ← value q
  let y ← value r
  let z ← value s
  some [UInt8.ofNat (w * 4 + x / 16), UInt8.ofNat (x % 16 * 16 + y / 4),
    UInt8.ofNat (y % 4 * 64 + z)]

def decodeChars : List Char → Option (List UInt8)
  | [] => some []
  | p :: q :: r :: s :: rest =>
      if s = '=' then
        if rest ≠ [] then none
        else if r = '=' then decodeOne p q
        else decodeTwo p q r
      else do
        let group ← decodeThree p q r s
        let tail ← decodeChars rest
        some (group ++ tail)
  | _ => none

theorem ofNat_eq {n : ℕ} {a : UInt8} (h : n = a.toNat) : UInt8.ofNat n = a := by
  rw [h, UInt8.ofNat_toNat]

theorem decodeOne_digits (a : UInt8) :
    decodeOne (digit (a.toNat / 4)) (digit (a.toNat % 4 * 16)) = some [a] := by
  have ha : a.toNat < 256 := a.toNat_lt
  unfold decodeOne
  rw [value_digit (by omega), value_digit (by omega)]
  have hzero : a.toNat % 4 * 16 % 16 = 0 := by omega
  have hbyte : UInt8.ofNat (a.toNat / 4 * 4 + a.toNat % 4 * 16 / 16) = a := ofNat_eq (by omega)
  simp only [Option.bind_eq_bind, Option.bind_some, hzero, if_true, hbyte]

theorem decodeTwo_digits (a b : UInt8) :
    decodeTwo (digit (a.toNat / 4)) (digit (a.toNat % 4 * 16 + b.toNat / 16))
      (digit (b.toNat % 16 * 4)) = some [a, b] := by
  have ha : a.toNat < 256 := a.toNat_lt
  have hb : b.toNat < 256 := b.toNat_lt
  unfold decodeTwo
  rw [value_digit (by omega), value_digit (by omega), value_digit (by omega)]
  have hzero : b.toNat % 16 * 4 % 4 = 0 := by omega
  have hfirst : UInt8.ofNat (a.toNat / 4 * 4 + (a.toNat % 4 * 16 + b.toNat / 16) / 16) = a :=
    ofNat_eq (by omega)
  have hsecond : UInt8.ofNat ((a.toNat % 4 * 16 + b.toNat / 16) % 16 * 16 +
      b.toNat % 16 * 4 / 4) = b := ofNat_eq (by omega)
  simp only [Option.bind_eq_bind, Option.bind_some, hzero, if_true, hfirst, hsecond]

theorem decodeThree_digits (a b c : UInt8) :
    decodeThree (digit (a.toNat / 4)) (digit (a.toNat % 4 * 16 + b.toNat / 16))
      (digit (b.toNat % 16 * 4 + c.toNat / 64)) (digit (c.toNat % 64)) = some [a, b, c] := by
  have ha : a.toNat < 256 := a.toNat_lt
  have hb : b.toNat < 256 := b.toNat_lt
  have hc : c.toNat < 256 := c.toNat_lt
  unfold decodeThree
  rw [value_digit (by omega), value_digit (by omega), value_digit (by omega),
    value_digit (by omega)]
  have hfirst : UInt8.ofNat (a.toNat / 4 * 4 + (a.toNat % 4 * 16 + b.toNat / 16) / 16) = a :=
    ofNat_eq (by omega)
  have hsecond : UInt8.ofNat ((a.toNat % 4 * 16 + b.toNat / 16) % 16 * 16 +
      (b.toNat % 16 * 4 + c.toNat / 64) / 4) = b := ofNat_eq (by omega)
  have hthird : UInt8.ofNat ((b.toNat % 16 * 4 + c.toNat / 64) % 4 * 64 + c.toNat % 64) = c :=
    ofNat_eq (by omega)
  simp only [Option.bind_eq_bind, Option.bind_some, hfirst, hsecond, hthird]

theorem decodeChars_encodeChars (bs : List UInt8) : decodeChars (encodeChars bs) = some bs := by
  induction bs using encodeChars.induct with
  | case1 => rfl
  | case2 a =>
      rw [encodeChars, decodeChars, if_pos rfl, if_neg (not_not.mpr rfl), if_pos rfl]
      exact decodeOne_digits a
  | case3 a b =>
      have hpad : digit (b.toNat % 16 * 4) ≠ '=' := digit_ne_pad (by omega)
      rw [encodeChars, decodeChars, if_pos rfl, if_neg (not_not.mpr rfl), if_neg hpad]
      exact decodeTwo_digits a b
  | case4 a b c rest ih =>
      have hpad : digit (c.toNat % 64) ≠ '=' := digit_ne_pad (by omega)
      rw [encodeChars, decodeChars, if_neg hpad, decodeThree_digits, ih]
      rfl

theorem decodeOne_sound {p q : Char} {bs : List UInt8} (h : decodeOne p q = some bs) :
    [p, q, '=', '='] = encodeChars bs := by
  unfold decodeOne at h
  simp only [Option.bind_eq_bind, Option.bind_eq_some_iff] at h
  obtain ⟨w, hw, x, hx, h⟩ := h
  obtain ⟨hw64, rfl⟩ := value_eq_some hw
  obtain ⟨hx64, rfl⟩ := value_eq_some hx
  split at h
  · rename_i hzero
    rw [← Option.some.inj h, encodeChars, UInt8.toNat_ofNat_of_lt' (by norm_num; omega)]
    congr 3 <;> omega
  · cases h

theorem decodeTwo_sound {p q r : Char} {bs : List UInt8} (h : decodeTwo p q r = some bs) :
    [p, q, r, '='] = encodeChars bs := by
  unfold decodeTwo at h
  simp only [Option.bind_eq_bind, Option.bind_eq_some_iff] at h
  obtain ⟨w, hw, x, hx, y, hy, h⟩ := h
  obtain ⟨hw64, rfl⟩ := value_eq_some hw
  obtain ⟨hx64, rfl⟩ := value_eq_some hx
  obtain ⟨hy64, rfl⟩ := value_eq_some hy
  split at h
  · rename_i hzero
    rw [← Option.some.inj h, encodeChars, UInt8.toNat_ofNat_of_lt' (by norm_num; omega),
      UInt8.toNat_ofNat_of_lt' (by norm_num; omega)]
    congr 4 <;> omega
  · cases h

theorem decodeThree_sound {p q r s : Char} {bs : List UInt8}
    (h : decodeThree p q r s = some bs) (rest : List UInt8) :
    p :: q :: r :: s :: encodeChars rest = encodeChars (bs ++ rest) := by
  unfold decodeThree at h
  simp only [Option.bind_eq_bind, Option.bind_eq_some_iff] at h
  obtain ⟨w, hw, x, hx, y, hy, z, hz, h⟩ := h
  obtain ⟨hw64, rfl⟩ := value_eq_some hw
  obtain ⟨hx64, rfl⟩ := value_eq_some hx
  obtain ⟨hy64, rfl⟩ := value_eq_some hy
  obtain ⟨hz64, rfl⟩ := value_eq_some hz
  rw [← Option.some.inj h]
  simp only [List.cons_append, List.nil_append, encodeChars]
  rw [UInt8.toNat_ofNat_of_lt' (by norm_num; omega), UInt8.toNat_ofNat_of_lt' (by norm_num; omega),
    UInt8.toNat_ofNat_of_lt' (by norm_num; omega)]
  congr 5 <;> omega

theorem decodeChars_sound {cs : List Char} {bs : List UInt8} (h : decodeChars cs = some bs) :
    cs = encodeChars bs := by
  induction cs using decodeChars.induct generalizing bs with
  | case1 =>
      cases h
      rfl
  | case2 p q r rest hrest =>
      rw [decodeChars, if_pos rfl, if_pos hrest] at h
      cases h
  | case3 p q rest hrest =>
      obtain rfl : rest = [] := not_not.mp hrest
      rw [decodeChars, if_pos rfl, if_neg hrest, if_pos rfl] at h
      exact decodeOne_sound h
  | case4 p q r rest hrest hr =>
      obtain rfl : rest = [] := not_not.mp hrest
      rw [decodeChars, if_pos rfl, if_neg hrest, if_neg hr] at h
      exact decodeTwo_sound h
  | case5 p q r s rest hs ih =>
      rw [decodeChars, if_neg hs] at h
      simp only [Option.bind_eq_bind, Option.bind_eq_some_iff] at h
      obtain ⟨group, hgroup, tail, htail, h⟩ := h
      rw [← Option.some.inj h, ih htail]
      exact decodeThree_sound hgroup tail
  | case6 cs hnil hfour =>
      unfold decodeChars at h
      split at h
      · exact (hnil rfl).elim
      · exact (hfour _ _ _ _ _ rfl).elim
      · cases h

/-- The codec between octets and text. -/
def codec : Codec (List UInt8) String where
  encode bs := String.ofList (encodeChars bs)
  decode t := decodeChars t.toList

theorem codec_strict : codec.Strict := by
  intro t bs
  constructor
  · intro h
    change t = String.ofList (encodeChars bs)
    rw [← decodeChars_sound h, String.ofList_toList]
  · intro h
    subst h
    change decodeChars (String.ofList (encodeChars bs)).toList = some bs
    rw [String.toList_ofList, decodeChars_encodeChars]

example : codec.encode [0x66, 0x6f, 0x6f, 0x62] = "Zm9vYg==" := by decide +kernel
example : codec.decode "Zm9vYh==" = none := by decide +kernel

end EvnxCrypto.Base64
