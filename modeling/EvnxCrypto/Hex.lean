import EvnxCrypto.Codec
import Mathlib.Tactic.NormNum

/-!
# Hexadecimal texts

Two digits an octet, written in lower case and read in either case. The codec
round-trips, and is not strict: an octet has more than one spelling.
-/
namespace EvnxCrypto.Hex

def digits : List Char := "0123456789abcdef".toList

def digit (n : ℕ) : Char := digits.getD n '0'

def value (c : Char) : Option ℕ := digits.idxOf? c.toLower

theorem value_digit {n : ℕ} (hn : n < 16) : value (digit n) = some n := by
  have hall : ∀ i : Fin 16, value (digit i) = some i.val := by decide +kernel
  exact hall ⟨n, hn⟩

def encodeChars : List UInt8 → List Char
  | [] => []
  | b :: rest => digit (b.toNat / 16) :: digit (b.toNat % 16) :: encodeChars rest

/-- A text of odd length is not read. -/
def decodeChars : List Char → Option (List UInt8)
  | [] => some []
  | [_] => none
  | p :: q :: rest => do
      let high ← value p
      let low ← value q
      let tail ← decodeChars rest
      some (UInt8.ofNat (16 * high + low) :: tail)

theorem decodeChars_encodeChars (bs : List UInt8) : decodeChars (encodeChars bs) = some bs := by
  induction bs with
  | nil => rfl
  | cons b rest ih =>
      have hb := b.toNat_lt
      have hhigh : value (digit (b.toNat / 16)) = some (b.toNat / 16) := value_digit (by omega)
      have hlow : value (digit (b.toNat % 16)) = some (b.toNat % 16) := value_digit (by omega)
      have hbyte : UInt8.ofNat (16 * (b.toNat / 16) + b.toNat % 16) = b := by
        rw [Nat.div_add_mod, UInt8.ofNat_toNat]
      simp only [encodeChars, decodeChars, hhigh, hlow, ih, hbyte, Option.bind_eq_bind,
        Option.bind_some]

/-- The codec between octets and text. -/
def codec : Codec (List UInt8) String where
  encode bs := String.ofList (encodeChars bs)
  decode t := decodeChars t.toList

theorem codec_roundTrips : codec.RoundTrips := by
  intro bs
  change decodeChars (String.ofList (encodeChars bs)).toList = some bs
  rw [String.toList_ofList, decodeChars_encodeChars]

example : codec.decode "00fF" = some [0x00, 0xff] := by decide +kernel

end EvnxCrypto.Hex
