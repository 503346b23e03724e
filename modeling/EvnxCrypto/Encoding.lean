import EvnxCrypto.Codec
import EvnxCrypto.Errors

/-!
# Wire-format helpers

The base64 crate is a parameter, and so is the type of its texts, as the alphabet
of the byte strings is: the program only hands texts on. The error texts name
the field and the lengths, never the value.
-/
namespace EvnxCrypto
open Effect

variable {B T : Type} (base64 : Codec (List B) T)

def b64Encode (bytes : List B) : T := base64.encode bytes

def b64Decode (s : T) (what : String) : Result (List B) :=
  .okOr (.invalidInput s!"{what}: invalid base64") (base64.decode s)

def b64DecodeArray (N : ℕ) (s : T) (what : String) : Result (List.Vector B N) := do
  let bytes ← b64Decode base64 s what
  let got := bytes.length
  if got ≠ N then
    .err (.invalidInput s!"{what}: expected {N} bytes, got {got}")
  else
    copyFromSlice N bytes

/-- A decoder that answers malformed input with `invalidInput` and nothing else. -/
abbrev DecidesInput {α : Type} (x : Result α) (accepts : α → Prop) : Prop :=
  Decides CryptoError.IsInvalidInput x accepts

variable {base64}

theorem b64Decode_decides (h : base64.Strict) (s : T) (what : String) :
    DecidesInput (b64Decode base64 s what) fun bytes => s = b64Encode base64 bytes :=
  h.decides s ⟨_, rfl⟩

theorem copyFromSlice_decides {N : ℕ} {xs : List B} (h : xs.length = N) :
    DecidesInput (copyFromSlice N xs) fun v => xs = v.toList := by
  refine ⟨fun v => copyFromSlice_eq_ok, .inl ⟨asArray xs h, ?_⟩⟩
  exact copyFromSlice_of_length h

theorem b64DecodeArray_decides (h : base64.Strict) (N : ℕ) (s : T)
    (what : String) :
    DecidesInput (b64DecodeArray base64 N s what) fun v => s = b64Encode base64 v.toList := by
  have hcheck : ∀ bytes, s = b64Encode base64 bytes →
      DecidesInput (if bytes.length ≠ N then
          .err (.invalidInput s!"{what}: expected {N} bytes, got {bytes.length}")
        else copyFromSlice N bytes) fun v => ¬ bytes.length ≠ N ∧ bytes = v.toList := by
    intro bytes _
    apply Decides.guard ⟨_, rfl⟩
    intro hlen
    exact copyFromSlice_decides (not_not.mp hlen)
  apply ((b64Decode_decides h s what).bind hcheck).congr
  intro v
  constructor
  · intro hv
    obtain ⟨bytes, hs, _, rfl⟩ := hv
    exact hs
  · intro hs
    exact ⟨v.toList, hs, by simp, rfl⟩

end EvnxCrypto
