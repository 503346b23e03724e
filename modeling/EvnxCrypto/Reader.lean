import EvnxCrypto.ByteString

/-!
# Readers of self-delimiting formats

A reader takes a value off the front of a string and leaves the rest. A format
says which strings encode which values. A reader reads a format when it accepts
exactly the encodings and never looks past them, and this composes field by
field. A format that has a reader is self-delimiting: no encoding is a proper
prefix of another.
-/
namespace EvnxCrypto
open ByteString

variable {α β γ : Type}

abbrev Reader (α β : Type) : Type := StateT (List α) Option β

namespace Reader

def Reads (r : Reader α β) (format : β → List α → Prop) : Prop :=
  ∀ xs b rest, r.run xs = some (b, rest) ↔ ∃ enc, format b enc ∧ xs = enc ++ rest

/-- The fixed string `tag`. -/
def literal [DecidableEq α] (tag : List α) : Reader α Unit := fun xs =>
  if xs.take tag.length = tag then some ((), xs.drop tag.length) else none

/-- Any `n` symbols. -/
def exactly (n : ℕ) : Reader α (List α) := fun xs =>
  if n ≤ xs.length then some (xs.take n, xs.drop n) else none

/-- An unsigned number of `n` octets. -/
def uint (n : ℕ) : Reader UInt8 ℕ := do
  let bs ← exactly n
  pure (ofBigEndian bs)

/-- A value decided by what has been read already. -/
def check (x : Option β) : Reader α β := StateT.lift x

/-- A whole string as one value, with nothing left over. -/
def whole (r : Reader α β) (xs : List α) : Option β :=
  match r.run xs with
  | some (b, []) => some b
  | _ => none

namespace Reads
variable {r : Reader α β} {format format' : β → List α → Prop}

theorem congr (h : Reads r format) (hiff : ∀ b enc, format b enc ↔ format' b enc) :
    Reads r format' := by
  intro xs b rest
  rw [h xs b rest]
  simp only [hiff]

theorem literal [DecidableEq α] (tag : List α) :
    Reads (Reader.literal tag) fun _ enc => enc = tag := by
  intro xs b rest
  simp only [Reader.literal, StateT.run, exists_eq_left]
  constructor
  · intro h
    split at h
    · rename_i htake
      cases h
      conv_lhs => rw [← List.take_append_drop tag.length xs, htake]
    · cases h
  · rintro rfl
    simp

theorem exactly (n : ℕ) :
    Reads (Reader.exactly n : Reader α _) fun bs enc => bs.length = n ∧ enc = bs := by
  intro xs bs rest
  simp only [Reader.exactly, StateT.run]
  constructor
  · intro h
    split at h
    · rename_i hle
      cases h
      exact ⟨xs.take n, ⟨by simp [hle], rfl⟩, (List.take_append_drop n xs).symm⟩
    · cases h
  · rintro ⟨enc, ⟨rfl, rfl⟩, rfl⟩
    simp

theorem check (x : Option β) :
    Reads (Reader.check x : Reader α β) fun b enc => x = some b ∧ enc = [] := by
  intro xs b rest
  cases x with
  | none => simp [Reader.check]
  | some a =>
      simp only [Reader.check, StateT.run_lift, Option.bind_eq_bind, Option.bind_some,
        Option.pure_def, Option.some.injEq, Prod.mk.injEq]
      constructor
      · rintro ⟨rfl, rfl⟩
        exact ⟨[], ⟨rfl, rfl⟩, rfl⟩
      · rintro ⟨enc, ⟨rfl, rfl⟩, rfl⟩
        exact ⟨rfl, rfl⟩

theorem pure (b : β) : Reads (pure b : Reader α β) fun b' enc => b = b' ∧ enc = [] :=
  (check (some b)).congr fun b' enc => by rw [Option.some.injEq]

/-- Two fields in sequence. -/
theorem bind {f : β → Reader α γ} {next : β → γ → List α → Prop} (h : Reads r format)
    (hf : ∀ b, Reads (f b) (next b)) :
    Reads (r >>= f) fun c enc =>
      ∃ b front back, format b front ∧ next b c back ∧ enc = front ++ back := by
  intro xs c rest
  simp only [StateT.run_bind, Option.bind_eq_bind, Option.bind_eq_some_iff, Prod.exists]
  constructor
  · rintro ⟨b, mid, hr, hfb⟩
    obtain ⟨front, hfront, rfl⟩ := (h _ _ _).mp hr
    obtain ⟨back, hback, rfl⟩ := (hf _ _ _ _).mp hfb
    exact ⟨front ++ back, ⟨b, front, back, hfront, hback, rfl⟩, by simp⟩
  · rintro ⟨enc, ⟨b, front, back, hfront, hback, rfl⟩, rfl⟩
    refine ⟨b, back ++ rest, (h _ _ _).mpr ⟨front, hfront, by simp⟩, ?_⟩
    exact (hf _ _ _ _).mpr ⟨back, hback, rfl⟩

theorem uint (n : ℕ) : Reads (Reader.uint n) fun v enc => v < 256 ^ n ∧ enc = bigEndian n v := by
  refine ((exactly n).bind fun bs => pure (ofBigEndian bs)).congr ?_
  intro v enc
  constructor
  · rintro ⟨bs, front, back, ⟨rfl, rfl⟩, ⟨rfl, rfl⟩, rfl⟩
    exact ⟨ofBigEndian_lt _, by rw [List.append_nil, bigEndian_ofBigEndian]⟩
  · rintro ⟨hv, rfl⟩
    refine ⟨bigEndian n v, bigEndian n v, [], ⟨bigEndian_length n v, rfl⟩, ⟨?_, rfl⟩, by simp⟩
    rw [ofBigEndian_bigEndian, Nat.mod_eq_of_lt hv]

theorem whole_eq_some (h : Reads r format) {xs : List α} {b : β} :
    r.whole xs = some b ↔ format b xs := by
  have hread := h xs b []
  simp only [List.append_nil, exists_eq_right'] at hread
  rw [← hread, Reader.whole]
  constructor
  · intro hw
    split at hw
    · rename_i heq
      cases hw
      exact heq
    · cases hw
  · intro heq
    rw [heq]

/-- A format that can be read is self-delimiting. -/
theorem prefix_eq (h : Reads r format) {b b' : β} {enc enc' : List α} (hb : format b enc)
    (hb' : format b' enc') (hstart : enc <+: enc') : b = b' := by
  rcases hstart with ⟨rest, rfl⟩
  have hread : r.run (enc ++ rest) = some (b, rest) := (h _ _ _).mpr ⟨enc, hb, rfl⟩
  have hread' : r.run (enc ++ rest) = some (b', []) :=
    (h _ _ _).mpr ⟨enc ++ rest, hb', (List.append_nil _).symm⟩
  rw [hread] at hread'
  cases hread'
  rfl

end Reads
end Reader
end EvnxCrypto
