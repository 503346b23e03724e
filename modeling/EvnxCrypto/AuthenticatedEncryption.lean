import Mathlib.Data.List.Basic
import Mathlib.Tactic.Common

/-!
# Authenticated encryption with associated data

A cipher is judged against the record of what has been sealed with it. Sealing
is a function of key, nonce, associated data and message, and succeeds or fails
by lengths alone. Opening may consult the record: an ordinary cipher ignores it,
the ideal one answers from it and from nothing else. Both are instances of one
interface, so a program written over the interface runs under either.
-/
namespace EvnxCrypto.AuthenticatedEncryption

/-- One ciphertext together with everything it was sealed from. -/
structure Sealing (B : Type) where
  key : List B
  nonce : List B
  aad : List B
  msg : List B
  ct : List B
  deriving DecidableEq

/-- The bytes of the authentication tag appended to every message. -/
def TAG_LEN : ℕ := 16

/-- A cipher. `fits` is its limit on the lengths of message and associated
data; it is the only reason sealing fails. -/
structure Aead (B : Type) where
  fits : ℕ → ℕ → Bool
  encrypt : (key nonce aad msg : List B) → Option (List B)
  decrypt : List (Sealing B) → (key nonce aad ct : List B) → Option (List B)
  encrypt_isSome : ∀ k n a m, (encrypt k n a m).isSome = fits m.length a.length
  encrypt_length : ∀ {k n a m c}, encrypt k n a m = some c → c.length = m.length + TAG_LEN

variable {B : Type}

/-- A record in which every entry really was sealed by the cipher. -/
structure History (A : Aead B) where
  sealings : List (Sealing B)
  genuine : ∀ s ∈ sealings, A.encrypt s.key s.nonce s.aad s.msg = some s.ct

namespace History
variable {A : Aead B}

@[ext] theorem ext {H K : History A} (h : H.sealings = K.sealings) : H = K := by
  cases H
  cases K
  cases h
  rfl

instance : Membership (Sealing B) (History A) where
  mem H s := s ∈ H.sealings

theorem mem_def {H : History A} {s : Sealing B} : s ∈ H ↔ s ∈ H.sealings := Iff.rfl

def empty : History A := ⟨[], by simp⟩

@[simp] theorem not_mem_empty (s : Sealing B) : s ∉ (empty : History A) := List.not_mem_nil

/-- The record after one more sealing. -/
def add (H : History A) {k n a m c : List B} (h : A.encrypt k n a m = some c) : History A :=
  ⟨⟨k, n, a, m, c⟩ :: H.sealings, by
    intro t ht
    rcases List.mem_cons.mp ht with rfl | ht
    · exact h
    · exact H.genuine t ht⟩

section
variable (H : History A) {k n a m c : List B} (h : A.encrypt k n a m = some c)

@[simp] theorem add_sealings : (H.add h).sealings = ⟨k, n, a, m, c⟩ :: H.sealings := rfl

@[simp] theorem mem_add {t : Sealing B} : t ∈ H.add h ↔ t = ⟨k, n, a, m, c⟩ ∨ t ∈ H := by
  simp [mem_def]

end

end History

namespace Aead

/-- Sealed messages open: the honest half of every security notion. -/
def Correct (A : Aead B) : Prop :=
  ∀ (H : History A), ∀ s ∈ H, A.decrypt H.sealings s.key s.nonce s.aad s.ct = some s.msg

/-- The ideal cipher: a ciphertext opens under a key, a nonce and associated
data to a message exactly when it is on record as sealed from all four. -/
def Ideal (A : Aead B) : Prop :=
  ∀ (H : History A) (k n a c m : List B),
    A.decrypt H.sealings k n a c = some m ↔ ⟨k, n, a, m, c⟩ ∈ H

/-- Opening takes off the tag and nothing else. -/
def TagLength (A : Aead B) : Prop :=
  ∀ (H : History A) (k n a c m : List B),
    A.decrypt H.sealings k n a c = some m → c.length = m.length + TAG_LEN

theorem Ideal.correct {A : Aead B} (h : A.Ideal) : A.Correct :=
  fun H s hs => (h H s.key s.nonce s.aad s.ct s.msg).mpr hs

theorem Ideal.tagLength {A : Aead B} (h : A.Ideal) : A.TagLength := by
  intro H k n a c m hopen
  exact A.encrypt_length (H.genuine _ ((h H k n a c m).mp hopen))

theorem Ideal.decrypt_eq_none {A : Aead B} (h : A.Ideal) {H : History A}
    {k n a c : List B} (hc : ∀ m, (⟨k, n, a, m, c⟩ : Sealing B) ∉ H) :
    A.decrypt H.sealings k n a c = none := by
  rw [Option.eq_none_iff_forall_ne_some]
  intro m hm
  exact hc m ((h H k n a c m).mp hm)

theorem exists_encrypt {A : Aead B} {k n a m : List B}
    (h : A.fits m.length a.length = true) : ∃ c, A.encrypt k n a m = some c := by
  rw [← Option.isSome_iff_exists, A.encrypt_isSome, h]

theorem fits_of_encrypt {A : Aead B} {k n a m c : List B} (h : A.encrypt k n a m = some c) :
    A.fits m.length a.length = true := by
  rw [← A.encrypt_isSome k n a m, h]
  rfl

/-! ## The ideal functionality of a cipher -/

section Ledger
variable [DecidableEq B]

/-- Look a ciphertext up in the record. -/
def lookup (record : List (Sealing B)) (k n a c : List B) : Option (List B) :=
  (record.find? fun s => decide (s.key = k ∧ s.nonce = n ∧ s.aad = a ∧ s.ct = c)).map Sealing.msg

/-- The cipher that seals as `A` does and opens by lookup alone. -/
def ledger (A : Aead B) : Aead B := { A with decrypt := lookup }

theorem lookup_eq_some {record : List (Sealing B)} {k n a c m : List B}
    (h : lookup record k n a c = some m) : ⟨k, n, a, m, c⟩ ∈ record := by
  unfold lookup at h
  obtain ⟨s, hs, rfl⟩ := Option.map_eq_some_iff.mp h
  have hp := List.find?_some hs
  simp only [decide_eq_true_eq] at hp
  obtain ⟨rfl, rfl, rfl, rfl⟩ := hp
  exact List.mem_of_find?_eq_some hs

/-- Lookup is the ideal cipher as soon as sealing loses no message. -/
theorem ledger_ideal (A : Aead B)
    (hinj : ∀ {k n a m m' c}, A.encrypt k n a m = some c → A.encrypt k n a m' = some c → m = m') :
    A.ledger.Ideal := by
  intro H k n a c m
  constructor
  · exact lookup_eq_some
  · intro hmem
    have hfound : (lookup H.sealings k n a c).isSome := by
      simp only [lookup, Option.isSome_map, List.find?_isSome]
      exact ⟨_, hmem, by simp⟩
    obtain ⟨m', hm'⟩ := Option.isSome_iff_exists.mp hfound
    have hgen : A.encrypt k n a m = some c := H.genuine _ hmem
    have hgen' : A.encrypt k n a m' = some c := H.genuine _ (lookup_eq_some hm')
    change lookup H.sealings k n a c = some m
    rw [hm', hinj hgen' hgen]

end Ledger
end Aead
end EvnxCrypto.AuthenticatedEncryption
