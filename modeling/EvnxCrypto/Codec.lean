import EvnxCrypto.Effect

/-!
# Strict text codecs and the decoders built on them

A codec is strict when it reads exactly what it writes: every accepted text is
the encoding of the value it is read as. A decoder decides a relation when it
returns the values the relation allows and otherwise returns a bad-input error,
never another error and never a panic. The rules below follow the shape of a
decoder: a check, a step that feeds another, a final value.
-/
namespace EvnxCrypto
open Effect

structure Codec (A T : Type) where
  encode : A → T
  decode : T → Option A

namespace Codec
variable {A T : Type} {c : Codec A T}

def Strict (c : Codec A T) : Prop := ∀ t a, c.decode t = some a ↔ t = c.encode a

/-- What is written is read back; other texts may be read as well. -/
def RoundTrips (c : Codec A T) : Prop := ∀ a, c.decode (c.encode a) = some a

theorem Strict.roundTrips (h : c.Strict) : c.RoundTrips := fun a => (h _ a).mpr rfl

end Codec

variable {ε α β : Type}

/-- The outcome is one the relation `accepts` allows, or an error among `bad`. -/
structure Decides (bad : ε → Prop) (x : Outcome ε α) (accepts : α → Prop) : Prop where
  ok_iff : ∀ a, x = .ok a ↔ accepts a
  total : (∃ a, x = .ok a) ∨ ∃ e, x = .err e ∧ bad e

namespace Decides
variable {bad : ε → Prop} {x : Outcome ε α} {accepts accepts' : α → Prop}

theorem eq_ok (h : Decides bad x accepts) {a : α} (ha : accepts a) : x = .ok a :=
  (h.ok_iff a).mpr ha

theorem congr (h : Decides bad x accepts) (hiff : ∀ a, accepts a ↔ accepts' a) :
    Decides bad x accepts' :=
  ⟨fun a => (h.ok_iff a).trans (hiff a), h.total⟩

theorem value (a : α) : Decides bad (.ok a : Outcome ε α) (a = ·) :=
  ⟨fun b => by rw [Outcome.ok.injEq], .inl ⟨a, rfl⟩⟩

theorem guard {c : Prop} [Decidable c] {e : ε} (he : bad e)
    (h : ¬ c → Decides bad x accepts) :
    Decides bad (if c then .err e else x) fun a => ¬ c ∧ accepts a := by
  by_cases hc : c
  · rw [if_pos hc]
    refine ⟨fun a => ?_, .inr ⟨e, rfl, he⟩⟩
    simp [hc]
  · rw [if_neg hc]
    refine ⟨fun a => ?_, (h hc).total⟩
    simp only [hc, not_false_eq_true, true_and]
    exact (h hc).ok_iff a

theorem bind {f : α → Outcome ε β} {then' : α → β → Prop} (h : Decides bad x accepts)
    (hf : ∀ a, accepts a → Decides bad (f a) (then' a)) :
    Decides bad (x >>= f) fun b => ∃ a, accepts a ∧ then' a b := by
  constructor
  · intro b
    rw [Outcome.bind_eq_ok]
    apply exists_congr
    intro a
    rw [h.ok_iff a]
    exact and_congr_right fun ha => (hf a ha).ok_iff b
  · rcases h.total with hok | herr
    · rcases hok with ⟨a, rfl⟩
      exact (hf a ((h.ok_iff a).mp rfl)).total
    · rcases herr with ⟨e, rfl, he⟩
      exact .inr ⟨e, rfl, he⟩

end Decides

theorem Codec.Strict.decides {A T : Type} {c : Codec A T} {bad : ε → Prop} (h : c.Strict)
    (t : T) {e : ε} (he : bad e) :
    Decides bad (.okOr e (c.decode t)) fun a => t = c.encode a := by
  constructor
  · intro a
    rw [Outcome.okOr_eq_ok]
    exact h t a
  · cases hdec : c.decode t with
    | none => exact .inr ⟨e, rfl, he⟩
    | some a => exact .inl ⟨a, rfl⟩

end EvnxCrypto
