import EvnxCrypto.Effect

/-!
# Refusals that do not depend on secrets

A family of calls takes a public input, a secret and a state. Where the secret
does not open the input, the call has to refuse, and the refusal must tell two
such secrets apart in no case, whatever states the two runs start from.
-/
namespace EvnxCrypto.Effect

variable {ι κ σ ε ε' α β : Type}

/-- Every secret that does not open the input is refused with the one error `e`. -/
def RefusesWith (e : ε) (opens : κ → σ → Prop) (run : κ → Run σ ε α) : Prop :=
  ∀ k s, ¬ opens k s → (run k s).1 = .err e

namespace RefusesWith
variable {e : ε} {opens : κ → σ → Prop} {run : κ → Run σ ε α}

theorem mapErr (h : RefusesWith e opens run) (g : ε → ε') :
    RefusesWith (g e) opens fun k => (run k).mapErr g := by
  intro k s hk
  change ((run k s).1).mapErr g = .err (g e)
  rw [h k s hk, Outcome.mapErr_err]

end RefusesWith

/-- No refusal is an oracle for the secret. -/
structure NoOracle (opens : ι → κ → σ → Prop) (run : ι → κ → Run σ ε α) : Prop where
  alike : ∀ i k k' s s', ¬ opens i k s → ¬ opens i k' s' →
    ∃ e, (run i k s).1 = .err e ∧ (run i k' s').1 = .err e
  error_public : ∃ error : ι → ε, ∀ i k s, ¬ opens i k s → (run i k s).1 = .err (error i)

/-- One error for each input is all it takes. -/
theorem NoOracle.of_refusesWith {opens : ι → κ → σ → Prop} {run : ι → κ → Run σ ε α}
    (h : ∀ i, ∃ e, RefusesWith e (opens i) (run i)) : NoOracle opens run := by
  choose error herror using h
  refine ⟨?_, error, herror⟩
  intro i k k' s s' hk hk'
  exact ⟨error i, herror i k s hk, herror i k' s' hk'⟩

end EvnxCrypto.Effect
