import EvnxCrypto.Effect
import Mathlib.Tactic.Common

/-!
# Adaptive sequences of calls

An interaction makes the calls of an interface one after another, each chosen by
the answers so far. A handler gives every call a meaning, and what each call
preserves holds wherever an interaction ends. One interface can be implemented
over another by an interaction for each of its calls.

A monitor is a specification of an interface: it keeps a state of its own and says
which answers that state allows. A handler refines it when a relation between the
two states carries every call to an allowed answer.
-/
namespace EvnxCrypto.Effect

/-- Calls in sequence, each chosen by the answers so far. -/
inductive Interaction (I : Type → Type) (ε α : Type) : Type 1
  | done (result : α)
  | ask {β : Type} (call : I β) (next : Outcome ε β → Interaction I ε α)

/-- One call with its answer. -/
structure Exchange (I : Type → Type) (ε : Type) : Type 1 where
  Answer : Type
  call : I Answer
  answer : Outcome ε Answer

/-- A meaning for every call of an interface. -/
abbrev Handler (I : Type → Type) (σ ε : Type) : Type 1 := ∀ β, I β → Run σ ε β

namespace Interaction
variable {I J : Type → Type} {σ ε ε' α β : Type}

section
variable (handle : Handler I σ ε)

/-- The answered calls, oldest first. -/
def trace : Interaction I ε α → σ → List (Exchange I ε)
  | .done _, _ => []
  | .ask call next, s =>
      ⟨_, call, (handle _ call s).1⟩ :: (next (handle _ call s).1).trace (handle _ call s).2

/-- The state after the last call. -/
def final : Interaction I ε α → σ → σ
  | .done _, s => s
  | .ask call next, s => (next (handle _ call s).1).final (handle _ call s).2

def result : Interaction I ε α → σ → α
  | .done result, _ => result
  | .ask call next, s => (next (handle _ call s).1).result (handle _ call s).2

/-- Every state on the way, the first and the last included. -/
def states : Interaction I ε α → σ → List σ
  | .done _, s => [s]
  | .ask call next, s => s :: (next (handle _ call s).1).states (handle _ call s).2

end

variable {handle : Handler I σ ε}

theorem invariant_from {Q : List (Exchange I ε) → σ → Prop}
    (step : ∀ before s β (call : I β), Q before s →
      Q (before ++ [⟨β, call, (handle β call s).1⟩]) (handle β call s).2)
    (t : Interaction I ε α) {before : List (Exchange I ε)} {s : σ} (h : Q before s) :
    Q (before ++ t.trace handle s) (t.final handle s) := by
  induction t generalizing before s with
  | done result =>
      rw [trace, final, List.append_nil]
      exact h
  | ask call next ih =>
      have hrest := ih (handle _ call s).1 (step before s _ call h)
      rwa [List.append_assoc] at hrest

/-- What one call preserves, every interaction preserves. -/
theorem invariant {Q : List (Exchange I ε) → σ → Prop} {s : σ} (start : Q [] s)
    (step : ∀ before s β (call : I β), Q before s →
      Q (before ++ [⟨β, call, (handle β call s).1⟩]) (handle β call s).2)
    (t : Interaction I ε α) : Q (t.trace handle s) (t.final handle s) :=
  t.invariant_from step start

/-- A relation every call keeps is kept by an interaction. -/
theorem rel {R : σ → σ → Prop} (hrefl : ∀ s, R s s)
    (htrans : ∀ {s t u}, R s t → R t u → R s u)
    (hcall : ∀ s β (call : I β), R s (handle β call s).2) (t : Interaction I ε α) (s : σ) :
    R s (t.final handle s) :=
  t.invariant (Q := fun _ u => R s u) (hrefl s)
    fun _ u β call h => htrans h (hcall u β call)

/-! ## One interaction after another -/

/-- The second interaction is chosen by the result of the first. -/
def bind : Interaction I ε α → (α → Interaction I ε β) → Interaction I ε β
  | .done result, f => f result
  | .ask call next, f => .ask call fun answer => (next answer).bind f

section
variable (t : Interaction I ε α) (f : α → Interaction I ε β) (s : σ)

theorem final_bind : (t.bind f).final handle s =
    (f (t.result handle s)).final handle (t.final handle s) := by
  induction t generalizing s with
  | done result => rfl
  | ask call next ih => simp only [bind, result, final, ih]

theorem result_bind : (t.bind f).result handle s =
    (f (t.result handle s)).result handle (t.final handle s) := by
  induction t generalizing s with
  | done result => rfl
  | ask call next ih => simp only [bind, result, final, ih]

end

/-! ## One interface over another -/

/-- For each call of one interface, an interaction with another. -/
abbrev Implementation (I J : Type → Type) (ε ε' : Type) : Type 1 :=
  ∀ β, I β → Interaction J ε' (Outcome ε β)

/-- The interaction with the second interface that stands for one with the first. -/
def compile (impl : Implementation I J ε ε') : Interaction I ε α → Interaction J ε' α
  | .done result => .done result
  | .ask call next => (impl _ call).bind fun answer => (next answer).compile impl

/-- An interaction that ends in an outcome, as one call. -/
def toRun (handle : Handler I σ ε) (t : Interaction I ε (Outcome ε' α)) : Run σ ε' α :=
  ⟨fun s => (t.result handle s, t.final handle s)⟩

/-- The implementation of a call answers as the call does and leaves the same state. -/
def Implements (impl : Implementation I J ε ε') (handle : Handler I σ ε)
    (handle' : Handler J σ ε') : Prop :=
  ∀ β (call : I β), (impl β call).toRun handle' = handle β call

variable {impl : Implementation I J ε ε'} {handle' : Handler J σ ε'}

theorem Implements.result_eq (h : Implements impl handle handle') {β : Type} (call : I β) (s : σ) :
    (impl β call).result handle' s = (handle β call s).1 := by
  rw [← h β call]
  rfl

theorem Implements.final_eq (h : Implements impl handle handle') {β : Type} (call : I β) (s : σ) :
    (impl β call).final handle' s = (handle β call s).2 := by
  rw [← h β call]
  rfl

/-- An interaction and its compilation have one result and end in one state. -/
theorem compile_correct (h : Implements impl handle handle') (t : Interaction I ε α) (s : σ) :
    (t.compile impl).result handle' s = t.result handle s ∧
      (t.compile impl).final handle' s = t.final handle s := by
  induction t generalizing s with
  | done result => exact ⟨rfl, rfl⟩
  | ask call next ih =>
      simp only [compile, result_bind, final_bind, h.result_eq, h.final_eq]
      exact ih _ _

end Interaction

/-! ## Specifications of an interface -/

structure Monitor (I : Type → Type) (ε : Type) where
  State : Type
  allows : State → ∀ {β : Type}, I β → Outcome ε β → Prop
  next : State → ∀ {β : Type}, I β → Outcome ε β → State

namespace Monitor
variable {I : Type → Type} {σ ε α : Type}

/-- The state of the specification after a trace. -/
def after (M : Monitor I ε) : M.State → List (Exchange I ε) → M.State
  | m, [] => m
  | m, e :: es => M.after (M.next m e.call e.answer) es

/-- Every answer of the trace is one the specification allows when it is given. -/
def Accepts (M : Monitor I ε) : M.State → List (Exchange I ε) → Prop
  | _, [] => True
  | m, e :: es => M.allows m e.call e.answer ∧ M.Accepts (M.next m e.call e.answer) es

section
variable {M : Monitor I ε}

theorem accepts_append (m : M.State) (es es' : List (Exchange I ε)) :
    M.Accepts m (es ++ es') ↔ M.Accepts m es ∧ M.Accepts (M.after m es) es' := by
  induction es generalizing m with
  | nil => exact (iff_of_eq (true_and _)).symm
  | cons e es ih => exact (and_congr_right fun _ => ih _).trans and_assoc.symm

theorem Accepts.invariant_from {Q : List (Exchange I ε) → M.State → Prop}
    (step : ∀ before m β (call : I β) x, Q before m → M.allows m call x →
      Q (before ++ [⟨β, call, x⟩]) (M.next m call x))
    {m : M.State} {before es : List (Exchange I ε)} (h : M.Accepts m es) (start : Q before m) :
    Q (before ++ es) (M.after m es) := by
  induction es generalizing before m with
  | nil =>
      rw [List.append_nil]
      exact start
  | cons e es ih =>
      have hrest := ih h.2 (step before m e.Answer e.call e.answer start h.1)
      rwa [List.append_assoc] at hrest

/-- What every allowed answer preserves holds after an accepted trace. -/
theorem Accepts.invariant {Q : List (Exchange I ε) → M.State → Prop}
    (step : ∀ before m β (call : I β) x, Q before m → M.allows m call x →
      Q (before ++ [⟨β, call, x⟩]) (M.next m call x))
    {m : M.State} {es : List (Exchange I ε)} (h : M.Accepts m es) (start : Q [] m) :
    Q es (M.after m es) :=
  h.invariant_from step start

end

/-- A simulation by the calls of a handler, as far as the state they lead to is `good`. -/
structure Simulation (M : Monitor I ε) (handle : Handler I σ ε) (good : σ → Prop)
    (R : M.State → σ → Prop) : Prop where
  good_before : ∀ β (call : I β) s, good (handle β call s).2 → good s
  allowed : ∀ {m s}, R m s → ∀ β (call : I β), good (handle β call s).2 →
    M.allows m call (handle β call s).1
  preserved : ∀ {m s}, R m s → ∀ β (call : I β), R (M.next m call (handle β call s).1)
    (handle β call s).2

variable {M : Monitor I ε} {handle : Handler I σ ε} {good : σ → Prop} {R : M.State → σ → Prop}

theorem Simulation.good_of_final (h : Simulation M handle good R) (t : Interaction I ε α) {s : σ}
    (hgood : good (t.final handle s)) : good s := by
  induction t generalizing s with
  | done result => exact hgood
  | ask call next ih => exact h.good_before _ call s (ih _ hgood)

/-- Where an interaction ends the two states are still related. -/
theorem Simulation.related (h : Simulation M handle good R) (t : Interaction I ε α) {m : M.State}
    {s : σ} (hR : R m s) : R (M.after m (t.trace handle s)) (t.final handle s) := by
  induction t generalizing m s with
  | done result => exact hR
  | ask call next ih => exact ih _ (h.preserved hR _ call)

/-- Every interaction that ends well is one the specification accepts. -/
theorem Simulation.accepts (h : Simulation M handle good R) (t : Interaction I ε α) {m : M.State}
    {s : σ} (hR : R m s) (hgood : good (t.final handle s)) :
    M.Accepts m (t.trace handle s) := by
  induction t generalizing m s with
  | done result => exact trivial
  | ask call next ih =>
      constructor
      · exact h.allowed hR _ call (h.good_of_final (next _) hgood)
      · exact ih _ (h.preserved hR _ call) hgood

end Monitor
end EvnxCrypto.Effect
