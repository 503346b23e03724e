import EvnxCrypto.Effect

/-!
# Computations that do not panic

A computation is safe for a postcondition when it never panics and every value
it returns satisfies the postcondition. A partial operation is safe under its
bounds, and the rules carry the bounds along a sequence: what a check or an
earlier step established is at hand where the operation is reached.
-/
namespace EvnxCrypto.Effect

variable {σ ε ε' α β : Type}

def Outcome.Safe (x : Outcome ε α) (post : α → Prop) : Prop :=
  match x with
  | .ok a => post a
  | .err _ => True
  | .panic => False

namespace Outcome.Safe
variable {x : Outcome ε α} {f : α → Outcome ε β} {mid : α → Prop} {post : β → Prop}

theorem ne_panic (h : x.Safe mid) : x ≠ .panic := by
  rintro rfl
  exact h

theorem mono {mid' : α → Prop} (h : x.Safe mid) (himp : ∀ a, mid a → mid' a) :
    x.Safe mid' := by
  cases x with
  | ok a => exact himp a h
  | err e => exact trivial
  | panic => exact h

theorem bind (h : x.Safe mid) (hf : ∀ a, mid a → (f a).Safe post) : (x >>= f).Safe post := by
  cases x with
  | ok a => exact hf a h
  | err e => exact trivial
  | panic => exact h.elim

theorem mapErr (h : x.Safe mid) (g : ε → ε') : (x.mapErr g).Safe mid := by
  cases x with
  | ok a => exact h
  | err e => exact trivial
  | panic => exact h.elim

theorem okOr (e : ε) (o : Option α) : (Outcome.okOr e o).Safe fun a => o = some a := by
  cases o with
  | none => exact trivial
  | some a => exact rfl

/-- A check that fails with an error leaves its negation to the rest. -/
theorem guard {c : Prop} [Decidable c] {e : ε} (h : ¬ c → x.Safe mid) :
    (if c then .err e else x).Safe mid := by
  by_cases hc : c
  · rw [if_pos hc]
    exact trivial
  · rw [if_neg hc]
    exact h hc

theorem sliceTo {xs : List α} {n : ℕ} (h : n ≤ xs.length) :
    (Effect.sliceTo xs n : Outcome ε _).Safe fun ys => ys.length = n := by
  rw [sliceTo_of_le h]
  exact List.length_take_of_le h

theorem sliceFrom {xs : List α} {n : ℕ} (h : n ≤ xs.length) :
    (Effect.sliceFrom xs n : Outcome ε _).Safe fun _ => True := by
  rw [sliceFrom_of_le h]
  exact trivial

theorem copyFromSlice {xs : List α} {n : ℕ} (h : xs.length = n) :
    (Effect.copyFromSlice n xs : Outcome ε _).Safe fun _ => True := by
  rw [copyFromSlice_of_length h]
  exact trivial

end Outcome.Safe

def Run.Safe (x : Run σ ε α) (post : α → Prop) : Prop := ∀ s, (x s).1.Safe post

namespace Run.Safe
variable {x : Run σ ε α} {f : α → Run σ ε β} {mid : α → Prop} {post : β → Prop}

theorem ne_panic (h : x.Safe mid) (s : σ) : (x s).1 ≠ .panic := (h s).ne_panic

theorem mono {mid' : α → Prop} (h : x.Safe mid) (himp : ∀ a, mid a → mid' a) : x.Safe mid' :=
  fun s => (h s).mono himp

theorem pure {a : α} (h : mid a) : (pure a : Run σ ε α).Safe mid := fun _ => h

theorem lift {o : Outcome ε α} (h : o.Safe mid) : (Run.lift o : Run σ ε α).Safe mid :=
  fun _ => h

theorem bind (h : x.Safe mid) (hf : ∀ a, mid a → (f a).Safe post) : (x >>= f).Safe post := by
  intro s
  have hx := h s
  rw [bind_apply]
  rcases hout : x s with ⟨a | e | _, t⟩
  · rw [hout] at hx
    exact hf a hx t
  · exact trivial
  · rw [hout] at hx
    exact hx

theorem mapErr (h : x.Safe mid) (g : ε → ε') : (x.mapErr g).Safe mid := fun s => (h s).mapErr g

theorem guard {c : Prop} [Decidable c] {e : ε} (h : ¬ c → x.Safe mid) :
    (if c then Run.fail e else x).Safe mid := by
  by_cases hc : c
  · rw [if_pos hc]
    exact fun _ => trivial
  · rw [if_neg hc]
    exact h hc

/-- `expect` is safe after a call that always succeeds. -/
theorem expect (h : ∀ s, ∃ a, mid a ∧ (x s).1 = .ok a) : x.expect.Safe mid := by
  intro s
  rcases h s with ⟨a, ha, hok⟩
  change (x s).1.expect.Safe mid
  rw [hok]
  exact ha

end Run.Safe
end EvnxCrypto.Effect
