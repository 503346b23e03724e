import Mathlib.Data.Vector.Basic
import Mathlib.Tactic.Common

/-!
# Fallible, panicking and stateful computations

A call returns a value, returns an error, or panics. Panicking is an outcome of
its own, so a partial operation reached out of its bounds stays observable and
is never confused with a returned error. `Run` threads a state through such
calls and keeps the state reached on every exit, the failing ones included:
what a failed call has already done to the state is part of its meaning.
-/
namespace EvnxCrypto.Effect

/-- How one call ends. -/
inductive Outcome (ε α : Type) where
  | ok (value : α)
  | err (error : ε)
  | panic
  deriving DecidableEq, Repr

variable {σ ε ε' α β γ : Type}

namespace Outcome

def bind : Outcome ε α → (α → Outcome ε β) → Outcome ε β
  | .ok a, f => f a
  | .err e, _ => .err e
  | .panic, _ => .panic

instance : Monad (Outcome ε) where
  pure := .ok
  bind := bind

@[simp] theorem pure_eq (a : α) : (pure a : Outcome ε α) = .ok a := rfl

@[simp] theorem ok_bind (a : α) (f : α → Outcome ε β) : (Outcome.ok a >>= f) = f a := rfl

@[simp] theorem err_bind (e : ε) (f : α → Outcome ε β) :
    (Outcome.err e >>= f) = .err e := rfl

@[simp] theorem panic_bind (f : α → Outcome ε β) :
    ((Outcome.panic : Outcome ε α) >>= f) = .panic := rfl

theorem bind_eq_ok {x : Outcome ε α} {f : α → Outcome ε β} {b : β} :
    (x >>= f) = .ok b ↔ ∃ a, x = .ok a ∧ f a = .ok b := by
  cases x <;> simp

instance : LawfulMonad (Outcome ε) := LawfulMonad.mk' _
  (by rintro _ (_ | _ | _) <;> rfl)
  (fun _ _ => rfl)
  (by rintro _ _ _ (_ | _ | _) _ _ <;> rfl)

/-- The `?` operator after `ok_or` or after `map_err` on an opaque error. -/
def okOr (e : ε) : Option α → Outcome ε α
  | some a => .ok a
  | none => .err e

@[simp] theorem okOr_some (e : ε) (a : α) : okOr e (some a) = .ok a := rfl
@[simp] theorem okOr_none (e : ε) : okOr e (none : Option α) = .err e := rfl

@[simp] theorem okOr_eq_ok {e : ε} {x : Option α} {a : α} :
    okOr e x = .ok a ↔ x = some a := by
  cases x <;> simp

/-- `expect` and `unwrap`: a returned error becomes a panic. -/
def expect : Outcome ε α → Outcome ε α
  | .ok a => .ok a
  | .err _ => .panic
  | .panic => .panic

@[simp] theorem expect_ok (a : α) : expect (Outcome.ok a : Outcome ε α) = .ok a := rfl

/-- `map_err`. -/
def mapErr (f : ε → ε') : Outcome ε α → Outcome ε' α
  | .ok a => .ok a
  | .err e => .err (f e)
  | .panic => .panic

@[simp] theorem mapErr_ok (f : ε → ε') (a : α) : mapErr f (.ok a) = .ok a := rfl
@[simp] theorem mapErr_err (f : ε → ε') (e : ε) :
    mapErr f (.err e : Outcome ε α) = .err (f e) := rfl

theorem mapErr_bind (g : ε → ε') (x : Outcome ε α) (f : α → Outcome ε β) :
    (x >>= f).mapErr g = x.mapErr g >>= fun a => (f a).mapErr g := by
  cases x <;> rfl

theorem mapErr_pure (g : ε → ε') (a : α) :
    (pure a : Outcome ε α).mapErr g = pure a := rfl

theorem mapErr_eq_ok {g : ε → ε'} {x : Outcome ε α} {a : α} :
    x.mapErr g = .ok a ↔ x = .ok a := by
  cases x <;> simp [mapErr]

end Outcome

/-- A computation over a state, keeping the state reached on every exit. -/
@[ext] structure Run (σ ε α : Type) where
  run : σ → Outcome ε α × σ

namespace Run

instance : CoeFun (Run σ ε α) fun _ => σ → Outcome ε α × σ := ⟨run⟩

def bind (x : Run σ ε α) (f : α → Run σ ε β) : Run σ ε β := ⟨fun s =>
  match x s with
  | (.ok a, t) => f a t
  | (.err e, t) => (.err e, t)
  | (.panic, t) => (.panic, t)⟩

instance : Monad (Run σ ε) where
  pure a := ⟨fun s => (.ok a, s)⟩
  bind := bind

/-- A call that reads and writes no state. -/
def lift (x : Outcome ε α) : Run σ ε α := ⟨fun s => (x, s)⟩

def fail (e : ε) : Run σ ε α := ⟨fun s => (.err e, s)⟩

/-- A value computed from the current state. -/
def read (f : σ → α) : Run σ ε α := ⟨fun s => (.ok (f s), s)⟩

/-- `expect` after a call: what the call did to the state stays done. -/
def expect (x : Run σ ε α) : Run σ ε α := ⟨fun s => ((x s).1.expect, (x s).2)⟩

/-- `map_err` on a call. -/
def mapErr (f : ε → ε') (x : Run σ ε α) : Run σ ε' α := ⟨fun s => ((x s).1.mapErr f, (x s).2)⟩

/-- `is_err` on a call. -/
def isErr (x : Run σ ε α) : Run σ ε' Bool := ⟨fun s =>
  match x s with
  | (.ok _, t) => (.ok false, t)
  | (.err _, t) => (.ok true, t)
  | (.panic, t) => (.panic, t)⟩

@[simp] theorem pure_apply (a : α) (s : σ) : (pure a : Run σ ε α) s = (.ok a, s) := rfl

@[simp] theorem fail_apply (e : ε) (s : σ) : (fail e : Run σ ε α) s = (.err e, s) := rfl

@[simp] theorem lift_ok_bind (a : α) (f : α → Run σ ε β) :
    (lift (.ok a) >>= f) = f a := rfl

theorem bind_apply (x : Run σ ε α) (f : α → Run σ ε β) (s : σ) :
    (x >>= f) s = match x s with
      | (.ok a, t) => f a t
      | (.err e, t) => (.err e, t)
      | (.panic, t) => (.panic, t) := rfl

theorem bind_of_ok {x : Run σ ε α} {f : α → Run σ ε β} {s t : σ} {a : α}
    (h : x s = (.ok a, t)) : (x >>= f) s = f a t := by
  rw [bind_apply, h]

theorem bind_of_err {x : Run σ ε α} {f : α → Run σ ε β} {s t : σ} {e : ε}
    (h : x s = (.err e, t)) : (x >>= f) s = (.err e, t) := by
  rw [bind_apply, h]

theorem expect_of_ok {x : Run σ ε α} {s t : σ} {a : α} (h : x s = (.ok a, t)) :
    x.expect s = (.ok a, t) := by
  simp only [expect, h, Outcome.expect_ok]

instance : LawfulMonad (Run σ ε) := LawfulMonad.mk' _
  (by
    intro _ x
    ext s : 2
    change (x >>= pure) s = x s
    rw [bind_apply]
    rcases x s with ⟨a | e | _, t⟩ <;> rfl)
  (fun _ _ => rfl)
  (by
    intro _ _ _ x f g
    ext s : 2
    simp only [bind_apply]
    rcases x s with ⟨a | e | _, t⟩ <;> rfl)

theorem mapErr_bind (g : ε → ε') (x : Run σ ε α) (f : α → Run σ ε β) :
    (x >>= f).mapErr g = x.mapErr g >>= fun a => (f a).mapErr g := by
  ext s : 2
  simp only [mapErr, bind_apply]
  rcases x s with ⟨a | e | _, t⟩ <;> rfl

theorem mapErr_eq_ok {g : ε → ε'} {x : Run σ ε α} {s t : σ} {a : α} :
    x.mapErr g s = (.ok a, t) ↔ x s = (.ok a, t) := by
  change ((x s).1.mapErr g, (x s).2) = (.ok a, t) ↔ _
  rw [Prod.mk.injEq, Outcome.mapErr_eq_ok, Prod.ext_iff]

theorem isErr_of_err {x : Run σ ε α} {s t : σ} {e : ε} (h : x s = (.err e, t)) :
    (x.isErr : Run σ ε' Bool) s = (.ok true, t) := by
  simp only [isErr, h]

theorem mapErr_pure (g : ε → ε') (a : α) :
    (pure a : Run σ ε α).mapErr g = pure a := rfl

theorem mapErr_lift (g : ε → ε') (x : Outcome ε α) :
    (lift x : Run σ ε α).mapErr g = lift (x.mapErr g) := rfl

theorem lift_pure (a : α) : (lift (pure a) : Run σ ε α) = pure a := rfl

theorem lift_bind (x : Outcome ε α) (f : α → Outcome ε β) :
    (lift (x >>= f) : Run σ ε β) = lift x >>= fun a => lift (f a) := by
  cases x <;> rfl

theorem bind_of_panic {x : Run σ ε α} {f : α → Run σ ε β} {s t : σ}
    (h : x s = (.panic, t)) : (x >>= f) s = (.panic, t) := by
  rw [bind_apply, h]

/-- Packing an answer leaves the state as the call left it. -/
theorem bind_pure_snd (x : Run σ ε α) (f : α → β) (s : σ) :
    ((x >>= fun a => pure (f a)) s).2 = (x s).2 := by
  rw [bind_apply]
  rcases x s with ⟨a | e | _, t⟩ <;> rfl

/-- Peels the first call off a successful sequence. -/
theorem bind_eq_ok {x : Run σ ε α} {f : α → Run σ ε β} {s u : σ} {b : β} :
    (x >>= f) s = (.ok b, u) ↔ ∃ a t, x s = (.ok a, t) ∧ f a t = (.ok b, u) := by
  constructor
  · intro h
    rcases hx : x s with ⟨a | e | _, t⟩
    · exact ⟨a, t, rfl, by rwa [bind_of_ok hx] at h⟩
    · rw [bind_of_err hx] at h
      simp at h
    · rw [bind_of_panic hx] at h
      simp at h
  · rintro ⟨a, t, hx, hf⟩
    rw [bind_of_ok hx, hf]

end Run

/-! ## Partial operations on slices -/

/-- `&xs[..n]`: panics past the end. -/
def sliceTo (xs : List α) (n : ℕ) : Outcome ε (List α) :=
  if n ≤ xs.length then .ok (xs.take n) else .panic

/-- `&xs[n..]`: panics past the end. -/
def sliceFrom (xs : List α) (n : ℕ) : Outcome ε (List α) :=
  if n ≤ xs.length then .ok (xs.drop n) else .panic

/-- A list of the right length as a fixed-size array. -/
def asArray {n : ℕ} (xs : List α) (h : xs.length = n) : List.Vector α n := ⟨xs, h⟩

@[simp] theorem asArray_toList {n : ℕ} {xs : List α} (h : xs.length = n) :
    (asArray xs h).toList = xs := rfl

/-- `<[T; n]>::try_from(xs)`: no value on a wrong length. -/
def tryIntoArray (n : ℕ) (xs : List α) : Option (List.Vector α n) :=
  if h : xs.length = n then some (asArray xs h) else none

/-- `copy_from_slice` into a fresh array, and `from_slice` of a fixed-size
array type: both panic on a wrong length. -/
def copyFromSlice (n : ℕ) (xs : List α) : Outcome ε (List.Vector α n) :=
  if h : xs.length = n then .ok (asArray xs h) else .panic

theorem sliceTo_of_le {xs : List α} {n : ℕ} (h : n ≤ xs.length) :
    (sliceTo xs n : Outcome ε _) = .ok (xs.take n) := if_pos h

theorem sliceFrom_of_le {xs : List α} {n : ℕ} (h : n ≤ xs.length) :
    (sliceFrom xs n : Outcome ε _) = .ok (xs.drop n) := if_pos h

theorem copyFromSlice_of_length {xs : List α} {n : ℕ} (h : xs.length = n) :
    (copyFromSlice n xs : Outcome ε _) = .ok (asArray xs h) := dif_pos h

theorem tryIntoArray_of_length {xs : List α} {n : ℕ} (h : xs.length = n) :
    tryIntoArray n xs = some (asArray xs h) := dif_pos h

@[simp] theorem copyFromSlice_toList {n : ℕ} (v : List.Vector α n) :
    (copyFromSlice n v.toList : Outcome ε _) = .ok v :=
  copyFromSlice_of_length v.toList_length

@[simp] theorem tryIntoArray_toList {n : ℕ} (v : List.Vector α n) :
    tryIntoArray n v.toList = some v :=
  tryIntoArray_of_length v.toList_length

theorem copyFromSlice_eq_ok {xs : List α} {n : ℕ} {v : List.Vector α n} :
    (copyFromSlice n xs : Outcome ε _) = .ok v ↔ xs = v.toList := by
  constructor
  · intro h
    unfold copyFromSlice at h
    split at h
    · cases h
      rfl
    · cases h
  · rintro rfl
    exact copyFromSlice_toList v

end EvnxCrypto.Effect
