import EvnxCrypto.ByteString
import Mathlib.Data.Set.Basic

/-!
# Symbolic bytes

A symbolic byte is a literal octet, one byte of an unguessable value, or one byte
of the value of a function nobody can invert. A string of them is an ordinary
list, so it is cut and joined like any byte string, and two function values are
equal only when function, arguments and length are.

Which bytes an observer may come to know is described by recipes: a recipe for a
function value lists strings that suffice to compute it. `Known` is the least
set of bytes closed under the recipes, so what is not known is settled by
inversion. `Built` bounds instead what may occur inside a byte.
-/
namespace EvnxCrypto.Symbolic
open ByteString

/-- Bytes over the free functions `F` and the unguessable values `A`. -/
inductive SymByte (F A : Type) where
  | lit (b : UInt8)
  | atom (a : A) (i : ℕ)
  | app (f : F) (args : List (List (SymByte F A))) (i : ℕ)

variable {F A : Type}

instance : Byte (SymByte F A) where
  lit := .lit
  lit_injective := fun _ _ h => SymByte.lit.inj h

/-- The first `n` bytes of a function value. -/
def out (f : F) (args : List (List (SymByte F A))) (n : ℕ) : List.Vector (SymByte F A) n :=
  ⟨(List.range n).map (.app f args), by simp⟩

/-- The first `n` bytes of an unguessable value. -/
def atoms (a : A) (n : ℕ) : List.Vector (SymByte F A) n :=
  ⟨(List.range n).map (.atom a), by simp⟩

theorem mem_out {f : F} {args : List (List (SymByte F A))} {n : ℕ} {b : SymByte F A} :
    b ∈ (out f args n).toList ↔ ∃ i < n, b = .app f args i := by
  simp [out, List.Vector.toList, eq_comm]

theorem mem_atoms {a : A} {n : ℕ} {b : SymByte F A} :
    b ∈ (atoms (F := F) a n).toList ↔ ∃ i < n, b = .atom a i := by
  simp [atoms, List.Vector.toList, eq_comm]

theorem out_inj {f g : F} {args args' : List (List (SymByte F A))} {n m : ℕ} (hn : 0 < n)
    (h : (out f args n).toList = (out g args' m).toList) : f = g ∧ args = args' ∧ n = m := by
  have hlen : n = m := by simpa using congrArg List.length h
  have hmem : SymByte.app f args 0 ∈ (out g args' m).toList := by
    rw [← h]
    exact mem_out.mpr ⟨0, hn, rfl⟩
  obtain ⟨i, -, heq⟩ := mem_out.mp hmem
  rw [SymByte.app.injEq] at heq
  exact ⟨heq.1, heq.2.1, hlen⟩

theorem atoms_inj {a b : A} {n m : ℕ} (hn : 0 < n)
    (h : (atoms (F := F) a n).toList = (atoms b m).toList) : a = b ∧ n = m := by
  have hlen : n = m := by simpa using congrArg List.length h
  have hmem : SymByte.atom a 0 ∈ (atoms (F := F) b m).toList := by
    rw [← h]
    exact mem_atoms.mpr ⟨0, hn, rfl⟩
  obtain ⟨i, -, heq⟩ := mem_atoms.mp hmem
  rw [SymByte.atom.injEq] at heq
  exact ⟨heq.1, hlen⟩

theorem out_ne_lits {f : F} {args : List (List (SymByte F A))} {n : ℕ} (hn : 0 < n)
    (bs : List UInt8) : (out f args n).toList ≠ lits bs := by
  intro h
  have hmem : SymByte.app f args 0 ∈ (lits bs : List (SymByte F A)) := by
    rw [← h]
    exact mem_out.mpr ⟨0, hn, rfl⟩
  obtain ⟨b, -, hb⟩ := List.mem_map.mp hmem
  cases hb

/-! ## What an observer may know -/

/-- `recipe f args needs` says that the strings `needs` suffice to compute any
byte of `f args`. The empty list makes the value public. -/
abbrev Recipes (F A : Type) : Type :=
  F → List (List (SymByte F A)) → List (List (SymByte F A)) → Prop

inductive Known (pub : Set A) (recipe : Recipes F A) : SymByte F A → Prop
  | lit (b : UInt8) : Known pub recipe (.lit b)
  | atom {a : A} (i : ℕ) : a ∈ pub → Known pub recipe (.atom a i)
  | app {f : F} {args needs : List (List (SymByte F A))} (i : ℕ) : recipe f args needs →
      (∀ x ∈ needs, ∀ b ∈ x, Known pub recipe b) → Known pub recipe (.app f args i)

variable {pub : Set A} {recipe : Recipes F A}

/-- A string all of whose bytes are known. -/
def KnownString (pub : Set A) (recipe : Recipes F A) (x : List (SymByte F A)) : Prop :=
  ∀ b ∈ x, Known pub recipe b

theorem known_atom {a : A} {i : ℕ} : Known pub recipe (.atom a i) ↔ a ∈ pub := by
  constructor
  · intro h
    cases h with
    | atom i ha => exact ha
  · exact Known.atom i

theorem known_app {f : F} {args : List (List (SymByte F A))} {i : ℕ} :
    Known pub recipe (.app f args i) ↔
      ∃ needs, recipe f args needs ∧ ∀ x ∈ needs, KnownString pub recipe x := by
  constructor
  · intro h
    cases h with
    | app i hr hneeds => exact ⟨_, hr, hneeds⟩
  · intro h
    rcases h with ⟨needs, hr, hneeds⟩
    exact .app i hr hneeds

namespace KnownString

theorem nil : KnownString pub recipe [] := by simp [KnownString]

theorem append {x y : List (SymByte F A)} :
    KnownString pub recipe (x ++ y) ↔ KnownString pub recipe x ∧ KnownString pub recipe y := by
  simp only [KnownString, List.mem_append]
  constructor
  · intro h
    exact ⟨fun b hb => h b (.inl hb), fun b hb => h b (.inr hb)⟩
  · intro h b hb
    rcases hb with hb | hb
    · exact h.1 b hb
    · exact h.2 b hb

theorem take {x : List (SymByte F A)} (h : KnownString pub recipe x) (n : ℕ) :
    KnownString pub recipe (x.take n) :=
  fun b hb => h b (List.mem_of_mem_take hb)

theorem drop {x : List (SymByte F A)} (h : KnownString pub recipe x) (n : ℕ) :
    KnownString pub recipe (x.drop n) :=
  fun b hb => h b (List.mem_of_mem_drop hb)

theorem lits (bs : List UInt8) : KnownString pub recipe (ByteString.lits bs) := by
  intro b hb
  obtain ⟨c, -, rfl⟩ := List.mem_map.mp hb
  exact .lit c

theorem out {f : F} {args needs : List (List (SymByte F A))} (n : ℕ)
    (hr : recipe f args needs) (hneeds : ∀ x ∈ needs, KnownString pub recipe x) :
    KnownString pub recipe (out f args n).toList := by
  intro b hb
  obtain ⟨i, -, rfl⟩ := mem_out.mp hb
  exact .app i hr hneeds

theorem of_out {f : F} {args : List (List (SymByte F A))} {n : ℕ} (hn : 0 < n)
    (h : KnownString pub recipe (Symbolic.out f args n).toList) :
    ∃ needs, recipe f args needs ∧ ∀ x ∈ needs, KnownString pub recipe x :=
  known_app.mp (h _ (mem_out.mpr ⟨0, hn, rfl⟩))

theorem atoms {a : A} (n : ℕ) (ha : a ∈ pub) :
    KnownString pub recipe (Symbolic.atoms (F := F) a n).toList := by
  intro b hb
  obtain ⟨i, -, rfl⟩ := mem_atoms.mp hb
  exact .atom i ha

theorem of_atoms {a : A} {n : ℕ} (hn : 0 < n)
    (h : KnownString pub recipe (Symbolic.atoms (F := F) a n).toList) : a ∈ pub :=
  known_atom.mp (h _ (mem_atoms.mpr ⟨0, hn, rfl⟩))

end KnownString

/-! ## What occurs inside -/

/-- Every function value that occurs, at any depth, is one of `ok`. -/
inductive Built (ok : F → List (List (SymByte F A)) → Prop) : SymByte F A → Prop
  | lit (b : UInt8) : Built ok (.lit b)
  | atom (a : A) (i : ℕ) : Built ok (.atom a i)
  | app {f : F} {args : List (List (SymByte F A))} (i : ℕ) : ok f args →
      (∀ x ∈ args, ∀ b ∈ x, Built ok b) → Built ok (.app f args i)

variable {ok : F → List (List (SymByte F A)) → Prop}

def BuiltString (ok : F → List (List (SymByte F A)) → Prop) (x : List (SymByte F A)) : Prop :=
  ∀ b ∈ x, Built ok b

namespace BuiltString

theorem append {x y : List (SymByte F A)} (hx : BuiltString ok x) (hy : BuiltString ok y) :
    BuiltString ok (x ++ y) :=
  List.forall_mem_append.mpr ⟨hx, hy⟩

theorem take {x : List (SymByte F A)} (h : BuiltString ok x) (n : ℕ) :
    BuiltString ok (x.take n) :=
  fun b hb => h b (List.mem_of_mem_take hb)

theorem drop {x : List (SymByte F A)} (h : BuiltString ok x) (n : ℕ) :
    BuiltString ok (x.drop n) :=
  fun b hb => h b (List.mem_of_mem_drop hb)

theorem lits (bs : List UInt8) : BuiltString ok (ByteString.lits bs) := by
  intro b hb
  obtain ⟨c, -, rfl⟩ := List.mem_map.mp hb
  exact .lit c

theorem atoms (a : A) (n : ℕ) : BuiltString ok (Symbolic.atoms (F := F) a n).toList := by
  intro b hb
  obtain ⟨i, -, rfl⟩ := mem_atoms.mp hb
  exact .atom a i

theorem out {f : F} {args : List (List (SymByte F A))} (n : ℕ) (hok : ok f args)
    (hargs : ∀ x ∈ args, BuiltString ok x) : BuiltString ok (out f args n).toList := by
  intro b hb
  obtain ⟨i, -, rfl⟩ := mem_out.mp hb
  exact .app i hok hargs

theorem of_out {f : F} {args : List (List (SymByte F A))} {n : ℕ} (hn : 0 < n)
    (h : BuiltString ok (Symbolic.out f args n).toList) :
    ok f args ∧ ∀ x ∈ args, BuiltString ok x := by
  cases h _ (mem_out.mpr ⟨0, hn, rfl⟩) with
  | app _ hok hargs => exact ⟨hok, hargs⟩

end BuiltString
end EvnxCrypto.Symbolic
