import EvnxCrypto.Effect
import Mathlib.Data.List.Induction

/-!
# Runs of calls

A run makes one call after another from the state the last one left, whether or
not it succeeded, and keeps each request with its outcome. An invariant relates
what has been answered so far to the state reached.

Results that carry a tag from a source of fresh values can be told apart by it,
which `Tagged` follows along a run.
-/
namespace EvnxCrypto.Effect

variable {σ ε α ι : Type}

/-- The answered requests, oldest first, and the state after the last of them. -/
def transcript (call : ι → Run σ ε α) : List ι → σ → List (ι × Outcome ε α) × σ
  | [], s => ([], s)
  | i :: is, s =>
      let r := call i s
      let rest := transcript call is r.2
      ((i, r.1) :: rest.1, rest.2)

variable {call : ι → Run σ ε α}

theorem transcript_append (is js : List ι) (s : σ) :
    transcript call (is ++ js) s =
      ((transcript call is s).1 ++ (transcript call js (transcript call is s).2).1,
        (transcript call js (transcript call is s).2).2) := by
  induction is generalizing s with
  | nil => rfl
  | cons i is ih => simp only [List.cons_append, transcript, ih]

theorem transcript_concat (is : List ι) (i : ι) (s : σ) :
    transcript call (is ++ [i]) s =
      ((transcript call is s).1 ++ [(i, (call i (transcript call is s).2).1)],
        (call i (transcript call is s).2).2) :=
  transcript_append is [i] s

/-- What one call preserves, a whole run preserves. -/
theorem transcript_invariant {I : List (ι × Outcome ε α) → σ → Prop} {s : σ} (start : I [] s)
    (step : ∀ answered t i, I answered t → I (answered ++ [(i, (call i t).1)]) (call i t).2)
    (is : List ι) : I (transcript call is s).1 (transcript call is s).2 := by
  induction is using List.reverseRecOn with
  | nil => exact start
  | append_singleton is i ih =>
      rw [transcript_concat]
      exact step _ _ _ ih

/-- A relation every call keeps is kept by a whole run. -/
theorem transcript_rel {R : σ → σ → Prop} (hrefl : ∀ s, R s s)
    (htrans : ∀ {s t u}, R s t → R t u → R s u) (hcall : ∀ i s, R s (call i s).2)
    (is : List ι) (s : σ) : R s (transcript call is s).2 := by
  induction is generalizing s with
  | nil => exact hrefl s
  | cons i is ih => exact htrans (hcall i s) (ih _)

/-- The requests that were answered with a value. -/
def successes (answered : List (ι × Outcome ε α)) : List (ι × α) :=
  answered.filterMap fun x =>
    match x.2 with
    | .ok a => some (x.1, a)
    | _ => none

@[simp] theorem mem_successes {answered : List (ι × Outcome ε α)} {i : ι} {a : α} :
    (i, a) ∈ successes answered ↔ (i, .ok a) ∈ answered := by
  simp only [successes, List.mem_filterMap]
  constructor
  · intro h
    obtain ⟨⟨j, x⟩, hmem, heq⟩ := h
    cases x with
    | ok b =>
        cases heq
        exact hmem
    | err e => cases heq
    | panic => cases heq
  · intro h
    exact ⟨(i, .ok a), h, rfl⟩

theorem successes_concat_ok (answered : List (ι × Outcome ε α)) (i : ι) (a : α) :
    successes (answered ++ [(i, .ok a)]) = successes answered ++ [(i, a)] := by
  simp [successes]

theorem successes_concat_err (answered : List (ι × Outcome ε α)) (i : ι) (e : ε) :
    successes (answered ++ [(i, .err e)]) = successes answered := by
  simp [successes]

/-! ## Fresh tags -/

variable {β : Type} {tag : α → β} {xs : List α} {used used' : List β}

/-- Every tag has been used, and where no value was used twice a tag has one owner. -/
structure Tagged (tag : α → β) (xs : List α) (used : List β) : Prop where
  mem_used : ∀ x ∈ xs, tag x ∈ used
  once : used.Nodup → ∀ x ∈ xs, ∀ y ∈ xs, tag x = tag y → x = y

theorem Tagged.nil (tag : α → β) (used : List β) : Tagged tag [] used :=
  ⟨by simp, by simp⟩

theorem Tagged.mono (h : Tagged tag xs used) (hsuffix : used <:+ used') :
    Tagged tag xs used' :=
  ⟨fun x hx => hsuffix.subset (h.mem_used x hx),
    fun hnodup => h.once (hnodup.sublist hsuffix.sublist)⟩

/-- A new owner of the value just used. -/
theorem Tagged.insert (h : Tagged tag xs used) (hsuffix : used <:+ used') {x : α} {ys : List α}
    (hys : ∀ y ∈ ys, y = x ∨ y ∈ xs) : Tagged tag ys (tag x :: used') := by
  have hold : Tagged tag xs used' := h.mono hsuffix
  constructor
  · intro y hy
    rcases hys y hy with rfl | hy
    · exact List.mem_cons_self
    · exact List.mem_cons_of_mem _ (hold.mem_used y hy)
  · intro hnodup y hy z hz heq
    have hnew : tag x ∉ used' := (List.nodup_cons.mp hnodup).1
    have hrest : used'.Nodup := (List.nodup_cons.mp hnodup).2
    -- the new tag is not among the used ones, so it is on both sides or on neither
    rcases hys y hy with rfl | hy
    · rcases hys z hz with rfl | hz
      · rfl
      · exact (hnew (heq ▸ hold.mem_used z hz)).elim
    · rcases hys z hz with rfl | hz
      · exact (hnew (heq ▸ hold.mem_used y hy)).elim
      · exact hold.once hrest y hy z hz heq

theorem Tagged.concat (h : Tagged tag xs used) (hsuffix : used <:+ used') (x : α) :
    Tagged tag (xs ++ [x]) (tag x :: used') := by
  apply h.insert hsuffix
  intro y hy
  rw [List.mem_append, List.mem_singleton] at hy
  exact hy.symm

end EvnxCrypto.Effect
