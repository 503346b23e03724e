import EvnxCrypto.Interaction

/-!
# Flows and their proof rules

A flow is an interaction that ends in an outcome; flows compose as programs with
errors do. What a flow ensures is judged against a monitor: its ends must meet the
postconditions after every answer the monitor allows. Where a handler simulates the
monitor, whatever is ensured holds under the handler.
-/
namespace EvnxCrypto.Effect

/-- An interaction that ends in a value, an error or a panic. -/
def Flow (I : Type → Type) (ε α : Type) : Type 1 := Interaction I ε (Outcome ε α)

namespace Outcome
variable {ε α β : Type}

/-- Values meet one condition and failures another; a panic is a failure without error. -/
def Meets (done : α → Prop) (fail : Option ε → Prop) : Outcome ε α → Prop
  | .ok a => done a
  | .err e => fail (some e)
  | .panic => fail none

theorem Meets.mono {done done' : α → Prop} {fail fail' : Option ε → Prop} {x : Outcome ε α}
    (h : x.Meets done fail) (hdone : ∀ a, done a → done' a) (hfail : ∀ e, fail e → fail' e) :
    x.Meets done' fail' := by
  cases x with
  | ok a => exact hdone a h
  | err e => exact hfail (some e) h
  | panic => exact hfail none h

end Outcome

namespace Flow
variable {I : Type → Type} {ε α β : Type}

def call (c : I α) : Flow I ε α := Interaction.ask c .done

/-- A step that makes no call. -/
def lift (x : Outcome ε α) : Flow I ε α := Interaction.done x

protected def bind (x : Flow I ε α) (f : α → Flow I ε β) : Flow I ε β :=
  Interaction.bind x fun
    | .ok a => f a
    | .err e => .done (.err e)
    | .panic => .done .panic

instance : Monad (Flow I ε) where
  pure a := lift (.ok a)
  bind := Flow.bind

/-- A flow for each item in turn; the results are returned in order. -/
def traverse (f : α → Flow I ε β) : List α → Flow I ε (List β)
  | [] => pure []
  | a :: as => do
      let b ← f a
      let bs ← traverse f as
      pure (b :: bs)

/-- Under a handler the flow ends in a value. -/
def Ends {σ : Type} (handle : Handler I σ ε) (x : Flow I ε α) (s : σ) (a : α) (s' : σ) : Prop :=
  Interaction.toRun handle x s = (.ok a, s')

namespace Ends
variable {σ : Type} {handle : Handler I σ ε} {s s' s'' : σ} {a : α} {b : β}

theorem pure : (Pure.pure a : Flow I ε α).Ends handle s a s := rfl

theorem call {c : I α} (h : handle α c s = (.ok a, s')) : (Flow.call c).Ends handle s a s' := h

theorem lift {x : Outcome ε α} (h : x = .ok a) : (Flow.lift x).Ends handle s a s :=
  congrArg (Prod.mk · s) h

theorem bind {x : Flow I ε α} {f : α → Flow I ε β} (hx : x.Ends handle s a s')
    (hf : (f a).Ends handle s' b s'') : (x >>= f).Ends handle s b s'' := by
  obtain ⟨hresult, hfinal⟩ := Prod.ext_iff.mp hx
  change x.result handle s = .ok a at hresult
  change x.final handle s = s' at hfinal
  refine Prod.ext ((Interaction.result_bind x _ s).trans ?_)
    ((Interaction.final_bind x _ s).trans ?_)
  · rw [hresult, hfinal]
    exact congrArg Prod.fst hf
  · rw [hresult, hfinal]
    exact congrArg Prod.snd hf

end Ends
end Flow

/-! ## What a flow ensures -/

namespace Monitor
variable {I : Type → Type} {σ ε α β : Type}

/-- Every end that the allowed answers lead to meets the postcondition. -/
def Always (M : Monitor I ε) : Interaction I ε α → (α → M.State → Prop) → M.State → Prop
  | .done result, post, m => post result m
  | .ask call next, post, m =>
      ∀ x, M.allows m call x → M.Always (next x) post (M.next m call x)

variable {M : Monitor I ε}

theorem always_bind (t : Interaction I ε α) (f : α → Interaction I ε β)
    (post : β → M.State → Prop) (m : M.State) :
    M.Always (t.bind f) post m ↔ M.Always t (fun a => M.Always (f a) post) m := by
  induction t generalizing m with
  | done result => rfl
  | ask call next ih =>
      simp only [Interaction.bind, Always]
      exact forall_congr' fun x => forall_congr' fun _ => ih x _

theorem Always.mono {t : Interaction I ε α} {post post' : α → M.State → Prop} {m : M.State}
    (h : M.Always t post m) (himp : ∀ a m', post a m' → post' a m') : M.Always t post' m := by
  induction t generalizing m with
  | done result => exact himp result m h
  | ask call next ih => exact fun x hx => ih x (h x hx)

variable {handle : Handler I σ ε} {good : σ → Prop} {R : M.State → σ → Prop}

/-- What holds after all allowed answers holds under a handler that simulates the monitor. -/
theorem Simulation.always (h : Simulation M handle good R) {t : Interaction I ε α}
    {post : α → M.State → Prop} {m : M.State} {s : σ} (hR : R m s)
    (hgood : good (t.final handle s)) (hpost : M.Always t post m) :
    ∃ m', R m' (t.final handle s) ∧ post (t.result handle s) m' := by
  induction t generalizing m s with
  | done result => exact ⟨m, hR, hpost⟩
  | ask call next ih =>
      have hallowed := h.allowed hR _ call (h.good_of_final (next _) hgood)
      exact ih _ (h.preserved hR _ call) hgood (hpost _ hallowed)

end Monitor

namespace Flow
variable {I : Type → Type} {σ ε α β γ : Type} (M : Monitor I ε)

/-- Values and failures meet their postconditions, whatever allowed answers are given. -/
def Ensures (x : Flow I ε α) (done : α → M.State → Prop) (fail : Option ε → M.State → Prop)
    (m : M.State) : Prop :=
  M.Always x (fun o m' => o.Meets (done · m') (fail · m')) m

variable {M} {done : β → M.State → Prop} {fail : Option ε → M.State → Prop} {m : M.State}

theorem ensures_pure {b : β} : (pure b : Flow I ε β).Ensures M done fail m ↔ done b m := Iff.rfl

theorem ensures_call {c : I β} : (call c).Ensures M done fail m ↔
    ∀ x, M.allows m c x → x.Meets (done · (M.next m c x)) (fail · (M.next m c x)) := Iff.rfl

/-- A failure of the first flow is a failure of both. -/
theorem ensures_bind {x : Flow I ε α} {f : α → Flow I ε β} :
    (x >>= f).Ensures M done fail m ↔
      x.Ensures M (fun a => (f a).Ensures M done fail) fail m := by
  refine (Monitor.always_bind x _ _ m).trans ?_
  constructor
  · intro h
    apply h.mono
    rintro (a | e | _) m' ho <;> exact ho
  · intro h
    apply h.mono
    rintro (a | e | _) m' ho <;> exact ho

theorem Ensures.mono {x : Flow I ε β} {done' : β → M.State → Prop}
    {fail' : Option ε → M.State → Prop} (h : x.Ensures M done fail m)
    (hdone : ∀ b m', done b m' → done' b m') (hfail : ∀ e m', fail e m' → fail' e m') :
    x.Ensures M done' fail' m :=
  Monitor.Always.mono h fun _ m' ho => ho.mono (hdone · m') (hfail · m')

/-! ## Along an order of the specification's states -/

/-- What a flow ensures while the state of the specification moves up an order. -/
def Along (M : Monitor I ε) (le : M.State → M.State → Prop) (x : Flow I ε β)
    (done : β → M.State → Prop) (fail : Option ε → Prop) (m : M.State) : Prop :=
  x.Ensures M (fun b m' => le m m' ∧ done b m') (fun e m' => le m m' ∧ fail e) m

namespace Along
variable {le : M.State → M.State → Prop} {fail : Option ε → Prop}

theorem mono {x : Flow I ε β} {done' : β → M.State → Prop} {fail' : Option ε → Prop}
    (h : x.Along M le done fail m) (hdone : ∀ b m', le m m' → done b m' → done' b m')
    (hfail : ∀ e, fail e → fail' e) : x.Along M le done' fail' m :=
  Ensures.mono h (fun b m' hb => ⟨hb.1, hdone b m' hb.1 hb.2⟩) fun e _ he => ⟨he.1, hfail e he.2⟩

theorem bind (le : M.State → M.State → Prop)
    (htrans : ∀ ⦃m m' m''⦄, le m m' → le m' m'' → le m m'') {x : Flow I ε α}
    {f : α → Flow I ε β} {before : α → M.State → Prop} (hx : x.Along M le before fail m)
    (hf : ∀ a m', le m m' → before a m' → (f a).Along M le done fail m') :
    (x >>= f).Along M le done fail m := by
  refine ensures_bind.mpr (Ensures.mono hx ?_ fun _ _ he => he)
  rintro a m' ⟨hle, ha⟩
  refine Ensures.mono (hf a m' hle ha) ?_ ?_
  · rintro b m'' ⟨hle', hb⟩
    exact ⟨htrans hle hle', hb⟩
  · rintro e m'' ⟨hle', he⟩
    exact ⟨htrans hle hle', he⟩

/-- A traversal ensures what each item does, for relations that the order keeps. -/
theorem traverse {f : α → Flow I ε β} (le : M.State → M.State → Prop)
    {rel : M.State → α → β → Prop} (hright : ∀ ⦃m m'⦄, le m m' → le m' m')
    (htrans : ∀ ⦃m m' m''⦄, le m m' → le m' m'' → le m m'')
    (hmono : ∀ ⦃m m' a b⦄, le m m' → rel m a b → rel m' a b) {as : List α} (hm : le m m)
    (hstep : ∀ a ∈ as, ∀ m', le m m' → (f a).Along M le (fun b m'' => rel m'' a b) fail m') :
    (Flow.traverse f as).Along M le (fun bs m' => List.Forall₂ (rel m') as bs) fail m := by
  induction as generalizing m with
  | nil => exact ensures_pure.mpr ⟨hm, .nil⟩
  | cons a as ih =>
      refine bind le htrans (hstep a List.mem_cons_self m hm) ?_
      intro b m₁ hle hrel
      refine bind le htrans (ih (hright hle) ?_) ?_
      · intro a' ha' m' hm'
        exact hstep a' (List.mem_cons_of_mem _ ha') m' (htrans hle hm')
      · intro bs m₂ hle' hrels
        exact ensures_pure.mpr ⟨hright hle', .cons (hmono hle' hrel) hrels⟩

end Along
end Flow
end EvnxCrypto.Effect
