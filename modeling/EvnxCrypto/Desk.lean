import EvnxCrypto.ErrorContract
import EvnxCrypto.Refusals
import EvnxCrypto.WireLengths

/-!
# The ledger as a basis for flows

A desk is a ledger together with the vault keys drawn so far. It allows an answer
when the ledger does, when the answer has the form every answer has, when an error
has its reason, when nothing handed out comes to stand for two things and when a
drawn key is new. The native interface simulates it wherever no draw repeats and no
two HKDF inputs collide.
-/
namespace EvnxCrypto
open Effect ByteString AuthenticatedEncryption

variable {B : Type}

/-- Nothing handed out stands for two things. -/
structure Ledger.OneMeaning (L : Ledger B) : Prop where
  vaults : ∀ e ∈ L.vaults, ∀ e' ∈ L.vaults, e.blob = e'.blob → e = e'
  keys : ∀ r r' a, (r, a) ∈ L.keys → (r', a) ∈ L.keys → r = r'

structure Desk (B : Type) where
  ledger : Ledger B
  drawn : Set (VaultKey B)

namespace Desk

def empty : Desk B := ⟨.empty, ∅⟩

def next (D : Desk B) {β : Type} : Api B β → Result β → Desk B
  | .generateVaultKey, .ok key => { D with drawn := insert key D.drawn }
  | call, x => { D with ledger := D.ledger.next call x }

/-- What is on record stays on record. -/
structure Grows (D D' : Desk B) : Prop where
  vaults : D.ledger.vaults ⊆ D'.ledger.vaults
  keys : D.ledger.keys ⊆ D'.ledger.keys
  drawn : D.drawn ⊆ D'.drawn

theorem Grows.refl (D : Desk B) : D.Grows D :=
  ⟨subset_rfl, subset_rfl, subset_rfl⟩

theorem Grows.trans {D D' D'' : Desk B} (h : D.Grows D') (h' : D'.Grows D'') : D.Grows D'' :=
  ⟨h.vaults.trans h'.vaults, h.keys.trans h'.keys, h.drawn.trans h'.drawn⟩

/-- A desk that calls lead to. -/
structure Leads (D D' : Desk B) : Prop extends D.Grows D' where
  oneMeaning : D'.ledger.OneMeaning

theorem Leads.refl {D : Desk B} (h : D.ledger.OneMeaning) : D.Leads D := ⟨.refl D, h⟩

theorem Leads.right {D D' : Desk B} (h : D.Leads D') : D'.Leads D' := .refl h.oneMeaning

theorem Leads.trans {D D' D'' : Desk B} (h : D.Leads D') (h' : D'.Leads D'') : D.Leads D'' :=
  ⟨h.toGrows.trans h'.toGrows, h'.oneMeaning⟩

theorem grows_next (D : Desk B) {β : Type} (call : Api B β) (x : Result β) :
    D.Grows (D.next call x) := by
  cases x with
  | ok a =>
      cases call with
      | encryptVault => exact ⟨Set.subset_insert _ _, subset_rfl, subset_rfl⟩
      | reencryptVault => exact ⟨Set.subset_union_left, subset_rfl, subset_rfl⟩
      | wrapVaultKeyWithMasterKey => exact ⟨subset_rfl, Set.subset_insert _ _, subset_rfl⟩
      | encryptPrivateKey => exact ⟨subset_rfl, Set.subset_insert _ _, subset_rfl⟩
      | wrapVaultKeyForUser => exact ⟨subset_rfl, Set.subset_insert _ _, subset_rfl⟩
      | generateVaultKey => exact ⟨subset_rfl, subset_rfl, Set.subset_insert _ _⟩
      | _ => exact .refl D
  | err e => cases call <;> exact .refl D
  | panic => cases call <;> exact .refl D

/-- A drawn vault key is not one of those drawn before. -/
def KeyIsNew (D : Desk B) : {β : Type} → Api B β → Result β → Prop
  | _, .generateVaultKey, x => ∃ key, x = .ok key ∧ key ∉ D.drawn
  | _, _, _ => True

variable [Byte B]

structure Allows (P : Crates B) (D : Desk B) {β : Type} (call : Api B β) (x : Result β) :
    Prop where
  within : x.Within call.Raises
  ledger : D.ledger.allows P call x
  answers : call.Answers P x
  refused : ∀ e, x = .err e → call.RefusedFor P e
  oneMeaning : (D.next call x).ledger.OneMeaning
  keyIsNew : D.KeyIsNew call x

def monitor (P : Crates B) : Monitor (Api B) CryptoError where
  State := Desk B
  allows D _ call x := D.Allows P call x
  next D _ call x := D.next call x

variable {P : Crates B} {D : Desk B} {β : Type} {call : Api B β} {x : Result β}

theorem Allows.leads (h : D.Allows P call x) : D.Leads ((monitor P).next D call x) :=
  ⟨D.grows_next call x, h.oneMeaning⟩

/-- What a flow ensures from a desk on. -/
def Runs (P : Crates B) (D : Desk B) (x : Flow (Api B) CryptoError β) (done : β → Desk B → Prop)
    (fail : Option CryptoError → Prop) : Prop :=
  x.Along (monitor P) Desk.Leads done fail D

namespace Runs
variable {α : Type} {done : β → Desk B → Prop} {fail : Option CryptoError → Prop}

theorem pure {b : β} (hone : D.ledger.OneMeaning) (h : done b D) :
    D.Runs P (Pure.pure b) done fail :=
  ⟨.refl hone, h⟩

/-- A call does what the desk allows. -/
theorem of_call (c : Api B β)
    (hdone : ∀ a, D.Allows P c (.ok a) → done a (D.next c (.ok a)))
    (hfail : ∀ e, D.Allows P c (.err e) → fail (some e)) :
    D.Runs P (Flow.call c) done fail := by
  refine Flow.ensures_call.mpr ?_
  intro x hx
  cases x with
  | ok a => exact ⟨hx.leads, hdone a hx⟩
  | err e => exact ⟨hx.leads, hfail e hx⟩
  | panic => exact hx.within.elim

theorem bind {x : Flow (Api B) CryptoError α} {f : α → Flow (Api B) CryptoError β}
    {before : α → Desk B → Prop} (hx : D.Runs P x before fail)
    (hf : ∀ a D', D.Leads D' → before a D' → D'.Runs P (f a) done fail) :
    D.Runs P (x >>= f) done fail :=
  Flow.Along.bind (M := monitor P) Desk.Leads (fun _ _ _ => Desk.Leads.trans) hx hf

theorem lift_bind {x : Result α} {a : α} {f : α → Flow (Api B) CryptoError β} (hx : x = .ok a)
    (h : D.Runs P (f a) done fail) : D.Runs P (Flow.lift x >>= f) done fail := by
  rw [hx]
  exact h

theorem call_bind {c : Api B α} {f : α → Flow (Api B) CryptoError β}
    (hok : ∀ a, D.Allows P c (.ok a) → (D.next c (.ok a)).Runs P (f a) done fail)
    (herr : ∀ e, D.Allows P c (.err e) → fail (some e)) :
    D.Runs P (Flow.call c >>= f) done fail := by
  have hcall : D.Runs P (Flow.call c) (fun a D' => D'.Runs P (f a) done fail) fail :=
    of_call c hok herr
  exact hcall.bind fun _ _ _ h => h

/-- A drawn key is a new one. -/
theorem draw_bind {f : VaultKey B → Flow (Api B) CryptoError β}
    (hkey : ∀ key, key ∉ D.drawn → D.Leads { D with drawn := insert key D.drawn } →
      Runs P { D with drawn := insert key D.drawn } (f key) done fail) :
    D.Runs P (Flow.call .generateVaultKey >>= f) done fail := by
  refine call_bind ?_ fun e he => (he.within.elim id id).elim
  intro key h
  obtain ⟨_, hok, hnew⟩ := h.keyIsNew
  cases hok
  exact hkey key hnew h.leads

theorem mono {x : Flow (Api B) CryptoError β} {done' : β → Desk B → Prop}
    {fail' : Option CryptoError → Prop} (h : D.Runs P x done fail)
    (hdone : ∀ b D', D.Leads D' → done b D' → done' b D') (hfail : ∀ e, fail e → fail' e) :
    D.Runs P x done' fail' :=
  Flow.Along.mono h hdone hfail

theorem traverse {f : α → Flow (Api B) CryptoError β} {rel : Desk B → α → β → Prop} {as : List α}
    (hmono : ∀ ⦃D D' a b⦄, Desk.Leads D D' → rel D a b → rel D' a b) (hone : D.ledger.OneMeaning)
    (hstep : ∀ a ∈ as, ∀ D', D.Leads D' → D'.Runs P (f a) (fun b D'' => rel D'' a b) fail) :
    D.Runs P (Flow.traverse f as) (fun bs D' => List.Forall₂ (rel D') as bs) fail :=
  Flow.Along.traverse (M := monitor P) Desk.Leads (fun _ _ => Desk.Leads.right)
    (fun _ _ _ => Desk.Leads.trans) hmono (.refl hone) hstep

end Runs
end Desk

variable [Byte B] {P : Crates B} {S : SrpClient B}

/-- The world behind a desk. -/
structure Desk.Describes (D : Desk B) (w : World P) : Prop where
  ledger : D.ledger.Describes w
  drawn : ∀ key ∈ D.drawn, key.expose.toList ∈ w.drawn.map Draw.bytes

namespace Desk.Describes
variable {D : Desk B} {w : World P}

theorem init (tape : ℕ → Purpose → (n : ℕ) → List.Vector B n) :
    Desk.empty.Describes (World.init P tape) :=
  ⟨.init tape, fun _ h => h.elim⟩

theorem drawn_mono (h : D.Describes w) {w' : World P} (hext : w.Extends w') (key : VaultKey B)
    (hkey : key ∈ D.drawn) : key.expose.toList ∈ w'.drawn.map Draw.bytes :=
  (hext.drawn.map _).subset (h.drawn key hkey)

variable [DecidableEq B]

theorem next (h : D.Describes w) (hideal : P.Idealised) {β : Type} (call : Api B β) :
    (D.next call (Api.call P S β call w).1).Describes (Api.call P S β call w).2 := by
  have hledger := h.ledger.next (S := S) hideal call
  have hdrawn := h.drawn_mono (Api.call_extends (S := S) call w)
  cases call with
  | generateVaultKey =>
      refine ⟨hledger, ?_⟩
      intro key hkey
      rcases Set.mem_insert_iff.mp hkey with rfl | hkey
      · exact List.mem_cons_self
      · exact hdrawn key hkey
  | _ => exact ⟨hledger, hdrawn⟩

theorem keyIsNew (h : D.Describes w) {β : Type} (call : Api B β)
    (hfresh : (Api.call P S β call w).2.Fresh) : D.KeyIsNew call (Api.call P S β call w).1 := by
  cases call with
  | generateVaultKey =>
      refine ⟨_, rfl, ?_⟩
      intro hkey
      exact (List.nodup_cons.mp hfresh).1 (h.drawn _ hkey)
  | _ => exact trivial

theorem allowed (h : D.Describes w) (hideal : P.Idealised) {β : Type} (call : Api B β)
    (hfree : (Api.call P S β call w).2.CollisionFree) (hfresh : (Api.call P S β call w).2.Fresh) :
    D.Allows P call (Api.call P S β call w).1 := by
  have hnext := h.next (S := S) hideal call
  constructor
  · exact Api.call_within (fun _ he => .inl he) (.inr fun _ he => .inr he)
  · exact h.ledger.allowed hideal call hfree
  · exact Api.call_answers (fun c => (hideal.aead c).tagLength) call w
  · exact fun e he => Api.call_refused he
  · obtain ⟨hvaults, hkeys⟩ := hnext.ledger.unique hfresh
    exact ⟨hvaults, hkeys⟩
  · exact h.keyIsNew call hfresh

end Desk.Describes

variable [DecidableEq B]

/-- Where no draw repeats and no two HKDF inputs collide. -/
structure World.Sound (w : World P) : Prop where
  collisionFree : w.CollisionFree
  fresh : w.Fresh

omit [Byte B] [DecidableEq B] in
theorem World.Sound.of_extends {w w' : World P} (h : w.Extends w') (hw : w'.Sound) : w.Sound :=
  ⟨.of_extends h hw.collisionFree, .of_extends h hw.fresh⟩

theorem Desk.simulation (hideal : P.Idealised) :
    Monitor.Simulation (Desk.monitor P) (Api.call P S) World.Sound
      fun (D : Desk B) w => D.Describes w where
  good_before _ call w hw := hw.of_extends (Api.call_extends call w)
  allowed h _ call hw := h.allowed hideal call hw.collisionFree hw.fresh
  preserved h _ call := h.next hideal call

end EvnxCrypto
