import EvnxCrypto.ActiveServer
import EvnxCrypto.Flow

/-!
# Flows of clients that are served

A flow plays by the rules when each of its calls is one that clients make. What it
leaves is then a state that clients of an active server reach, and nothing that was
held or sent before is lost.
-/
namespace EvnxCrypto
open Effect ByteString AuthenticatedEncryption Symbolic Classical

namespace ServedClients

/-! ## Nothing is lost -/

structure Grows (s s' : ServedClients) : Prop where
  sent : s.sent ⊆ s'.sent
  masterKeys : s.masterKeys ⊆ s'.masterKeys
  keypairs : s.keypairs ⊆ s'.keypairs
  vaultKeys : s.vaultKeys ⊆ s'.vaultKeys

variable {s s' s'' : ServedClients}

theorem Grows.refl (s : ServedClients) : s.Grows s :=
  ⟨List.Subset.refl _, List.Subset.refl _, List.Subset.refl _, List.Subset.refl _⟩

theorem Grows.trans (h : s.Grows s') (h' : s'.Grows s'') : s.Grows s'' :=
  ⟨List.Subset.trans h.sent h'.sent, List.Subset.trans h.masterKeys h'.masterKeys,
    List.Subset.trans h.keypairs h'.keypairs, List.Subset.trans h.vaultKeys h'.vaultKeys⟩

theorem Grows.computes (h : s.Grows s') {x : SString} (hx : s.Computes x) : s'.Computes x :=
  hx.mono fun _ hy => h.sent hy

theorem grows_send (s : ServedClients) (xs : List SString) : s.Grows (s.send xs) :=
  { Grows.refl s with sent := List.subset_append_right _ _ }

theorem grows_takeOver (s : ServedClients) (key : VaultKey SByte) : s.Grows (s.takeOver key) := by
  unfold takeOver
  split
  · exact { Grows.refl s with vaultKeys := List.subset_cons_self _ _ }
  · exact { Grows.refl s with }

theorem grows_next (s : ServedClients) {β : Type} (call : Api SByte β) (x : Result β) :
    s.Grows (s.next call x) := by
  cases x with
  | ok a =>
      cases call with
      | deriveMasterKey => exact { Grows.refl s with masterKeys := List.subset_cons_self _ _ }
      | generateVaultKey => exact { Grows.refl s with vaultKeys := List.subset_cons_self _ _ }
      | generateKeypair =>
          exact {
            sent := List.subset_append_right _ _
            masterKeys := List.Subset.refl _
            keypairs := List.subset_cons_self _ _
            vaultKeys := List.Subset.refl _ }
      | decryptPrivateKey => exact { Grows.refl s with keypairs := List.subset_cons_self _ _ }
      | unwrapVaultKeyWithMasterKey | unwrapVaultKey => exact s.grows_takeOver _
      | generateSalt | encryptVault | reencryptVault | wrapVaultKeyWithMasterKey
        | encryptPrivateKey | wrapVaultKeyForUser | computeVerifier => exact s.grows_send _
      | _ => exact Grows.refl s
  | err e => cases call <;> exact Grows.refl s
  | panic => cases call <;> exact Grows.refl s

theorem Step.grows {S : SrpClient SByte} (h : Step S s s') : s.Grows s' := by
  cases h with
  | ask call _ =>
      have hnext := s.grows_next call (Api.call symbolicCrates S _ call s.world).1
      exact ⟨hnext.sent, hnext.masterKeys, hnext.keypairs, hnext.vaultKeys⟩

/-! ## Flows that play by the rules -/

section
variable (S : SrpClient SByte)

/-- The calls as the crates answer them. -/
noncomputable def monitor : Monitor (Api SByte) CryptoError where
  State := ServedClients
  allows s β call x := x = (Api.call symbolicCrates S β call s.world).1
  next s β call x := (s.next call x).moveTo (Api.call symbolicCrates S β call s.world).2

/-- The second state is one that steps lead to. -/
def Leads : ServedClients → ServedClients → Prop := Relation.ReflTransGen (Step S)

/-- The calls of a flow are steps, and a value it ends in meets the postcondition. -/
def Plays {β : Type} (s : ServedClients) (x : Flow (Api SByte) CryptoError β)
    (done : β → ServedClients → Prop) : Prop :=
  x.Along (monitor S) (Leads S) done (fun _ => True) s

end

variable {S : SrpClient SByte}

theorem Leads.grows (h : Leads S s s') : s.Grows s' := by
  induction h with
  | refl => exact Grows.refl s
  | tail _ hstep ih => exact ih.trans hstep.grows

theorem Leads.trans (h : Leads S s s') (h' : Leads S s' s'') : Leads S s s'' :=
  Relation.ReflTransGen.trans h h'

theorem Leads.guarded (h : Leads S s s') (hs : s.Guarded) : s'.Guarded := by
  induction h with
  | refl => exact hs
  | tail _ hstep ih => exact ih.step hstep

namespace Plays
variable {α β : Type} {done : β → ServedClients → Prop}

theorem pure {b : β} (h : done b s) : s.Plays S (Pure.pure b) done := ⟨.refl, h⟩

theorem of_call {c : Api SByte β} (hask : s.Asks c)
    (hdone : ∀ a w, Api.call symbolicCrates S β c s.world = (.ok a, w) →
      done a ((s.next c (.ok a)).moveTo w)) : s.Plays S (Flow.call c) done := by
  refine Flow.ensures_call.mpr ?_
  intro x hx
  have hleads : Leads S s ((monitor S).next s c x) := by
    rw [show x = _ from hx]
    exact .single (.ask c hask)
  cases x with
  | ok a => exact ⟨hleads, hdone a _ (Prod.ext hx.symm rfl)⟩
  | err e => exact ⟨hleads, trivial⟩
  | panic => exact ⟨hleads, trivial⟩

theorem bind {x : Flow (Api SByte) CryptoError α} {f : α → Flow (Api SByte) CryptoError β}
    {before : α → ServedClients → Prop} (hx : s.Plays S x before)
    (hf : ∀ a s', Leads S s s' → before a s' → s'.Plays S (f a) done) :
    s.Plays S (x >>= f) done :=
  Flow.Along.bind (M := monitor S) (Leads S) (fun _ _ _ => Leads.trans) hx hf

theorem lift_bind {x : Result α} {f : α → Flow (Api SByte) CryptoError β}
    (h : ∀ a, x = .ok a → s.Plays S (f a) done) : s.Plays S (Flow.lift x >>= f) done := by
  cases x with
  | ok a => exact h a rfl
  | err e => exact ⟨.refl, trivial⟩
  | panic => exact ⟨.refl, trivial⟩

theorem call_bind {c : Api SByte α} {f : α → Flow (Api SByte) CryptoError β} (hask : s.Asks c)
    (hf : ∀ a w, Api.call symbolicCrates S α c s.world = (.ok a, w) →
      ∀ s', s' = (s.next c (.ok a)).moveTo w → Leads S s s' → s'.Plays S (f a) done) :
    s.Plays S (Flow.call c >>= f) done := by
  have hcall : s.Plays S (Flow.call c) fun a s' => ∃ w,
      Api.call symbolicCrates S α c s.world = (.ok a, w) ∧ s' = (s.next c (.ok a)).moveTo w :=
    of_call hask fun a w h => ⟨w, h, rfl⟩
  refine hcall.bind ?_
  intro a s' hleads ha
  obtain ⟨w, hw, hs'⟩ := ha
  exact hf a w hw s' hs' hleads

theorem salt_bind {f : List.Vector SByte SALT_LEN → Flow (Api SByte) CryptoError β}
    (hf : ∀ salt s', Leads S s s' → salt.toList ∈ s'.sent → s'.Plays S (f salt) done) :
    s.Plays S (Flow.call .generateSalt >>= f) done := by
  refine call_bind trivial ?_
  intro salt w _ s' hs' hleads
  refine hf salt s' hleads ?_
  rw [hs']
  exact List.mem_cons_self

theorem masterKey_bind {password : SString} {salt : List.Vector SByte SALT_LEN}
    (hpassword : password ∈ passwords) (hsalt : s.Computes salt.toList)
    {f : MasterKey SByte → Flow (Api SByte) CryptoError β}
    (hf : ∀ masterKey s', Leads S s s' → masterKey ∈ s'.masterKeys →
      s'.Plays S (f masterKey) done) :
    s.Plays S (Flow.call (.deriveMasterKey password salt) >>= f) done := by
  refine call_bind ⟨hpassword, hsalt⟩ ?_
  intro masterKey w _ s' hs' hleads
  refine hf masterKey s' hleads ?_
  rw [hs']
  exact List.mem_cons_self

/-- A key that is drawn is held. -/
theorem draw_bind {f : VaultKey SByte → Flow (Api SByte) CryptoError β}
    (hf : ∀ key s', Leads S s s' → key ∈ s'.vaultKeys → s'.Plays S (f key) done) :
    s.Plays S (Flow.call .generateVaultKey >>= f) done := by
  refine call_bind trivial ?_
  intro key w _ s' hs' hleads
  refine hf key s' hleads ?_
  rw [hs']
  exact List.mem_cons_self

theorem traverse {f : α → Flow (Api SByte) CryptoError β}
    {rel : ServedClients → α → β → Prop} {as : List α}
    (hmono : ∀ ⦃s s' a b⦄, Leads S s s' → rel s a b → rel s' a b)
    (hstep : ∀ a ∈ as, ∀ s', Leads S s s' → s'.Plays S (f a) fun b s'' => rel s'' a b) :
    s.Plays S (Flow.traverse f as) fun bs s' => List.Forall₂ (rel s') as bs :=
  Flow.Along.traverse (M := monitor S) (Leads S) (fun _ _ _ => Relation.ReflTransGen.refl)
    (fun _ _ _ => Leads.trans) hmono .refl hstep

end Plays

/-- The crates run a flow as the rules have it. -/
theorem simulation (S : SrpClient SByte) :
    Monitor.Simulation (monitor S) (Api.call symbolicCrates S) (fun _ => True)
      fun (s : ServedClients) w => s.world = w where
  good_before _ _ _ _ := trivial
  allowed := by
    intro s w hworld β call _
    cases hworld
    rfl
  preserved := by
    intro s w hworld β call
    cases hworld
    rfl

end ServedClients
end EvnxCrypto
