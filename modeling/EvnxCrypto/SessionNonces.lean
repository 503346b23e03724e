import EvnxCrypto.Nonces
import EvnxCrypto.Sessions

/-!
# Nonces of whole sessions

That no nonce is used twice holds of every sequence of calls, the opening ones and
the draws for other purposes included, and so of every session of mixed clients.
-/
namespace EvnxCrypto
open Effect ByteString AuthenticatedEncryption Wasm

variable {B T : Type} {P : Crates B} {S : SrpClient B}

theorem World.NoncesDrawn.frame {w w' : World P} (h : w.NoncesDrawn) (hframe : w.Frames w') :
    w'.NoncesDrawn := by
  unfold World.NoncesDrawn
  rw [hframe.encryptions]
  exact h.trans (hframe.extends'.drawn.map _).sublist

theorem World.NoncesDrawn.step {w w' : World P} {x : Result (EncryptionAnswer B)}
    (h : w.NoncesDrawn) (hstep : EncryptionStep w x w') : w'.NoncesDrawn := by
  cases hstep with
  | sealed _ _ _ _ encrypts => exact h.encrypts encrypts
  | refused _ _ _ encrypts => exact h.encrypts encrypts
  | failed _ _ encryptions hext =>
      unfold World.NoncesDrawn
      rw [encryptions]
      exact h.trans (hext.drawn.map _).sublist

variable [Byte B]

variable [DecidableEq B]

theorem World.NoncesDrawn.api {β : Type} (call : Api B β) {w : World P} (h : w.NoncesDrawn) :
    (Api.call P S β call w).2.NoncesDrawn := by
  cases Api.call_moves (S := S) call w with
  | frame hframe => exact h.frame hframe
  | vault p vk aad hw =>
      rw [hw]
      have hstep := h.step (EncryptionRequest.call_step (.encryptVault p vk aad) w)
      rwa [EncryptionRequest.call, Run.bind_pure_snd] at hstep
  | key r hw =>
      rw [hw]
      have hstep := h.step (EncryptionRequest.call_step (.key r) w)
      rwa [EncryptionRequest.call, Run.bind_pure_snd] at hstep

/-- In any session of mixed clients, while the generator does not repeat itself, no two
encryptions are given one key and one nonce. -/
theorem session_encryptions_nodup {α : Type} (base64 hex : Codec (List B) T) (S : SrpClient B)
    (tape : ℕ → Purpose → (n : ℕ) → List.Vector B n)
    (t : Interaction (ClientCall B T) JsError α) {w : World P}
    (hw : w = t.final (clients P S base64 hex) (World.init P tape)) (hfresh : w.Fresh) :
    (w.encryptions.map fun e => (e.key, e.nonce)).Nodup := by
  have hstart : (World.init P tape).NoncesDrawn := List.Sublist.slnil
  rw [← (Interaction.compile_correct clients_implemented t _).2] at hw
  have hdrawn : w.NoncesDrawn := by
    rw [hw]
    exact Interaction.invariant (Q := fun _ (u : World P) => u.NoncesDrawn) hstart
      (fun _ _ _ call h => h.api call) _
  exact hdrawn.nodup hfresh

/-! ## One note, sealed, tested and moved by both clients -/

section
open Octet

/-- The generator that counts: its n-th draw is all `n`. -/
def countingTape (i : ℕ) (_ : Purpose) (n : ℕ) : List.Vector UInt8 n :=
  List.Vector.replicate n (UInt8.ofNat i)

def otherKey : VaultKey UInt8 := ⟨List.Vector.replicate VAULT_KEY_LEN 8⟩

/-- Seals a note in the browser, lets it test itself, moves the note natively to another
key and wraps that key. -/
def sealTestMove : Interaction (ClientCall UInt8 String) JsError (Outcome JsError (List UInt8)) :=
  .ask (.browser, .encryptVault note noteKey "team" 3) fun
    | .ok bytes =>
        .ask (.browser, .aadSelfTest "team" 3) fun _ =>
          if h : NONCE_LEN ≤ bytes.length then
            .ask (.native, .reencryptVault (splitBlob bytes h) noteKey otherKey "team" 3) fun _ =>
              .ask (.native, .wrapVaultKey otherKey ⟨List.Vector.replicate MASTER_KEY_LEN 1⟩) .done
          else .done (.ok [])
    | _ => .done (.ok [])

def sealTestMoveEnd : World (crates group23) :=
  sealTestMove.final (clients (crates group23) (srpClient group23) Base64.codec Hex.codec)
    (World.init _ countingTape)

theorem session_encryptions_nodup_sealTestMove :
    sealTestMoveEnd.encryptions.length = 4 ∧
      (sealTestMoveEnd.encryptions.map fun e => (e.key, e.nonce)).Nodup := by
  have hfresh : sealTestMoveEnd.Fresh := by
    unfold World.Fresh
    decide +kernel
  exact ⟨by decide +kernel, session_encryptions_nodup Base64.codec Hex.codec (srpClient group23)
    countingTape sealTestMove rfl hfresh⟩

end
end EvnxCrypto
