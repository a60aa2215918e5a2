-- The current epoch of a manager is always loaded, and a proof of membership is
-- accepted exactly by the managers that hold its epoch with the same key.
import Mathlib.Logic.Function.Basic
import Marie.Secret.Manager

open Program
open Std (ExtTreeMap)

namespace marie.secret

variable {s s' m1 m2 : Inner} {op : Rotation} {e : Nat}

/-! ## The current epoch is loaded -/

def WellFormed (s : Inner) : Prop := s.current_epoch ∈ s.keys

theorem WellFormed.ne_empty (h : WellFormed s) : s.keys ≠ ∅ := by
  intro hempty
  unfold WellFormed at h
  rw [hempty] at h
  simp at h

theorem wellFormed_built {epochs : List (Nat × SecretKey)} {current : Nat}
    (h : with_epochs epochs current = .ok s) : WellFormed s := by
  unfold with_epochs at h
  dsimp only at h
  split at h
  · cases h
  · split at h
    · cases h
    · next hcontains =>
      cases h
      simpa [WellFormed] using hcontains

/-- Every operation leaves the current epoch loaded: it is switched to a loaded epoch only, and
never retired. -/
theorem WellFormed.rotated (h : WellFormed s) : WellFormed (exec op.call s).2 := by
  have hop := secret.rotated s op
  generalize (exec op.call s).1 = r at hop
  generalize (exec op.call s).2 = s' at hop ⊢
  cases hop with
  | added epoch key => exact ExtTreeMap.mem_insert.mpr (.inr h)
  | switched hloaded => exact hloaded
  | retired hother hmore =>
    refine ExtTreeMap.mem_erase.mpr ⟨?_, h⟩
    rw [Ne, Std.compare_eq_iff_eq]
    exact Ne.symm hother
  | unknown | current | last => exact h

theorem wellFormed_of_reachable (h : Reachable s) : WellFormed s := by
  induction h with
  | built h => exact wellFormed_built h
  | next op _ ih => exact ih.rotated

theorem WellFormed.key (h : WellFormed s) : ∃ key, s.keys[s.current_epoch]? = some key :=
  ⟨_, ExtTreeMap.getElem?_eq_some_getElem h⟩

/-! ## Proofs of membership -/

section Proofs

variable {Key Tag : Type} {crypto : Crypto Key Tag} {node_id : NodeId} {nonce : List UInt8}

/-- HKDF and HMAC are injective in the key. -/
structure Crypto.InjectiveKeys (crypto : Crypto Key Tag) : Prop where
  expand : ∀ info, Function.Injective fun key => crypto.expand key info
  mac : ∀ nonce, Function.Injective fun key => crypto.mac key nonce

theorem prove_membership_eq {key : SecretKey} (h : s.keys[s.current_epoch]? = some key) :
    exec (prove_membership crypto node_id nonce) s =
      (.ok (s.current_epoch, crypto.mac (crypto.expand key node_id.bytes) nonce), s) := by
  rw [prove_membership, current_epoch, exec_bind_ok (exec_asks _ _), derive_node_key_for_epoch,
    exec_bind_ok (derive_key_of_loaded h)]
  rfl

variable [DecidableEq Tag]

theorem verify_membership_of_loaded {key : SecretKey} (h : s.keys[e]? = some key) (proof : Tag) :
    exec (verify_membership crypto node_id nonce e proof) s =
      (.ok (decide (crypto.mac (crypto.expand key node_id.bytes) nonce = proof)), s) := by
  rw [verify_membership, exec_tryCatch, derive_node_key_for_epoch,
    exec_bind_ok (derive_key_of_loaded h)]
  rfl

/-- A proof under an epoch that is not loaded is refused without an error. -/
theorem verify_membership_of_unknown (h : s.keys[e]? = none) (proof : Tag) :
    exec (verify_membership crypto node_id nonce e proof) s = (.ok false, s) := by
  rw [verify_membership, exec_tryCatch, derive_node_key_for_epoch,
    exec_bind_error (derive_key_of_unknown h)]
  rfl

/-- A manager accepts the proof of another exactly when it holds the epoch of the proof with the
same key. -/
theorem verify_proof_iff (hkeys : crypto.InjectiveKeys) (h1 : WellFormed m1) :
    ∃ epoch proof, exec (prove_membership crypto node_id nonce) m1 = (.ok (epoch, proof), m1) ∧
      ∃ accepted, exec (verify_membership crypto node_id nonce epoch proof) m2 =
        (.ok accepted, m2) ∧
        (accepted = true ↔ ∃ key, m1.keys[epoch]? = some key ∧ m2.keys[epoch]? = some key) := by
  obtain ⟨key, hkey⟩ := h1.key
  refine ⟨_, _, prove_membership_eq hkey, ?_⟩
  cases hkey2 : m2.keys[m1.current_epoch]? with
  | none =>
    refine ⟨_, verify_membership_of_unknown hkey2 _, ?_⟩
    simp
  | some key2 =>
    refine ⟨_, verify_membership_of_loaded hkey2 _, ?_⟩
    rw [decide_eq_true_eq, (hkeys.mac nonce).eq_iff, (hkeys.expand node_id.bytes).eq_iff]
    simp [hkey, eq_comm]

/-- In every run the keys are not empty, the current epoch is loaded, and an operation that
returns an error changes nothing. A proof of membership is accepted exactly by the managers that
hold its epoch with the same key, and an unknown epoch is refused without an error. -/
theorem members_recognize_each_other (hkeys : crypto.InjectiveKeys) (h1 : Reachable m1) :
    (m1.keys ≠ ∅ ∧ m1.current_epoch ∈ m1.keys) ∧
      (∀ op fault, (exec (Rotation.call op) m1).1 = .error fault →
        (exec (Rotation.call op) m1).2 = m1) ∧
      (∀ node_id nonce, ∃ epoch proof,
        exec (prove_membership crypto node_id nonce) m1 = (.ok (epoch, proof), m1) ∧
        ∃ accepted, exec (verify_membership crypto node_id nonce epoch proof) m2 =
          (.ok accepted, m2) ∧
          (accepted = true ↔
            ∃ key, m1.keys[epoch]? = some key ∧ m2.keys[epoch]? = some key)) ∧
      ∀ node_id nonce epoch proof, epoch ∉ m2.keys →
        exec (verify_membership crypto node_id nonce epoch proof) m2 = (.ok false, m2) := by
  have hwell := wellFormed_of_reachable h1
  refine ⟨⟨hwell.ne_empty, hwell⟩, fun op fault h => state_of_error h,
    fun node_id nonce => verify_proof_iff hkeys hwell, ?_⟩
  intro node_id nonce epoch proof hunknown
  exact verify_membership_of_unknown (ExtTreeMap.getElem?_eq_none hunknown) proof

end Proofs

/-! ## Two nodes in the middle of a rotation -/

def master (b : UInt8) : SecretKey := ⟨List.replicate 32 b, List.length_replicate⟩

/-- Both epochs are loaded, and one of them is current. -/
def midRotation (current : Nat) : Inner :=
  ⟨((∅ : ExtTreeMap Nat SecretKey).insert 0 (master 1)).insert 1 (master 2), current⟩

/-- Primitives that keep their key as it is. -/
def keptKeys : Crypto SecretKey SecretKey where
  expand key _ := key
  encrypt _ _ _ := none
  decrypt _ _ _ := none
  mac key _ := key

theorem mid_rotation_is_recognized : ∃ epoch proof,
    exec (prove_membership keptKeys ⟨[7]⟩ [9]) (midRotation 1) =
      (.ok (epoch, proof), midRotation 1) ∧
    ∃ accepted, exec (verify_membership keptKeys ⟨[7]⟩ [9] epoch proof) (midRotation 0) =
      (.ok accepted, midRotation 0) ∧
      (accepted = true ↔ ∃ key, (midRotation 1).keys[epoch]? = some key ∧
        (midRotation 0).keys[epoch]? = some key) := by
  have hkeys : keptKeys.InjectiveKeys := ⟨fun _ _ _ h => h, fun _ _ _ h => h⟩
  have hreachable : Reachable (midRotation 1) :=
    @Reachable.built [(0, master 1), (1, master 2)] 1 _ (by decide +kernel)
  exact (members_recognize_each_other hkeys hreachable).2.2.1 ⟨[7]⟩ [9]

end marie.secret
