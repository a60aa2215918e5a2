-- A node key, the key at rest and the key of a namespace are derived from the raw
-- bytes of a node id, of a label and of a name, with nothing that says which of the
-- three it is. Two keys are the same when their bytes are.
import Marie.Secret.Vault

open Program
open Std (ExtTreeMap)

namespace marie.secret

variable {Key Tag : Type} {crypto : Crypto Key Tag} {s : Inner} {e : Nat}

/-! ## The bytes of a namespace -/

theorem as_bytes_injective : Function.Injective as_bytes := by
  intro name name' h
  have harray : name.toUTF8.data = name'.toUTF8.data := Array.toList_inj.mp h
  have hbytes : name.toUTF8 = name'.toUTF8 := ByteArray.ext harray
  exact String.toByteArray_inj.mp hbytes

/-- The label of the key at rest is the bytes of a name. -/
theorem as_bytes_eq_storage_iff {name : String} :
    as_bytes name = storage_namespace ↔ name = "marie/at-rest-storage/v1" := by
  rw [show storage_namespace = as_bytes "marie/at-rest-storage/v1" from rfl]
  exact as_bytes_injective.eq_iff

/-! ## The keys of the three domains -/

theorem node_key_of_loaded {ikm : SecretKey} (node_id : NodeId) (h : s.keys[e]? = some ikm) :
    exec (derive_node_key_for_epoch crypto e node_id) s =
      (.ok (crypto.expand ikm node_id.bytes), s) :=
  derive_key_of_loaded h

/-- Under a loaded epoch, the key of a node, the key at rest and the key of a namespace are
pairwise different exactly when the bytes they are derived from are. -/
theorem keys_of_domains_differ_iff (hinfo : ∀ ikm, Function.Injective (crypto.expand ikm))
    (hloaded : e ∈ s.keys) (node_id : NodeId) (name : String) :
    ∃ node at_rest vault,
      exec (derive_node_key_for_epoch crypto e node_id) s = (.ok node, s) ∧
      exec (derive_storage_key_for_epoch crypto e) s = (.ok ⟨e, at_rest⟩, s) ∧
      exec (derive_key crypto e (as_bytes name)) s = (.ok vault, s) ∧
      ((node ≠ at_rest ∧ vault ≠ at_rest ∧ node ≠ vault) ↔
        node_id.bytes ≠ storage_namespace ∧ name ≠ "marie/at-rest-storage/v1" ∧
          node_id.bytes ≠ as_bytes name) := by
  obtain ⟨ikm, hikm⟩ : ∃ ikm, s.keys[e]? = some ikm :=
    Option.isSome_iff_exists.mp (ExtTreeMap.mem_iff_isSome_getElem?.mp hloaded)
  refine ⟨_, _, _, node_key_of_loaded node_id hikm, storage_key_of_loaded hikm,
    derive_key_of_loaded hikm, ?_⟩
  have hnode := (hinfo ikm).eq_iff (a := node_id.bytes) (b := storage_namespace)
  have hvault := (hinfo ikm).eq_iff (a := as_bytes name) (b := storage_namespace)
  have hboth := (hinfo ikm).eq_iff (a := node_id.bytes) (b := as_bytes name)
  rw [Ne, hnode, Ne, hvault, as_bytes_eq_storage_iff, Ne, hboth]

/-! ## A node with the bytes of another domain -/

theorem plainKeys_info (ikm : SecretKey) : Function.Injective (plainKeys.expand ikm) :=
  List.append_right_injective ikm.bytes

/-- The key of the node whose id is the label is the key at rest. -/
theorem label_node_has_the_key_at_rest :
    Reachable oneKey ∧
      exec (derive_node_key_for_epoch plainKeys 0 ⟨storage_namespace⟩) oneKey =
          (.ok (List.replicate 32 1 ++ storage_namespace), oneKey) ∧
      exec (derive_storage_key_for_epoch plainKeys 0) oneKey =
          (.ok ⟨0, List.replicate 32 1 ++ storage_namespace⟩, oneKey) := by
  have hikm : oneKey.keys[0]? = some (master 1) := by decide +kernel
  refine ⟨?_, node_key_of_loaded ⟨storage_namespace⟩ hikm, storage_key_of_loaded hikm⟩
  exact @Reachable.built [(0, master 1)] 0 _ (by decide +kernel)

theorem other_bytes_have_other_keys : ∃ node at_rest vault,
    exec (derive_node_key_for_epoch plainKeys 0 ⟨[0]⟩) oneKey = (.ok node, oneKey) ∧
    exec (derive_storage_key_for_epoch plainKeys 0) oneKey = (.ok ⟨0, at_rest⟩, oneKey) ∧
    exec (derive_key plainKeys 0 (as_bytes "api")) oneKey = (.ok vault, oneKey) ∧
    ((node ≠ at_rest ∧ vault ≠ at_rest ∧ node ≠ vault) ↔
      [0] ≠ storage_namespace ∧ "api" ≠ "marie/at-rest-storage/v1" ∧ [0] ≠ as_bytes "api") :=
  keys_of_domains_differ_iff plainKeys_info (by decide +kernel) ⟨[0]⟩ "api"

end marie.secret
