-- Rendezvous hashing: the nodes are ranked by a hash of the key and the node.
import Mathlib.Data.List.Nodup
import Mathlib.Data.List.Perm.Basic
import Mathlib.Order.Defs.LinearOrder
import Marie.Node

namespace marie.hrw

def FNV_OFFSET : UInt64 := 0xcbf29ce484222325

def FNV_PRIME : UInt64 := 0x100000001b3

def fnv1a (bytes : List UInt8) : UInt64 :=
  bytes.foldl (fun hash b => (hash ^^^ b.toUInt64) * FNV_PRIME) FNV_OFFSET

def fmix64 (k : UInt64) : UInt64 :=
  let k := (k ^^^ (k >>> 33)) * 0xff51afd7ed558ccd
  let k := (k ^^^ (k >>> 33)) * 0xc4ceb9fe1a85ec53
  k ^^^ (k >>> 33)

def combined_hash (key node_id : List UInt8) : UInt64 :=
  fmix64 (fnv1a key * FNV_PRIME ^^^ fnv1a node_id)

variable {Score : Type} [LinearOrder Score]

/-- `pick_top_n` for nodes of weight 1. `score` stands for the float that `weighted_score` makes of
a hash, which is never a NaN. -/
def pick_top_n (score : UInt64 → Score) (key : List UInt8) (nodes : List NodeId) (n : Nat) :
    List NodeId :=
  let scored := nodes.map fun node => (node, score (combined_hash key node.bytes))
  ((scored.mergeSort fun a b => decide (b.2 ≤ a.2)).take n).map Prod.fst

theorem pick_top_n_sublist (score : UInt64 → Score) (key : List UInt8) (nodes : List NodeId) :
    ∃ ranked : List NodeId, ranked.Perm nodes ∧
      ∀ n, (pick_top_n score key nodes n) = ranked.take n := by
  refine ⟨_, ?_, fun n => List.map_take ..⟩
  have hperm := (List.mergeSort_perm (nodes.map fun node =>
    (node, score (combined_hash key node.bytes))) fun a b => decide (b.2 ≤ a.2)).map Prod.fst
  simpa [Function.comp_def] using hperm

/-- No node is picked twice for any number, exactly if none is a candidate twice. -/
theorem pick_top_n_nodup_iff {score : UInt64 → Score} {key : List UInt8} {nodes : List NodeId} :
    (∀ n, (pick_top_n score key nodes n).Nodup) ↔ nodes.Nodup := by
  obtain ⟨ranked, hperm, htake⟩ := pick_top_n_sublist score key nodes
  constructor
  · intro h
    have hall := h ranked.length
    rw [htake, List.take_length] at hall
    exact hperm.nodup_iff.mp hall
  · intro h n
    rw [htake]
    exact (hperm.nodup_iff.mpr h).sublist (List.take_sublist n ranked)

end marie.hrw
