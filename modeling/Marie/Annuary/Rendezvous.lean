-- Rendezvous hashing from any node: whoever ranks the same candidates for a key
-- gets the same ranking, and a candidate that leaves moves no other.
import Marie.Annuary.Connections
import Marie.Lib.Ranking

namespace marie.hrw

open annuary (Annuary Capabilities)
open Ranking (Apart ranked max_by)

/-- The trait, of the candidates `N`. `W` stands for the floats that weigh them. -/
structure Pickable (N W : Type) where
  id_bytes : N → List UInt8
  weight : N → W

variable {N W Score : Type} [LinearOrder Score]

/-- `score` stands for the float that is made of a hash and a weight. -/
def weighted_score (score : UInt64 → W → Score) (key node_id : List UInt8) (weight : W) : Score :=
  score (combined_hash key node_id) weight

namespace Pickable

/-- The score of a candidate. -/
def score_of (p : Pickable N W) (score : UInt64 → W → Score) (key : List UInt8) (node : N) : Score :=
  weighted_score score key (p.id_bytes node) (p.weight node)

def pick (p : Pickable N W) (score : UInt64 → W → Score) (key : List UInt8) (nodes : List N) :
    Option N :=
  max_by (fun a b => compare (p.score_of score key a) (p.score_of score key b)) nodes

def pick_top_n (p : Pickable N W) (score : UInt64 → W → Score) (key : List UInt8) (nodes : List N)
    (n : Nat) : List N :=
  let scored := nodes.map fun node => (node, p.score_of score key node)
  ((scored.mergeSort fun a b => decide (b.2 ≤ a.2)).take n).map Prod.fst

/-- The nodes, all of one weight. -/
def node_ids (weight : W) : Pickable NodeId W := ⟨NodeId.bytes, fun _ => weight⟩

/-- What holds of the choices for a key among some candidates. -/
structure Stable [DecidableEq N] (p : Pickable N W) (score : UInt64 → W → Score) (key : List UInt8)
    (nodes : List N) : Prop where
  all : (p.pick_top_n score key nodes nodes.length).Perm nodes
  permuted : ∀ nodes' : List N, nodes'.Perm nodes →
    p.pick score key nodes' = p.pick score key nodes ∧
      ∀ n, p.pick_top_n score key nodes' n = p.pick_top_n score key nodes n
  grows : ∀ n m, n ≤ m →
    p.pick_top_n score key nodes n = (p.pick_top_n score key nodes m).take n
  head : ∀ n, (p.pick_top_n score key nodes (n + 1)).head? = p.pick score key nodes
  sorted : ∀ n, (p.pick_top_n score key nodes n).Pairwise fun a b =>
    p.score_of score key b < p.score_of score key a
  /-- A candidate that was not chosen may leave. -/
  outside : ∀ n node, node ∉ p.pick_top_n score key nodes n →
    p.pick_top_n score key (nodes.erase node) n = p.pick_top_n score key nodes n
  /-- One that was chosen gives its place to the next. -/
  inside : ∀ n node, node ∈ p.pick_top_n score key nodes n →
    p.pick_top_n score key (nodes.erase node) n =
      (p.pick_top_n score key nodes n).erase node ++
        (p.pick_top_n score key nodes (n + 1))[n]?.toList

variable {p : Pickable N W} {score : UInt64 → W → Score} {key : List UInt8} {nodes : List N}

theorem pick_top_n_eq (n : Nat) :
    p.pick_top_n score key nodes n = (ranked (p.score_of score key) nodes).take n := by
  unfold pick_top_n ranked
  rw [List.map_take]

theorem pick_eq (h : Apart (p.score_of score key) nodes) :
    p.pick score key nodes = (ranked (p.score_of score key) nodes).head? :=
  Ranking.max_by_eq_head h

theorem stable [DecidableEq N] (h : Apart (p.score_of score key) nodes) :
    p.Stable score key nodes := by
  have hperm := Ranking.ranked_perm (p.score_of score key) nodes
  constructor
  · rw [pick_top_n_eq, ← hperm.length_eq, List.take_length]
    exact hperm
  · intro nodes' hnodes
    have hranked := Ranking.ranked_congr h hnodes
    refine ⟨?_, fun n => ?_⟩
    · rw [pick_eq h, pick_eq (h.perm hnodes), hranked]
    · rw [pick_top_n_eq, pick_top_n_eq, hranked]
  · intro n m hnm
    rw [pick_top_n_eq, pick_top_n_eq, List.take_take, Nat.min_eq_left hnm]
  · intro n
    rw [pick_top_n_eq, pick_eq h, List.head?_take]
    simp
  · intro n
    rw [pick_top_n_eq]
    exact (Ranking.ranked_decreasing h).sublist (List.take_sublist _ _)
  · intro n node hnode
    rw [pick_top_n_eq] at hnode
    rw [pick_top_n_eq, pick_top_n_eq, Ranking.ranked_erase h, Ranking.take_erase_of_not_mem hnode]
  · intro n node hnode
    rw [pick_top_n_eq] at hnode
    rw [pick_top_n_eq, pick_top_n_eq, pick_top_n_eq, Ranking.ranked_erase h,
      Ranking.take_erase_of_mem hnode, List.getElem?_take_of_lt (Nat.lt_succ_self n)]

end Pickable

/-- The annuary picks as the candidates are picked that are nodes of one weight. -/
theorem annuary_pick_top_n (score : UInt64 → W → Score) (weight : W) (annuary : Annuary)
    (id : List UInt8) (capabilities : Capabilities) (n : Nat) :
    annuary.pick_top_n (fun hash => score hash weight) id capabilities n =
      (Pickable.node_ids weight).pick_top_n score id (annuary.nodes_with capabilities) n := rfl

/-- The choices for a key are stable among candidates of different scores, and nodes that see the
same candidates choose alike. -/
theorem rendezvous_is_stable [DecidableEq N] (p : Pickable N W) (score : UInt64 → W → Score)
    (key : List UInt8) :
    (∀ nodes : List N, Apart (p.score_of score key) nodes → p.Stable score key nodes) ∧
    ∀ (weight : W) (capabilities : Capabilities) (annuary other : Annuary),
      Apart ((Pickable.node_ids weight).score_of score key) (annuary.nodes_with capabilities) →
      (other.nodes_with capabilities).Perm (annuary.nodes_with capabilities) →
        ∀ n, other.pick_top_n (fun hash => score hash weight) key capabilities n =
          annuary.pick_top_n (fun hash => score hash weight) key capabilities n := by
  refine ⟨fun nodes h => Pickable.stable h, ?_⟩
  intro weight capabilities annuary other h hview n
  rw [annuary_pick_top_n, annuary_pick_top_n]
  exact ((Pickable.stable h).permuted _ hview).2 n

/-- Three workers, and two nodes that know of them in another order. -/
def three_workers : List NodeId := [⟨[1]⟩, ⟨[2]⟩, ⟨[3]⟩]

theorem three_workers_are_ranked_alike :
    Pickable.Stable (Pickable.node_ids ()) (fun hash _ => hash.toNat) [7] three_workers ∧
      ∀ n, Annuary.pick_top_n (fun hash => hash.toNat)
          ⟨⟨1⟩, ⟨[3]⟩, [(⟨[2]⟩, ⟨⟨1⟩⟩), (⟨[1]⟩, ⟨⟨1⟩⟩)]⟩ [7] ⟨1⟩ n =
        Annuary.pick_top_n (fun hash => hash.toNat)
          ⟨⟨1⟩, ⟨[2]⟩, [(⟨[1]⟩, ⟨⟨1⟩⟩), (⟨[3]⟩, ⟨⟨1⟩⟩)]⟩ [7] ⟨1⟩ n :=
  ⟨(rendezvous_is_stable (Pickable.node_ids ()) (fun hash _ => hash.toNat) [7]).1 three_workers
      (by unfold Apart; decide),
    (rendezvous_is_stable (Pickable.node_ids ()) (fun hash _ => hash.toNat) [7]).2 () ⟨1⟩ _ _
      (by unfold Apart; decide) (by decide)⟩

end marie.hrw
