-- The start of the Raft group: every node picks the node with the lowest id among
-- those it sees, and only that one initializes the group.
import Mathlib.Data.List.MinMax
import Mathlib.Data.Set.Basic
import Marie.Annuary
import Marie.Lease.Raft

open Std (ExtTreeMap)

namespace marie.lease

/-! ## The lowest of a list -/

/-- Two lists of the same members, no two of them of one rank, have the same lowest member. -/
theorem argmin_eq_of_mem_iff {α : Type} {rank : α → Nat} {l l' : List α}
    (hrank : ∀ a ∈ l, ∀ b ∈ l, rank a = rank b → a = b) (hsame : ∀ a, a ∈ l ↔ a ∈ l') :
    l.argmin rank = l'.argmin rank := by
  cases h : l.argmin rank with
  | none =>
    rw [List.argmin_eq_none] at h
    subst h
    have hnil : l' = [] := List.eq_nil_iff_forall_not_mem.mpr fun a ha => by
      have := (hsame a).mpr ha
      simp at this
    rw [hnil, List.argmin_nil]
  | some a =>
    have ha := List.argmin_mem h
    cases h' : l'.argmin rank with
    | none =>
      rw [List.argmin_eq_none] at h'
      subst h'
      exact absurd ((hsame a).mp ha) (by simp)
    | some b =>
      have hb := (hsame b).mpr (List.argmin_mem h')
      have hab := List.le_of_mem_argmin hb h
      have hba := List.le_of_mem_argmin ((hsame a).mp ha) h'
      rw [hrank a ha b hb (le_antisymm hab hba)]

/-! ## The bootstrap -/

section Bootstrap

variable {PeerId ε : Type}

/-- `NodeId::from(PeerId)`, from the bytes of a peer id. -/
def from_peer (to_bytes : PeerId → List UInt8) (peer : PeerId) : NodeId := ⟨to_bytes peer⟩

/-- `LeaseNodeId::from(PeerId)`. -/
def LeaseNodeId.from_peer (to_bytes : PeerId → List UInt8) (peer : PeerId) : LeaseNodeId :=
  ⟨stable_hash (to_bytes peer)⟩

def lease_capability : annuary.Capabilities := annuary.Capabilities.default.set_lease

/-- The peers that `bootstrap` works with: those of the annuary, and the local node. -/
def peers_of (annuary : annuary.Annuary) (local_node_id : NodeId) : List NodeId :=
  let peers := annuary.nodes_with lease_capability
  if local_node_id ∈ peers then peers else peers ++ [local_node_id]

/-- `min_by_key`: the first of the peers whose id is the lowest. -/
def lowest (peers : List NodeId) : Option NodeId :=
  peers.argmin fun node => (LeaseNodeId.from_node node).id.toNat

def members_of (peers : List NodeId) : ExtTreeMap LeaseNodeId NodeId :=
  peers.foldl (fun members node => members.insert (LeaseNodeId.from_node node) node) ∅

/-- The membership that the node initializes the Raft group with, if it does. -/
def bootstrap (to_bytes : PeerId → List UInt8) (annuary : annuary.Annuary)
    (local_peer_id : PeerId) (is_initialized : Except ε Bool) :
    Option (ExtTreeMap LeaseNodeId NodeId) :=
  let local_node_id := from_peer to_bytes local_peer_id
  let peers := peers_of annuary local_node_id
  if lowest peers ≠ some local_node_id then none
  else
    match is_initialized with
    | .ok true => none
    | .error _ => none
    | .ok false => some (members_of peers)

end Bootstrap

/-! ## Agreement -/

variable {PeerId ε : Type} {to_bytes : PeerId → List UInt8}

theorem mem_peers_of {annuary : annuary.Annuary} {local_node_id node : NodeId} :
    node ∈ peers_of annuary local_node_id ↔
      node ∈ annuary.nodes_with lease_capability ∨ node = local_node_id := by
  unfold peers_of
  dsimp only
  split
  · next hlocal =>
    constructor
    · exact .inl
    · rintro (hnode | rfl)
      · exact hnode
      · exact hlocal
  · rw [List.mem_append, List.mem_singleton]

/-- When the ids of the peers differ, each of them is in the membership under its id. -/
theorem get_members_of {peers : List NodeId} {id : LeaseNodeId} {node : NodeId}
    (hdistinct : ∀ a ∈ peers, ∀ b ∈ peers,
      LeaseNodeId.from_node a = LeaseNodeId.from_node b → a = b) :
    (members_of peers)[id]? = some node ↔ node ∈ peers ∧ id = LeaseNodeId.from_node node := by
  rw [members_of, OrderedMap.get_foldl_insert LeaseNodeId.from_node fun node => node]
  simp only [ExtTreeMap.getElem?_empty, Option.or_none, Option.map_id']
  constructor
  · intro hlast
    have hmem := List.mem_filter.mp (List.mem_of_getLast? hlast)
    exact ⟨hmem.1, (of_decide_eq_true hmem.2).symm⟩
  · rintro ⟨hnode, rfl⟩
    have hin : node ∈ peers.filter (LeaseNodeId.from_node · = LeaseNodeId.from_node node) := by
      simp [hnode]
    obtain ⟨last, hlast⟩ := Option.isSome_iff_exists.mp
      (List.getLast?_isSome.mpr (List.ne_nil_of_mem hin))
    have hmem := List.mem_filter.mp (List.mem_of_getLast? hlast)
    rw [hlast, hdistinct last hmem.1 node hnode (by simpa using hmem.2)]

section Cluster

variable {cluster : Set PeerId} {view : PeerId → annuary.Annuary}

/-- No two peers of the cluster have one id. -/
def DistinctIds (to_bytes : PeerId → List UInt8) (cluster : Set PeerId) : Prop :=
  ∀ p ∈ cluster, ∀ q ∈ cluster,
    LeaseNodeId.from_peer to_bytes p = LeaseNodeId.from_peer to_bytes q → p = q

/-- Each node of the cluster knows the nodes of the cluster from its annuary, and itself. -/
def SeeAll (to_bytes : PeerId → List UInt8) (cluster : Set PeerId)
    (view : PeerId → annuary.Annuary) : Prop :=
  ∀ p ∈ cluster, ∀ node,
    (node ∈ (view p).nodes_with lease_capability ∨ node = from_peer to_bytes p) ↔
      ∃ q ∈ cluster, node = from_peer to_bytes q

theorem SeeAll.mem_iff (h : SeeAll to_bytes cluster view) {p : PeerId} (hp : p ∈ cluster)
    (node : NodeId) : node ∈ peers_of (view p) (from_peer to_bytes p) ↔
      ∃ q ∈ cluster, node = from_peer to_bytes q :=
  mem_peers_of.trans (h p hp node)

/-- The peers that a node of the cluster works with have ids that differ. -/
theorem SeeAll.distinct (h : SeeAll to_bytes cluster view) (hdistinct : DistinctIds to_bytes cluster)
    {p : PeerId} (hp : p ∈ cluster) : ∀ a ∈ peers_of (view p) (from_peer to_bytes p),
      ∀ b ∈ peers_of (view p) (from_peer to_bytes p),
      LeaseNodeId.from_node a = LeaseNodeId.from_node b → a = b := by
  intro a ha b hb hab
  obtain ⟨q, hq, rfl⟩ := (h.mem_iff hp a).mp ha
  obtain ⟨r, hr, rfl⟩ := (h.mem_iff hp b).mp hb
  rw [hdistinct q hq r hr hab]

/-- All the nodes of the cluster find the same lowest node, and it is one of them. -/
theorem SeeAll.lowest_eq (h : SeeAll to_bytes cluster view) (hdistinct : DistinctIds to_bytes cluster)
    (hsome : cluster.Nonempty) : ∃ p ∈ cluster, ∀ q ∈ cluster,
      lowest (peers_of (view q) (from_peer to_bytes q)) = some (from_peer to_bytes p) := by
  obtain ⟨p0, hp0⟩ := hsome
  obtain ⟨least, hleast⟩ :
      ∃ least, lowest (peers_of (view p0) (from_peer to_bytes p0)) = some least := by
    rw [← Option.ne_none_iff_exists', lowest, Ne, List.argmin_eq_none]
    exact List.ne_nil_of_mem ((h.mem_iff hp0 _).mpr ⟨p0, hp0, rfl⟩)
  obtain ⟨p, hp, rfl⟩ := (h.mem_iff hp0 least).mp (List.argmin_mem hleast)
  refine ⟨p, hp, fun q hq => ?_⟩
  rw [← hleast]
  refine argmin_eq_of_mem_iff ?_ fun node => (h.mem_iff hq node).trans (h.mem_iff hp0 node).symm
  intro a ha b hb hab
  exact h.distinct hdistinct hq a ha b hb (congrArg LeaseNodeId.mk (UInt64.toNat_inj.mp hab))

/-- Among nodes that see one set of peers, in any order and with any repetition, exactly one
initializes the group. It does so with the whole set, each peer under its own id. -/
theorem one_node_initializes (hsome : cluster.Nonempty) (hdistinct : DistinctIds to_bytes cluster)
    (hview : SeeAll to_bytes cluster view) :
    (∃ p ∈ cluster, ∃ members,
      bootstrap to_bytes (view p) p (.ok false : Except ε Bool) = some members ∧
      (∀ q ∈ cluster, q ≠ p →
        bootstrap to_bytes (view q) q (.ok false : Except ε Bool) = none) ∧
      ∀ id node, members[id]? = some node ↔ ∃ q ∈ cluster,
        id = LeaseNodeId.from_peer to_bytes q ∧ node = from_peer to_bytes q) ∧
      ∀ peer, LeaseNodeId.from_peer to_bytes peer =
        LeaseNodeId.from_node (from_peer to_bytes peer) := by
  refine ⟨?_, fun peer => rfl⟩
  obtain ⟨p, hp, hlowest⟩ := hview.lowest_eq hdistinct hsome
  refine ⟨p, hp, members_of (peers_of (view p) (from_peer to_bytes p)), ?_, ?_, ?_⟩
  · simp [bootstrap, hlowest p hp]
  · intro q hq hne
    have hother : from_peer to_bytes p ≠ from_peer to_bytes q := fun heq =>
      hne (hdistinct q hq p hp (congrArg LeaseNodeId.from_node heq.symm))
    simp [bootstrap, hlowest q hq, hother]
  · intro id node
    rw [get_members_of (hview.distinct hdistinct hp), hview.mem_iff hp]
    constructor
    · rintro ⟨⟨q, hq, rfl⟩, rfl⟩
      exact ⟨q, hq, rfl, rfl⟩
    · rintro ⟨q, hq, rfl, rfl⟩
      exact ⟨⟨q, hq, rfl⟩, rfl⟩

end Cluster

/-- Two nodes that know each other, the second one also itself. -/
def twoNodes : Nat → annuary.Annuary
  | 1 => ⟨⟨0⟩, ⟨[1]⟩, [(⟨[2]⟩, ⟨⟨0b10000⟩⟩)]⟩
  | _ => ⟨⟨0b10000⟩, ⟨[2]⟩, [(⟨[1]⟩, ⟨⟨0b10001⟩⟩), (⟨[2]⟩, ⟨⟨0b10000⟩⟩), (⟨[3]⟩, ⟨⟨0b1⟩⟩)]⟩

theorem one_of_two_initializes : ∃ p ∈ ({1, 2} : Set Nat), ∃ members,
    bootstrap (fun n => [n.toUInt8]) (twoNodes p) p (.ok false : Except Unit Bool) =
      some members := by
  have hdistinct : DistinctIds (fun n : Nat => [n.toUInt8]) {1, 2} := by
    rintro p (rfl | rfl) q (rfl | rfl) h
    · rfl
    · exact absurd h (by decide +kernel)
    · exact absurd h (by decide +kernel)
    · rfl
  have hview : SeeAll (fun n : Nat => [n.toUInt8]) {1, 2} twoNodes := by
    have h1 : (twoNodes 1).nodes_with lease_capability = [⟨[2]⟩] := by decide +kernel
    have h2 : (twoNodes 2).nodes_with lease_capability = [⟨[1]⟩, ⟨[2]⟩, ⟨[2]⟩] := by
      decide +kernel
    rintro p (rfl | rfl) node
    · rw [h1]
      simp [from_peer, or_comm]
    · rw [h2]
      simp [from_peer]
  obtain ⟨⟨p, hp, members, hmembers, -⟩, -⟩ :=
    one_node_initializes (ε := Unit) ⟨1, .inl rfl⟩ hdistinct hview
  exact ⟨p, hp, members, hmembers⟩

end marie.lease
