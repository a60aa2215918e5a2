-- The walk of a graph, away from the checkpointer. An outline keeps of a tree of
-- frames only their kinds, their places and how far each node came. The walk is
-- a law of outlines: in each thread a node is followed by the node, or by the
-- fork, that its result leads to. The laws below say which changes of an outline
-- keep it.
import Mathlib.Data.List.Chain
import Marie.Session.FrameTree

namespace marie.session

/-! ## Outlines -/

/-- What an outline keeps of a frame; `run` is the status of a node of a graph. -/
structure Part where
  kind : FrameKind
  parent : Option FrameId
  children : List FrameId
  run : Option FrameStatus

abbrev Outline := FrameId → Option Part

/-- Only nodes have a run. -/
def FrameKind.run (status : FrameStatus) : FrameKind → Option FrameStatus
  | .GraphNode _ _ => some status
  | _ => none

namespace Outline

variable (o : Outline)

def Is (x : FrameId) (kind : FrameKind) : Prop := ∃ k, o x = some k ∧ k.kind = kind

/-- The node has completed. -/
def Done (x : FrameId) : Prop := ∃ k, o x = some k ∧ k.run = some .Completed

/-- The walk of a thread has come to its end. -/
def Ended (p : FrameId) : Prop :=
  ∃ k c, o p = some k ∧ k.children.getLast? = some c ∧ o.Done c

/-- A new frame under `p`. -/
def grow (p x : FrameId) (kind : FrameKind) : Outline := fun y =>
  if y = x then some ⟨kind, some p, [], kind.run .Pending⟩
  else if y = p then (o y).map fun k => { k with children := k.children ++ [x] }
  else o y

/-- A node has a new status. -/
def mark (f : FrameId) (status : FrameStatus) : Outline := fun y =>
  if y = f then (o y).map fun k => { k with run := k.run.map fun _ => status } else o y

end Outline

/-! ## The walk -/

/-- The results that a walk is made of. -/
def FrameResult.IsStep : FrameResult → Prop
  | .Continue | .GoTo _ | .Fork _ _ | .Completed => True
  | _ => False

/-- A walk: the graph, the node it starts from, and the result of the run of each frame. -/
structure Walk where
  graph_ref : GraphRef
  spec : GraphSpec
  entry : NodeId
  oracle : FrameId → FrameResult
  steps : ∀ f, (oracle f).IsStep

namespace Walk

variable (w : Walk)

/-- `t` is a thread that starts at `start`. -/
def IsBranch (o : Outline) (t : FrameId) (start : NodeId) : Prop :=
  ∃ k c, o t = some k ∧ k.kind = .GraphThread w.graph_ref ∧ k.children.head? = some c ∧
    o.Is c (.GraphNode w.graph_ref start)

/-- `d` is a fork with these branches, each in its own thread. -/
def IsFork (o : Outline) (d : FrameId) (branches : List Branch) (join : NodeId) : Prop :=
  ∃ k, o d = some k ∧ k.kind = .GraphSpan w.graph_ref join ∧
    List.Forall₂ (fun t (b : Branch) => w.IsBranch o t b.start) k.children branches

/-- What the result of the run of a node leads to. -/
def Leads (o : Outline) (node_id : NodeId) : FrameResult → FrameId → Prop
  | .Continue, d => ∃ next, w.spec.edges node_id = some next ∧ o.Is d (.GraphNode w.graph_ref next)
  | .GoTo target, d => o.Is d (.GraphNode w.graph_ref target)
  | .Fork branches join, d => w.IsFork o d branches join
  | _, _ => False

/-- `d` comes after the node `c`. -/
def Follows (o : Outline) (c d : FrameId) : Prop :=
  o.Done c ∧ ∃ node_id, o.Is c (.GraphNode w.graph_ref node_id) ∧ w.Leads o node_id (w.oracle c) d

/-- `d` comes after the fork `c`, whose branches have all ended. -/
def Joins (o : Outline) (c d : FrameId) : Prop :=
  ∃ k join, o c = some k ∧ k.kind = .GraphSpan w.graph_ref join ∧ (∀ t ∈ k.children, o.Ended t) ∧
    o.Is d (.GraphNode w.graph_ref join)

/-- Nothing comes after `c`, so far: a node that has not completed, or that ends the walk, or a
fork with a branch that has not ended. -/
def IsLast (o : Outline) (c : FrameId) : Prop :=
  (o.Done c → w.oracle c = .Completed ∨ (w.oracle c = .Continue ∧
    ∃ node_id, o.Is c (.GraphNode w.graph_ref node_id) ∧ w.spec.edges node_id = none)) ∧
  ∀ k join, o c = some k → k.kind = .GraphSpan w.graph_ref join → ∃ t ∈ k.children, ¬ o.Ended t

/-- Where a frame stands: threads under the root or under a fork, nodes and forks in threads. -/
def Stands (o : Outline) (x : FrameId) (k : Part) : Prop :=
  x = ⟨0⟩ ∨ ∃ p m, k.parent = some p ∧ o p = some m ∧ x ∈ m.children ∧
    ((k.kind = .GraphThread w.graph_ref ∧
        (p = ⟨0⟩ ∨ ∃ join, m.kind = .GraphSpan w.graph_ref join)) ∨
      (m.kind = .GraphThread w.graph_ref ∧ ((∃ node_id, k.kind = .GraphNode w.graph_ref node_id) ∨
        ∃ join, k.kind = .GraphSpan w.graph_ref join)))

/-- The frames are those of the walk: one thread from the entry under the root, and in each
thread the frames come one after the other as the results say, each of them once. -/
structure Walks (o : Outline) : Prop where
  stands : ∀ x k, o x = some k → w.Stands o x k
  root : ∀ k, o ⟨0⟩ = some k → k.children = [] ∨ ∃ t, k.children = [t] ∧ w.IsBranch o t w.entry
  line : ∀ p k, o p = some k → k.kind = .GraphThread w.graph_ref →
    k.children.Nodup ∧ k.children.IsChain fun c d => w.Follows o c d ∨ w.Joins o c d

/-- No thread lacks a frame that the walk leads to. -/
def Catches (o : Outline) : Prop :=
  ∀ p k c, o p = some k → k.kind = .GraphThread w.graph_ref → k.children.getLast? = some c →
    w.IsLast o c

/-! ## The walk so far -/

/-- Nothing comes after `c`, and the walk may still go on there unless its node has ended it. -/
def Rests (o : Outline) (c : FrameId) : Prop :=
  (o.Done c → w.oracle c = .Completed) ∧
  ∀ k join, o c = some k → k.kind = .GraphSpan w.graph_ref join → ∃ t ∈ k.children, ¬ o.Ended t

/-- The frames of a thread, one after the other. -/
structure Line (o : Outline) (children : List FrameId) : Prop where
  nodup : children.Nodup
  chain : children.IsChain (w.Follows o)
  rests : ∀ c, children.getLast? = some c → w.Rests o c

/-- The root, before and after its thread is there. -/
def Root (o : Outline) : Prop :=
  ∃ k, o ⟨0⟩ = some k ∧ k.kind = .Graph w.graph_ref ∧ k.parent = none ∧
    (k.children = [] ∨ ∃ t, k.children = [t] ∧ w.IsBranch o t w.entry)

/-- A walk in which no fork was joined, and no node was left by an edge that is not there. -/
structure Walking (o : Outline) : Prop where
  stands : ∀ x k, o x = some k → w.Stands o x k
  child : ∀ p k c, o p = some k → c ∈ k.children → ∃ m, o c = some m ∧ m.parent = some p
  root : w.Root o
  line : ∀ p k, o p = some k → k.kind = .GraphThread w.graph_ref → w.Line o k.children

section Walking

variable {w : Walk} {o o' : Outline} {x c d f p : FrameId} {k kp : Part}

theorem Walking.root_kind (h : w.Walking o) (hk : o ⟨0⟩ = some k) : k.kind = .Graph w.graph_ref := by
  obtain ⟨k', hk', hkind, -⟩ := h.root
  rw [hk] at hk'
  cases hk'
  exact hkind

theorem Walking.walks (h : w.Walking o) : w.Walks o where
  stands := h.stands
  root k hk := by
    obtain ⟨k', hk', -, -, hchildren⟩ := h.root
    rw [hk] at hk'
    cases hk'
    exact hchildren
  line p k hp hkind :=
    ⟨(h.line p k hp hkind).nodup, (h.line p k hp hkind).chain.imp fun _ _ hcd => .inl hcd⟩

theorem Walking.catches (h : w.Walking o) : w.Catches o := by
  intro p k c hp hkind hc
  have hrests := (h.line p k hp hkind).rests c hc
  exact ⟨fun hdone => .inl (hrests.1 hdone), hrests.2⟩

/-- A node of the graph stands in a thread. -/
theorem Walking.thread_of (h : w.Walking o) (hx : o x = some k)
    (hkind : (∃ node_id, k.kind = .GraphNode w.graph_ref node_id) ∨
      ∃ join, k.kind = .GraphSpan w.graph_ref join) :
    ∃ p kp, k.parent = some p ∧ o p = some kp ∧ kp.kind = .GraphThread w.graph_ref ∧
      x ∈ kp.children := by
  rcases h.stands x k hx with rfl | ⟨p, m, hparent, hp, hmem, ⟨hthread, -⟩ | ⟨hthread, -⟩⟩
  · have hroot := h.root_kind hx
    rcases hkind with ⟨node_id, hkind⟩ | ⟨join, hkind⟩ <;> simp [hkind] at hroot
  · rcases hkind with ⟨node_id, hkind⟩ | ⟨join, hkind⟩ <;> simp [hkind] at hthread
  · exact ⟨p, m, hparent, hp, hthread, hmem⟩

/-- What has a frame after it is a node that has completed. -/
theorem Line.last_of (hline : w.Line o (kp.children)) (hmem : c ∈ kp.children)
    (hopen : ¬ ∃ d, w.Follows o c d) : kp.children.getLast? = some c := by
  obtain ⟨pre, post, heq⟩ := List.append_of_mem hmem
  cases post with
  | nil => simp [heq]
  | cons d post =>
    have hchain := hline.chain
    rw [heq, List.isChain_append_cons_cons] at hchain
    exact absurd ⟨d, hchain.2.1⟩ hopen

/-- A node that has not completed is the last of its thread. -/
theorem Walking.last_of_not_done (h : w.Walking o) (hp : o p = some kp)
    (hkind : kp.kind = .GraphThread w.graph_ref) (hmem : c ∈ kp.children) (hc : ¬ o.Done c) :
    kp.children.getLast? = some c :=
  (h.line p kp hp hkind).last_of hmem fun ⟨_, hd⟩ => hc hd.1

/-- A fork has a branch that has not ended. -/
theorem Walking.fork_is_open (h : w.Walking o) {join : NodeId} (hx : o x = some k)
    (hkind : k.kind = .GraphSpan w.graph_ref join) : ∃ t ∈ k.children, ¬ o.Ended t := by
  obtain ⟨p, kp, -, hp, hthread, hmem⟩ := h.thread_of hx (.inr ⟨join, hkind⟩)
  have hlast : kp.children.getLast? = some x := by
    refine (h.line p kp hp hthread).last_of hmem ?_
    rintro ⟨d, -, node_id, ⟨m, hm, hnode⟩, -⟩
    rw [hx] at hm
    cases hm
    simp [hkind] at hnode
  exact ((h.line p kp hp hthread).rests x hlast).2 k join hx hkind

end Walking

end Walk

/-! ## Changes of an outline -/

namespace Outline

/-- The frames stay, and only `p` gets new children. -/
def Grown (p : FrameId) (o o' : Outline) : Prop :=
  ∀ x k, o x = some k → ∃ k', o' x = some k' ∧ k'.kind = k.kind ∧ k'.parent = k.parent ∧
    k.children <+: k'.children ∧ (x ≠ p → k'.children = k.children) ∧
    (k.run = some .Completed → k'.run = some .Completed)

variable {o o' o'' : Outline} {f p q x : FrameId} {kind : FrameKind}

theorem Grown.is (h : Grown p o o') (hx : o.Is x kind) : o'.Is x kind := by
  obtain ⟨k, hk, rfl⟩ := hx
  obtain ⟨k', hk', hkind, -⟩ := h x k hk
  exact ⟨k', hk', hkind⟩

theorem Grown.parent {q : FrameId} (h : Grown p o o')
    (hx : ∃ m, o x = some m ∧ m.parent = some q) : ∃ m, o' x = some m ∧ m.parent = some q := by
  obtain ⟨m, hm, hparent⟩ := hx
  obtain ⟨m', hm', -, hparent', -⟩ := h x m hm
  exact ⟨m', hm', hparent'.trans hparent⟩

theorem Grown.done (h : Grown p o o') (hx : o.Done x) : o'.Done x := by
  obtain ⟨k, hk, hrun⟩ := hx
  obtain ⟨k', hk', -, -, -, -, hdone⟩ := h x k hk
  exact ⟨k', hk', hdone hrun⟩

/-- Children of a frame that is new between the two changes. -/
theorem Grown.trans_new (h : Grown p o o') (h' : Grown q o' o'') (hq : o q = none) :
    Grown p o o'' := by
  intro x k hk
  obtain ⟨k', hk', hkind, hparent, hpre, hsame, hrun⟩ := h x k hk
  obtain ⟨k'', hk'', hkind', hparent', -, hsame', hrun'⟩ := h' x k' hk'
  have hne : x ≠ q := by
    rintro rfl
    rw [hq] at hk
    cases hk
  rw [← hsame' hne] at hpre
  exact ⟨k'', hk'', hkind'.trans hkind, hparent'.trans hparent, hpre,
    fun hx => (hsame' hne).trans (hsame hx), fun hr => hrun' (hrun hr)⟩

/-- A mark, but one that takes back the end of a node. -/
theorem Grown.mark {status : FrameStatus} (h : Grown p o o')
    (hf : status = .Completed ∨ ¬ o.Done f) : Grown p o (o'.mark f status) := by
  intro x k hk
  obtain ⟨k', hk', hkind, hparent, hpre, hsame, hrun⟩ := h x k hk
  by_cases hx : x = f
  · subst hx
    refine ⟨{ k' with run := k'.run.map fun _ => status }, by simp [Outline.mark, hk'], hkind,
      hparent, hpre, hsame, fun hr => ?_⟩
    rcases hf with rfl | hf
    · simp [hrun hr]
    · exact absurd ⟨k, hk, hr⟩ hf
  · exact ⟨k', by simp [Outline.mark, hx, hk'], hkind, hparent, hpre, hsame, hrun⟩

theorem mark_ne {status : FrameStatus} (hx : x ≠ f) : o.mark f status x = o x := by
  simp [mark, hx]

/-- A mark leaves the places. -/
theorem of_mark {status : FrameStatus} {k : Part} (h : o.mark f status x = some k) :
    ∃ m, o x = some m ∧ k.kind = m.kind ∧ k.parent = m.parent ∧ k.children = m.children := by
  by_cases hx : x = f
  · subst hx
    simp only [mark, if_true, Option.map_eq_some_iff] at h
    obtain ⟨m, hm, rfl⟩ := h
    exact ⟨m, hm, rfl, rfl, rfl⟩
  · rw [mark_ne hx] at h
    exact ⟨k, h, rfl, rfl, rfl⟩

theorem done_of_mark {status : FrameStatus} (h : (o.mark f status).Done x) :
    o.Done x ∨ (x = f ∧ status = .Completed) := by
  obtain ⟨k, hk, hrun⟩ := h
  by_cases hx : x = f
  · subst hx
    simp only [mark, if_true, Option.map_eq_some_iff] at hk
    obtain ⟨m, hm, rfl⟩ := hk
    obtain ⟨_, -, hstatus⟩ := Option.map_eq_some_iff.mp hrun
    exact .inr ⟨rfl, hstatus⟩
  · rw [mark_ne hx] at hk
    exact .inl ⟨k, hk, hrun⟩

theorem grown_refl (p : FrameId) (o : Outline) : Grown p o o :=
  fun _ k hk => ⟨k, hk, rfl, rfl, List.prefix_refl _, fun _ => rfl, id⟩

theorem grow_self (o : Outline) (p x : FrameId) (kind : FrameKind) :
    o.grow p x kind x = some ⟨kind, some p, [], kind.run .Pending⟩ := by
  simp [grow]

theorem grow_host (hne : p ≠ x) {kp : Part} (hp : o p = some kp) :
    o.grow p x kind p = some { kp with children := kp.children ++ [x] } := by
  simp [grow, hne, hp]

theorem grow_ne {y : FrameId} (hx : y ≠ x) (hp : y ≠ p) : o.grow p x kind y = o y := by
  simp [grow, hx, hp]

theorem none_of_grow {y : FrameId} (h : o.grow p x kind y = none) : o y = none := by
  unfold grow at h
  split at h
  · cases h
  · split at h
    · exact Option.map_eq_none_iff.mp h
    · exact h

theorem grow_none {y : FrameId} (hy : y.id < x.id) (h : o y = none) : o.grow p x kind y = none := by
  have hne : y ≠ x := by
    rintro rfl
    exact Nat.lt_irrefl _ hy
  unfold grow
  rw [if_neg hne]
  split
  · rw [h]
    rfl
  · exact h

theorem done_of_grow (h : (o.grow p x kind).Done f) : o.Done f := by
  obtain ⟨k, hk, hrun⟩ := h
  by_cases hx : f = x
  · subst hx
    rw [grow_self] at hk
    cases hk
    cases kind <;> cases hrun
  · by_cases hp : f = p
    · subst hp
      simp only [grow, hx, if_false, if_true, Option.map_eq_some_iff] at hk
      obtain ⟨m, hm, rfl⟩ := hk
      exact ⟨m, hm, hrun⟩
    · rw [grow_ne hx hp] at hk
      exact ⟨k, hk, hrun⟩

theorem grown_grow (hx : o x = none) : Grown p o (o.grow p x kind) := by
  intro y k hk
  have hne : y ≠ x := by
    rintro rfl
    rw [hx] at hk
    cases hk
  by_cases hp : y = p
  · subst hp
    exact ⟨_, grow_host hne hk, rfl, rfl, List.prefix_append _ _, fun hy => absurd rfl hy, id⟩
  · exact ⟨k, (grow_ne hne hp).trans hk, rfl, rfl, List.prefix_refl _, fun _ => rfl, id⟩

/-- No frame has an identifier from `next` on. -/
def Fresh (o : Outline) (next : Nat) : Prop := ∀ x : FrameId, next ≤ x.id → o x = none

theorem Fresh.grow {next : Nat} (h : o.Fresh next) (p : FrameId) (kind : FrameKind) :
    (o.grow p ⟨next⟩ kind).Fresh (next + 1) := by
  intro x hx
  have hne : x ≠ ⟨next⟩ := by
    rintro rfl
    exact Nat.lt_irrefl _ hx
  simp [Outline.grow, hne, h x (Nat.le_of_succ_le hx)]

end Outline

/-! ## A walk that goes on -/

namespace Walk

section Extend

open Outline

variable {w : Walk} {o o' : Outline} {x c d f p t : FrameId} {k kp : Part} {start : NodeId}

theorem IsBranch.grown (hb : w.IsBranch o t start) (h : Grown p o o') : w.IsBranch o' t start := by
  obtain ⟨k, c, hk, hkind, hhead, hc⟩ := hb
  obtain ⟨k', hk', hkind', -, ⟨post, hpre⟩, -⟩ := h t k hk
  refine ⟨k', c, hk', hkind'.trans hkind, ?_, h.is hc⟩
  rw [← hpre, List.head?_append, hhead, Option.some_or]

theorem Follows.grown (hcd : w.Follows o c d) (h : Grown p o o')
    (hp : ∀ join, ¬ o.Is p (.GraphSpan w.graph_ref join)) : w.Follows o' c d := by
  obtain ⟨hdone, node_id, hc, hleads⟩ := hcd
  refine ⟨h.done hdone, node_id, h.is hc, ?_⟩
  cases hr : w.oracle c with
  | Continue =>
    rw [hr] at hleads
    obtain ⟨next, hedge, hd⟩ := hleads
    exact ⟨next, hedge, h.is hd⟩
  | GoTo target =>
    rw [hr] at hleads
    exact h.is hleads
  | Fork branches join =>
    rw [hr] at hleads
    obtain ⟨k, hk, hkind, hbranches⟩ := hleads
    obtain ⟨k', hk', hkind', -, -, hsame, -⟩ := h d k hk
    have hne : d ≠ p := by
      rintro rfl
      exact hp join ⟨k, hk, hkind⟩
    refine ⟨k', hk', hkind'.trans hkind, ?_⟩
    rw [hsame hne]
    exact hbranches.imp fun _ _ hb => hb.grown h
  | _ =>
    rw [hr] at hleads
    exact hleads.elim

/-- A frame keeps its place. -/
theorem Stands.grown {k' : Part} (hs : w.Stands o x k) (h : Grown p o o') (hk : o x = some k)
    (hk' : o' x = some k') : w.Stands o' x k' := by
  obtain ⟨k'', hk'', hkind, hparent, -⟩ := h x k hk
  rw [hk'] at hk''
  cases hk''
  rcases hs with hroot | ⟨q, m, hq, hm, hmem, hplace⟩
  · exact .inl hroot
  · obtain ⟨m', hm', hmkind, -, hpre, -⟩ := h q m hm
    refine .inr ⟨q, m', hparent.trans hq, hm', hpre.subset hmem, ?_⟩
    rw [hkind, hmkind]
    exact hplace

/-- What a frame with new children has to meet. -/
structure Fits (w : Walk) (o : Outline) (x : FrameId) (k : Part) : Prop where
  stands : w.Stands o x k
  child : ∀ c ∈ k.children, ∃ m, o c = some m ∧ m.parent = some x
  line : k.kind = .GraphThread w.graph_ref → w.Line o k.children

/-- A walk goes on at `p`. -/
structure GoesOn (w : Walk) (p : FrameId) (o o' : Outline) : Prop where
  grown : Grown p o o'
  is_no_fork : ∀ join, ¬ o.Is p (.GraphSpan w.graph_ref join)
  done : ∀ q k c, o q = some k → q ≠ p → c ∈ k.children → o'.Done c → o.Done c
  new : ∀ x k, o x = none → o' x = some k → w.Fits o' x k
  host : ∀ k, o' p = some k → w.Fits o' p k
  root : w.Root o'
  is_open : ∀ x k join, o x = some k → k.kind = .GraphSpan w.graph_ref join →
    ∃ t ∈ k.children, ¬ o'.Ended t

theorem Root.grown (h : w.Root o) (hgrown : Grown p o o') (hne : (⟨0⟩ : FrameId) ≠ p) :
    w.Root o' := by
  obtain ⟨k, hk, hkind, hparent, hchildren⟩ := h
  obtain ⟨k', hk', hkind', hparent', -, hsame, -⟩ := hgrown ⟨0⟩ k hk
  refine ⟨k', hk', hkind'.trans hkind, hparent'.trans hparent, ?_⟩
  rw [hsame hne]
  rcases hchildren with hnone | ⟨t, ht, hbranch⟩
  · exact .inl hnone
  · exact .inr ⟨t, ht, hbranch.grown hgrown⟩

/-- A thread that has not ended stays open, when the walk goes on elsewhere. -/
theorem stays_open (hgrown : Grown p o o')
    (hdone : ∀ c, c ∈ k.children → o'.Done c → o.Done c) (ht : o t = some k) (hne : t ≠ p)
    (hopen : ¬ o.Ended t) : ¬ o'.Ended t := by
  rintro ⟨k', c, hk', hlast, hc⟩
  obtain ⟨k'', hk'', -, -, -, hsame, -⟩ := hgrown t k ht
  rw [hk'] at hk''
  cases hk''
  rw [hsame hne] at hlast
  exact hopen ⟨k, c, ht, hlast, hdone c (List.mem_of_getLast? hlast) hc⟩

theorem Walking.goesOn (h : w.Walking o) (hgo : w.GoesOn p o o') : w.Walking o' where
  stands x k' hx' := by
    cases hx : o x with
    | none => exact (hgo.new x k' hx hx').stands
    | some k => exact (h.stands x k hx).grown hgo.grown hx hx'
  child q k' c hq' hc := by
    by_cases hqp : q = p
    · subst hqp
      exact (hgo.host k' hq').child c hc
    cases hq : o q with
    | none => exact (hgo.new q k' hq hq').child c hc
    | some k =>
      obtain ⟨k'', hk'', -, -, -, hsame, -⟩ := hgo.grown q k hq
      rw [hq'] at hk''
      cases hk''
      rw [hsame hqp] at hc
      exact hgo.grown.parent (h.child q k c hq hc)
  root := hgo.root
  line q k' hq' hkind' := by
    by_cases hqp : q = p
    · subst hqp
      exact (hgo.host k' hq').line hkind'
    cases hq : o q with
    | none => exact (hgo.new q k' hq hq').line hkind'
    | some k =>
      obtain ⟨k'', hk'', hkind, -, -, hsame, -⟩ := hgo.grown q k hq
      rw [hq'] at hk''
      cases hk''
      rw [hsame hqp]
      have hline := h.line q k hq (hkind.symm.trans hkind')
      refine ⟨hline.nodup, hline.chain.imp fun _ _ hcd => hcd.grown hgo.grown hgo.is_no_fork,
        fun c hc => ?_⟩
      have hmem := List.mem_of_getLast? hc
      obtain ⟨m, hm, -⟩ := h.child q k c hq hmem
      have hrests := hline.rests c hc
      refine ⟨fun hdone => hrests.1 (hgo.done q k c hq hqp hmem hdone), fun m' join hm' hspan => ?_⟩
      obtain ⟨m'', hm'', hmkind, -, -, hmsame, -⟩ := hgo.grown c m hm
      rw [hm'] at hm''
      cases hm''
      have hspan' := hmkind.symm.trans hspan
      have hcp : c ≠ p := by
        rintro rfl
        exact hgo.is_no_fork join ⟨m, hm, hspan'⟩
      rw [hmsame hcp]
      exact hgo.is_open c m join hm hspan'

/-- The same frames, with the same ends. -/
theorem Walking.mark {status : FrameStatus} (h : w.Walking o) (hstatus : status ≠ .Completed)
    (hf : ¬ o.Done f) : w.Walking (o.mark f status) := by
  have hgrown : ∀ p, Grown p o (o.mark f status) := fun p => (grown_refl p o).mark (.inr hf)
  have hdone : ∀ x, (o.mark f status).Done x → o.Done x := fun x hx =>
    (done_of_mark hx).resolve_right fun hend => hstatus hend.2
  refine h.goesOn (p := ⟨0⟩) ⟨hgrown _, ?_, fun _ _ c _ _ _ hc => hdone c hc, ?_, ?_, ?_, ?_⟩
  · rintro join ⟨k, hk, hspan⟩
    have hroot := h.root_kind hk
    simp [hspan] at hroot
  · intro x k hx hx'
    obtain ⟨m, hm, -⟩ := of_mark hx'
    rw [hx] at hm
    cases hm
  · intro k' hk'
    obtain ⟨k, hk, hkind, -, hchildren⟩ := of_mark hk'
    refine ⟨.inl rfl, fun c hc => ?_, fun hthread => ?_⟩
    · rw [hchildren] at hc
      exact (hgrown ⟨0⟩).parent (h.child _ k c hk hc)
    · have hroot := h.root_kind hk
      rw [← hkind, hthread] at hroot
      cases hroot
  · exact h.root.grown (hgrown ⟨1⟩) (by simp)
  · intro x k join hx hspan
    obtain ⟨t, ht, hopen⟩ := h.fork_is_open hx hspan
    refine ⟨t, ht, ?_⟩
    rintro ⟨k', c, hk', hlast, hc⟩
    obtain ⟨m, hm, -, -, hchildren⟩ := of_mark hk'
    rw [hchildren] at hlast
    exact hopen ⟨m, c, hm, hlast, hdone c hc⟩

end Extend

/-! ### The end of a node -/

section Ends

open Outline

variable {w : Walk} {o o' : Outline} {x c f p q : FrameId} {k kp : Part}

theorem is_no_fork (hp : o p = some kp) (hthread : kp.kind = .GraphThread w.graph_ref)
    (join : NodeId) : ¬ o.Is p (.GraphSpan w.graph_ref join) := by
  rintro ⟨k, hk, hspan⟩
  rw [hp] at hk
  cases hk
  simp [hthread] at hspan

theorem Walking.is_no_root (h : w.Walking o) (hp : o p = some kp)
    (hthread : kp.kind = .GraphThread w.graph_ref) : (⟨0⟩ : FrameId) ≠ p := by
  rintro rfl
  have hroot := h.root_kind hp
  simp [hthread] at hroot

theorem thread_ne_node {node_id : NodeId} (hp : o p = some kp)
    (hthread : kp.kind = .GraphThread w.graph_ref) (hnode : o.Is f (.GraphNode w.graph_ref node_id)) :
    p ≠ f := by
  rintro rfl
  obtain ⟨m, hm, hkind⟩ := hnode
  rw [hp] at hm
  cases hm
  simp [hthread] at hkind

/-- The node is in no other thread. -/
theorem Walking.only_thread (h : w.Walking o) (hp : o p = some kp) (hf : f ∈ kp.children)
    (hq : o q = some k) (hc : f ∈ k.children) : q = p := by
  obtain ⟨m, hm, hparent⟩ := h.child p kp f hp hf
  obtain ⟨m', hm', hparent'⟩ := h.child q k f hq hc
  rw [hm] at hm'
  cases hm'
  rw [hparent] at hparent'
  exact (Option.some.inj hparent').symm

/-- The fork that `p` is a branch of, if it is one, has another branch that has not ended. -/
def OthersOpen (w : Walk) (o : Outline) (p : FrameId) : Prop :=
  ∀ q kq join, o q = some kq → kq.kind = .GraphSpan w.graph_ref join → p ∈ kq.children →
    ∃ t ∈ kq.children, t ≠ p ∧ ¬ o.Ended t

/-- Every fork keeps an open branch. -/
theorem Walking.forks_open (h : w.Walking o) (hgrown : Grown p o o')
    (hdone : ∀ q k c, o q = some k → q ≠ p → c ∈ k.children → o'.Done c → o.Done c)
    (hbranch : ¬ o'.Ended p ∨ w.OthersOpen o p) :
    ∀ x k join, o x = some k → k.kind = .GraphSpan w.graph_ref join →
      ∃ t ∈ k.children, ¬ o'.Ended t := by
  intro x k join hx hspan
  have hstays : ∀ t ∈ k.children, t ≠ p → ¬ o.Ended t → ¬ o'.Ended t := by
    intro t ht hne hopen
    obtain ⟨m, hm, -⟩ := h.child x k t hx ht
    exact stays_open hgrown (fun c hc => hdone t m c hm hne hc) hm hne hopen
  obtain ⟨t, ht, hopen⟩ := h.fork_is_open hx hspan
  by_cases hne : t = p
  · subst hne
    rcases hbranch with hthread | hothers
    · exact ⟨t, ht, hthread⟩
    · obtain ⟨t', ht', hne', hopen'⟩ := hothers x k join hx hspan ht
      exact ⟨t', ht', hstays t' ht' hne' hopen'⟩
  · exact ⟨t, ht, hstays t ht hne hopen⟩

variable {node_id : NodeId} (h : w.Walking o) (hp : o p = some kp)
  (hthread : kp.kind = .GraphThread w.graph_ref) (hf : f ∈ kp.children) (hopen : ¬ o.Done f)
  (hnode : o.Is f (.GraphNode w.graph_ref node_id))
include h hp hthread hf hopen hnode

/-- A node ends the walk of its thread. -/
theorem Walking.ends (hresult : w.oracle f = .Completed) (hothers : w.OthersOpen o p) :
    w.Walking (o.mark f .Completed) := by
  have hgrown : ∀ q, Grown q o (o.mark f .Completed) := fun q => (grown_refl q o).mark (.inl rfl)
  have hdone : ∀ q k c, o q = some k → q ≠ p → c ∈ k.children → (o.mark f .Completed).Done c →
      o.Done c := by
    intro q k c hq hne hc hd
    rcases done_of_mark hd with hold | ⟨rfl, -⟩
    · exact hold
    · exact absurd (h.only_thread hp hf hq hc) hne
  refine h.goesOn (p := p) ⟨hgrown p, is_no_fork hp hthread, hdone, ?_, ?_,
    h.root.grown (hgrown p) (h.is_no_root hp hthread),
    h.forks_open (hgrown p) hdone (.inr hothers)⟩
  · intro x k hx hx'
    obtain ⟨m, hm, -⟩ := of_mark hx'
    rw [hx] at hm
    cases hm
  · intro k' hk'
    obtain ⟨m, hm, -, -, hchildren⟩ := of_mark hk'
    rw [hp] at hm
    cases hm
    refine ⟨(h.stands p kp hp).grown (hgrown p) hp hk', fun c hc => ?_, fun _ => ?_⟩
    · rw [hchildren] at hc
      exact (hgrown p).parent (h.child p kp c hp hc)
    · have hline := h.line p kp hp hthread
      rw [hchildren]
      refine ⟨hline.nodup,
        hline.chain.imp fun _ _ hcd => hcd.grown (hgrown p) (is_no_fork hp hthread), fun c hc => ?_⟩
      rw [h.last_of_not_done hp hthread hf hopen] at hc
      cases hc
      refine ⟨fun _ => hresult, fun m' join hm' hspan => ?_⟩
      obtain ⟨m, hm, hkind⟩ := (hgrown p).is hnode
      rw [hm'] at hm
      cases hm
      simp [hkind] at hspan

/-- A node is followed by a new frame. In `o₁` the frame is there, with all that is under it, and
the node has not ended yet. -/
theorem Walking.leads {o₁ : Outline} (hfree : o x = none) (hgrown : Grown p o o₁)
    (hdone : ∀ y, o₁.Done y → o.Done y)
    (hline : o₁ p = some { kp with children := kp.children ++ [x] })
    (hx : ∃ m, (o₁.mark f .Completed) x = some m ∧ m.parent = some p)
    (hxopen : ¬ (o₁.mark f .Completed).Done x)
    (hxfork : ∀ k join, (o₁.mark f .Completed) x = some k → k.kind = .GraphSpan w.graph_ref join →
      ∃ t ∈ k.children, ¬ (o₁.mark f .Completed).Ended t)
    (hrun : (o₁.mark f .Completed).Done f)
    (hleads : w.Leads (o₁.mark f .Completed) node_id (w.oracle f) x)
    (hnew : ∀ y k, o y = none → (o₁.mark f .Completed) y = some k →
      w.Fits (o₁.mark f .Completed) y k) :
    w.Walking (o₁.mark f .Completed) := by
  have hall : Grown p o (o₁.mark f .Completed) := hgrown.mark (.inl rfl)
  have hends : ∀ q k c, o q = some k → q ≠ p → c ∈ k.children → (o₁.mark f .Completed).Done c →
      o.Done c := by
    intro q k c hq hne hc hd
    rcases done_of_mark hd with hold | ⟨rfl, -⟩
    · exact hdone c hold
    · exact absurd (h.only_thread hp hf hq hc) hne
  have hpf := thread_ne_node hp hthread hnode
  have hp' : (o₁.mark f .Completed) p = some { kp with children := kp.children ++ [x] } := by
    rw [mark_ne hpf, hline]
  have hthreadOpen : ¬ (o₁.mark f .Completed).Ended p := by
    rintro ⟨k, c, hk, hlast, hc⟩
    rw [hp'] at hk
    cases hk
    simp only [List.getLast?_append, List.getLast?_singleton, Option.some_or] at hlast
    cases hlast
    exact hxopen hc
  refine h.goesOn (p := p) ⟨hall, is_no_fork hp hthread, hends, hnew, ?_,
    h.root.grown hall (h.is_no_root hp hthread), h.forks_open hall hends (.inl hthreadOpen)⟩
  intro k' hk'
  refine ⟨(h.stands p kp hp).grown hall hp hk', ?_, fun _ => ?_⟩
  all_goals
    rw [hp'] at hk'
    cases hk'
  · intro c hc
    rcases List.mem_append.mp hc with hold | hxc
    · exact hall.parent (h.child p kp c hp hold)
    · cases List.mem_singleton.mp hxc
      exact hx
  · refine ⟨List.nodup_append.mpr ⟨(h.line p kp hp hthread).nodup, List.pairwise_singleton _ x, ?_⟩,
      List.isChain_append.mpr ⟨?_, List.isChain_singleton x, ?_⟩, fun c hc => ?_⟩
    · rintro c hc y hy rfl
      obtain rfl := List.mem_singleton.mp hy
      obtain ⟨m, hm, -⟩ := h.child p kp _ hp hc
      rw [hfree] at hm
      cases hm
    · have hold := (h.line p kp hp hthread).chain
      exact hold.imp fun _ _ hcd => hcd.grown hall (is_no_fork hp hthread)
    · intro c hc y hy
      rw [h.last_of_not_done hp hthread hf hopen] at hc
      cases hc
      cases hy
      exact ⟨hrun, node_id, hall.is hnode, hleads⟩
    · simp only [List.getLast?_append, List.getLast?_singleton, Option.some_or] at hc
      cases hc
      exact ⟨fun hd => absurd hd hxopen, hxfork⟩

/-- A node is followed by another node. -/
theorem Walking.leads_to_node {next : NodeId} (hx : o x = none)
    (hrun : ((o.grow p x (.GraphNode w.graph_ref next)).mark f .Completed).Done f)
    (hresult : w.oracle f = .GoTo next ∨
      (w.oracle f = .Continue ∧ w.spec.edges node_id = some next)) :
    w.Walking ((o.grow p x (.GraphNode w.graph_ref next)).mark f .Completed) := by
  have hxf : x ≠ f := by
    rintro rfl
    obtain ⟨m, hm, -⟩ := hnode
    rw [hx] at hm
    cases hm
  have hpx : p ≠ x := by
    rintro rfl
    rw [hx] at hp
    cases hp
  have hpf := thread_ne_node hp hthread hnode
  have hself : ((o.grow p x (.GraphNode w.graph_ref next)).mark f .Completed) x =
      some ⟨.GraphNode w.graph_ref next, some p, [], some .Pending⟩ := by
    rw [mark_ne hxf, grow_self]
    rfl
  have hhost : (o.grow p x (.GraphNode w.graph_ref next)) p =
      some { kp with children := kp.children ++ [x] } := grow_host hpx hp
  refine h.leads hp hthread hf hopen hnode hx (grown_grow hx) (fun _ => done_of_grow) hhost
    ⟨_, hself, rfl⟩ ?_ ?_ hrun ?_ ?_
  · rintro ⟨k, hk, hend⟩
    rw [hself] at hk
    cases hk
    cases hend
  · intro k join hk hspan
    rw [hself] at hk
    cases hk
    cases hspan
  · rcases hresult with hgoto | ⟨hcontinue, hedge⟩
    · rw [hgoto]
      exact ⟨_, hself, rfl⟩
    · rw [hcontinue]
      exact ⟨next, hedge, _, hself, rfl⟩
  · intro y k hy hk
    have hyx : y = x := by
      by_contra hne
      obtain ⟨m, hm, -⟩ := of_mark hk
      have hyp : y ≠ p := by
        rintro rfl
        rw [hp] at hy
        cases hy
      rw [grow_ne hne hyp, hy] at hm
      cases hm
    subst hyx
    rw [hself] at hk
    cases hk
    have hp' : ((o.grow p y (.GraphNode w.graph_ref next)).mark f .Completed) p =
        some { kp with children := kp.children ++ [y] } := (mark_ne hpf).trans hhost
    exact ⟨.inr ⟨p, _, rfl, hp', by simp, .inr ⟨hthread, .inl ⟨next, rfl⟩⟩⟩, by simp,
      fun hk => by cases hk⟩

end Ends

/-! ### Forks -/

end Walk

namespace Outline

/-- The threads of a fork, each with its first node, from the identifier `next` on. -/
def branch (graph_ref : GraphRef) (span : FrameId) : Nat → List Branch → Outline → Outline
  | _, [], o => o
  | next, b :: branches, o =>
    branch graph_ref span (next + 2) branches
      ((o.grow span ⟨next⟩ (.GraphThread graph_ref)).grow ⟨next⟩ ⟨next + 1⟩
        (.GraphNode graph_ref b.start))

/-- The thread `t` under `span` has the one node `c`, which is new. -/
def Sprig (graph_ref : GraphRef) (o : Outline) (span t c : FrameId) (start : NodeId) : Prop :=
  o t = some ⟨.GraphThread graph_ref, some span, [c], none⟩ ∧
    o c = some ⟨.GraphNode graph_ref start, some t, [], some .Pending⟩

/-- What the branches leave: all other frames, and one new thread for each branch. -/
structure Branched (graph_ref : GraphRef) (span : FrameId) (k : Part) (branches : List Branch)
    (ts : List FrameId) (o o' : Outline) : Prop where
  fork : o' span = some { k with children := k.children ++ ts }
  old : ∀ x m, x ≠ span → o x = some m → o' x = some m
  threads : List.Forall₂ (fun t (b : Branch) =>
    ∃ c, o t = none ∧ o c = none ∧ Sprig graph_ref o' span t c b.start) ts branches
  new : ∀ x m, o x = none → o' x = some m →
    ∃ t ∈ ts, ∃ c start, Sprig graph_ref o' span t c start ∧ (x = t ∨ x = c)

/-- Each element on the left has a partner. -/
theorem exists_partner {α β : Type} {R : α → β → Prop} {xs : List α} {ys : List β} {a : α}
    (h : List.Forall₂ R xs ys) (ha : a ∈ xs) : ∃ b, R a b := by
  induction h with
  | nil => cases ha
  | cons hab _ ih =>
    rcases List.mem_cons.mp ha with rfl | hmem
    · exact ⟨_, hab⟩
    · exact ih hmem

theorem branched (graph_ref : GraphRef) {span : FrameId} (branches : List Branch) {next : Nat}
    {o : Outline} {k : Part} (hspan : span.id < next) (hk : o span = some k)
    (hfresh : o.Fresh next) :
    ∃ ts, Branched graph_ref span k branches ts o (branch graph_ref span next branches o) := by
  induction branches generalizing next o k with
  | nil =>
    refine ⟨[], ?_, fun _ _ _ hm => hm, .nil, fun x m hx hm => ?_⟩
    · rw [List.append_nil]
      exact hk
    · change o x = some m at hm
      rw [hx] at hm
      cases hm
  | cons b branches ih =>
    let t : FrameId := ⟨next⟩
    let c : FrameId := ⟨next + 1⟩
    let o₁ := (o.grow span t (.GraphThread graph_ref)).grow t c (.GraphNode graph_ref b.start)
    have hne : ∀ {x y : FrameId}, x.id < y.id → y ≠ x := by
      rintro x y hlt rfl
      exact Nat.lt_irrefl _ hlt
    have hts : t ≠ span := hne hspan
    have hcs : c ≠ span := hne (Nat.lt_succ_of_lt hspan)
    have hct : c ≠ t := hne (Nat.lt_succ_self next)
    have ht : o₁ t = some ⟨.GraphThread graph_ref, some span, [c], none⟩ := by
      change (o.grow span t _).grow t c _ t = _
      rw [grow_host hct.symm (grow_self _ _ _ _)]
      rfl
    have hc : o₁ c = some ⟨.GraphNode graph_ref b.start, some t, [], some .Pending⟩ :=
      grow_self _ _ _ _
    have hold : ∀ x, x ≠ span → x ≠ t → x ≠ c → o₁ x = o x := by
      intro x hxs hxt hxc
      change (o.grow span t _).grow t c _ x = _
      rw [grow_ne hxc hxt, grow_ne hxt hxs]
    have hk₁ : o₁ span = some { k with children := k.children ++ [t] } := by
      change (o.grow span t _).grow t c _ span = _
      rw [grow_ne hcs.symm hts.symm, grow_host hts.symm hk]
    have hfresh₁ : o₁.Fresh (next + 2) := (hfresh.grow span (.GraphThread graph_ref)).grow t _
    have hspan₁ : span.id < next + 2 := by omega
    obtain ⟨ts, hb⟩ := ih hspan₁ hk₁ hfresh₁
    have hsprig : Sprig graph_ref (branch graph_ref span (next + 2) branches o₁) span t c b.start :=
      ⟨hb.old t _ hts ht, hb.old c _ hcs hc⟩
    have hnew : ∀ x, o₁ x = none → o x = none := by
      intro x hx
      have hgone : ∀ {y : FrameId} {m : Part}, o₁ y = some m → x ≠ y := by
        rintro y m hy rfl
        rw [hx] at hy
        cases hy
      rw [← hold x (hgone hk₁) (hgone ht) (hgone hc), hx]
    refine ⟨t :: ts, ?_, fun x m hxs hm => ?_, .cons ⟨c, hfresh t (Nat.le_refl _),
      hfresh c (Nat.le_succ _), hsprig⟩ (hb.threads.imp ?_), fun x m hx hm => ?_⟩
    · have hend := hb.fork
      rw [List.append_assoc] at hend
      exact hend
    · have hfound : ∀ y : FrameId, next ≤ y.id → x ≠ y := by
        rintro y hy rfl
        rw [hfresh x hy] at hm
        cases hm
      refine hb.old x m hxs ?_
      rw [hold x hxs (hfound t (Nat.le_refl _)) (hfound c (Nat.le_succ _)), hm]
    · rintro t' b' ⟨c', ht', hc', hsprig'⟩
      exact ⟨c', hnew t' ht', hnew c' hc', hsprig'⟩
    · by_cases hxt : x = t
      · exact ⟨t, by simp, c, b.start, hsprig, .inl hxt⟩
      · by_cases hxc : x = c
        · exact ⟨t, by simp, c, b.start, hsprig, .inr hxc⟩
        · have hxs : x ≠ span := by
            rintro rfl
            rw [hk] at hx
            cases hx
          obtain ⟨t', ht', hrest⟩ := hb.new x m (by rw [hold x hxs hxt hxc, hx]) hm
          exact ⟨t', by simp [ht'], hrest⟩

variable {graph_ref : GraphRef} {span : FrameId} {k : Part} {branches : List Branch}
  {ts : List FrameId}

theorem Branched.grown (h : Branched graph_ref span k branches ts o o') (hk : o span = some k) :
    Grown span o o' := by
  intro x m hm
  by_cases hx : x = span
  · subst hx
    rw [hk] at hm
    cases hm
    exact ⟨_, h.fork, rfl, rfl, List.prefix_append _ _, fun hne => absurd rfl hne, id⟩
  · exact ⟨m, h.old x m hx hm, rfl, rfl, List.prefix_refl _, fun _ => rfl, id⟩

theorem Branched.done (h : Branched graph_ref span k branches ts o o') (hk : o span = some k)
    (hx : o'.Done x) : o.Done x := by
  obtain ⟨m, hm, hrun⟩ := hx
  cases hold : o x with
  | some n =>
    by_cases hxs : x = span
    · subst hxs
      rw [h.fork] at hm
      cases hm
      exact ⟨k, hk, hrun⟩
    · rw [h.old x n hxs hold] at hm
      cases hm
      exact ⟨_, hold, hrun⟩
  | none =>
    obtain ⟨t, -, c, start, ⟨ht, hc⟩, rfl | rfl⟩ := h.new x m hold hm
    · rw [ht] at hm
      cases hm
      cases hrun
    · rw [hc] at hm
      cases hm
      cases hrun

end Outline

namespace Walk

open Outline

variable {w : Walk} {o : Outline} {f p : FrameId} {kp : Part} {node_id : NodeId}

section Sprigs

variable {q t c : FrameId} {k : Part} {start : NodeId} (h : Sprig w.graph_ref o q t c start)
include h

theorem not_done_of_sprig : ¬ o.Done c := by
  rintro ⟨m, hm, hend⟩
  rw [h.2] at hm
  cases hm
  cases hend

theorem not_ended_of_sprig : ¬ o.Ended t := by
  rintro ⟨m, c', hm, hlast, hend⟩
  rw [h.1] at hm
  cases hm
  rw [List.getLast?_singleton] at hlast
  cases hlast
  exact not_done_of_sprig h hend

theorem fits_thread (hq : o q = some k) (ht : t ∈ k.children)
    (hplace : q = ⟨0⟩ ∨ ∃ join, k.kind = .GraphSpan w.graph_ref join) :
    w.Fits o t ⟨.GraphThread w.graph_ref, some q, [c], none⟩ := by
  refine ⟨.inr ⟨q, k, rfl, hq, ht, .inl ⟨rfl, hplace⟩⟩, fun x hx => ?_,
    fun _ => ⟨List.pairwise_singleton _ c, List.isChain_singleton c, fun x hx => ?_⟩⟩
  · cases List.mem_singleton.mp hx
    exact ⟨_, h.2, rfl⟩
  · rw [List.getLast?_singleton] at hx
    cases hx
    refine ⟨fun hend => absurd hend (not_done_of_sprig h), fun m join hm hkind => ?_⟩
    rw [h.2] at hm
    cases hm
    cases hkind

theorem fits_node : w.Fits o c ⟨.GraphNode w.graph_ref start, some t, [], some .Pending⟩ where
  stands := .inr ⟨t, _, rfl, h.1, List.mem_singleton_self c, .inr ⟨rfl, .inl ⟨start, rfl⟩⟩⟩
  child _ hx := by cases hx
  line hkind := by cases hkind

theorem isBranch_of_sprig : w.IsBranch o t start := ⟨_, c, h.1, rfl, rfl, _, h.2, rfl⟩

end Sprigs

/-- The thread of the root starts at the entry. -/
theorem Walking.starts (h : w.Walking o) {k : Part} {t c : FrameId} (hroot : o ⟨0⟩ = some k)
    (hnone : k.children = []) (ht : o t = none) (hc : o c = none) (hne : c ≠ t) :
    w.Walking ((o.grow ⟨0⟩ t (.GraphThread w.graph_ref)).grow t c
      (.GraphNode w.graph_ref w.entry)) := by
  have hold : ∀ {y : FrameId}, o y = none → y ≠ ⟨0⟩ := by
    rintro y hy rfl
    rw [hroot] at hy
    cases hy
  have hc₁ : (o.grow ⟨0⟩ t (.GraphThread w.graph_ref)) c = none := by
    rw [grow_ne hne (hold hc), hc]
  have hgrown : Grown ⟨0⟩ o ((o.grow ⟨0⟩ t (.GraphThread w.graph_ref)).grow t c
      (.GraphNode w.graph_ref w.entry)) := (grown_grow ht).trans_new (grown_grow hc₁) ht
  have hsprig : Sprig w.graph_ref ((o.grow ⟨0⟩ t (.GraphThread w.graph_ref)).grow t c
      (.GraphNode w.graph_ref w.entry)) ⟨0⟩ t c w.entry :=
    ⟨grow_host hne.symm (grow_self _ _ _ _), grow_self _ _ _ _⟩
  have hhost : ((o.grow ⟨0⟩ t (.GraphThread w.graph_ref)).grow t c
      (.GraphNode w.graph_ref w.entry)) ⟨0⟩ = some { k with children := [t] } := by
    rw [grow_ne (hold hc).symm (hold ht).symm, grow_host (hold ht).symm hroot, hnone]
    rfl
  have hnew : ∀ y m, o y = none → ((o.grow ⟨0⟩ t (.GraphThread w.graph_ref)).grow t c
      (.GraphNode w.graph_ref w.entry)) y = some m → y = t ∨ y = c := by
    intro y m hy hm
    by_contra hneither
    push Not at hneither
    rw [grow_ne hneither.2 hneither.1, grow_ne hneither.1 (hold hy), hy] at hm
    cases hm
  have hdone : ∀ y, ((o.grow ⟨0⟩ t (.GraphThread w.graph_ref)).grow t c
      (.GraphNode w.graph_ref w.entry)).Done y → o.Done y := fun _ hy => done_of_grow (done_of_grow hy)
  generalize (o.grow ⟨0⟩ t (.GraphThread w.graph_ref)).grow t c
    (.GraphNode w.graph_ref w.entry) = o' at hgrown hsprig hhost hnew hdone ⊢
  have hkind := h.root_kind hroot
  obtain ⟨k', hk', -, hparent, -⟩ := h.root
  rw [hroot] at hk'
  cases hk'
  refine h.goesOn (p := ⟨0⟩) ⟨hgrown, ?_, fun _ _ c _ _ _ hd => hdone c hd, ?_, ?_,
    ⟨_, hhost, hkind, hparent, .inr ⟨t, rfl, isBranch_of_sprig hsprig⟩⟩, ?_⟩
  · rintro join ⟨m, hm, hspan⟩
    rw [h.root_kind hm] at hspan
    cases hspan
  · intro y m hy hm
    rcases hnew y m hy hm with rfl | rfl
    · rw [hsprig.1] at hm
      cases hm
      exact fits_thread hsprig hhost (List.mem_singleton_self y) (.inl rfl)
    · rw [hsprig.2] at hm
      cases hm
      exact fits_node hsprig
  · intro m hm
    rw [hhost] at hm
    cases hm
    refine ⟨.inl rfl, fun y hy => ?_, fun hthread => ?_⟩
    · cases List.mem_singleton.mp hy
      exact ⟨_, hsprig.1, rfl⟩
    · rw [hkind] at hthread
      cases hthread
  · refine h.forks_open hgrown (fun _ _ c _ _ _ hd => hdone c hd) (.inl ?_)
    rintro ⟨m, y, hm, hlast, n, hn, hend⟩
    rw [hhost] at hm
    cases hm
    rw [List.getLast?_singleton] at hlast
    cases hlast
    rw [hsprig.1] at hn
    cases hn
    cases hend

/-- A node is followed by a fork, and the fork by its branches. -/
theorem Walking.leads_to_fork (h : w.Walking o) (hp : o p = some kp)
    (hthread : kp.kind = .GraphThread w.graph_ref) (hf : f ∈ kp.children) (hopen : ¬ o.Done f)
    (hnode : o.Is f (.GraphNode w.graph_ref node_id)) {next : Nat} {branches : List Branch}
    {join : NodeId} (hfresh : o.Fresh next)
    (hrun : ((branch w.graph_ref ⟨next⟩ (next + 1) branches
      (o.grow p ⟨next⟩ (.GraphSpan w.graph_ref join))).mark f .Completed).Done f)
    (hresult : w.oracle f = .Fork branches join) (hsome : branches ≠ []) :
    w.Walking ((branch w.graph_ref ⟨next⟩ (next + 1) branches
      (o.grow p ⟨next⟩ (.GraphSpan w.graph_ref join))).mark f .Completed) := by
  have hspan : o ⟨next⟩ = none := hfresh _ (Nat.le_refl _)
  have hold : ∀ {x y : FrameId}, (∃ k, o x = some k) → o y = none → y ≠ x := by
    rintro x y ⟨k, hk⟩ hy rfl
    rw [hk] at hy
    cases hy
  have hsp := hold ⟨kp, hp⟩ hspan
  have hself := grow_self o p ⟨next⟩ (.GraphSpan w.graph_ref join)
  obtain ⟨ts, hb⟩ := branched w.graph_ref branches (Nat.lt_succ_self next) hself (hfresh.grow p _)
  generalize branch w.graph_ref ⟨next⟩ (next + 1) branches
    (o.grow p ⟨next⟩ (.GraphSpan w.graph_ref join)) = o₁ at hb hrun ⊢
  have hgrown : Grown p o o₁ := (grown_grow hspan).trans_new (hb.grown hself) hspan
  have hmark : Grown p o₁ (o₁.mark f .Completed) := (grown_refl p o₁).mark (.inl rfl)
  -- the new frames are not the node that ends
  have hnew : ∀ x, o x = none → o₁.mark f .Completed x = o₁ x := by
    obtain ⟨m, hm, -⟩ := hnode
    exact fun x hx => mark_ne (hold ⟨m, hm⟩ hx)
  have hhost : o₁ p = some { kp with children := kp.children ++ [⟨next⟩] } :=
    hb.old p _ hsp.symm (grow_host hsp.symm hp)
  have hhost' : o₁.mark f .Completed p = some { kp with children := kp.children ++ [⟨next⟩] } :=
    (mark_ne (thread_ne_node hp hthread hnode)).trans hhost
  have hfork := (hnew _ hspan).trans hb.fork
  simp only [List.nil_append] at hfork
  have hsprigs : ∀ t ∈ ts, o t = none ∧ ∃ c start,
      Sprig w.graph_ref (o₁.mark f .Completed) ⟨next⟩ t c start := by
    intro t ht
    obtain ⟨b, c, htnew, hcnew, hsprig⟩ := exists_partner hb.threads ht
    exact ⟨none_of_grow htnew, c, b.start, (hnew t (none_of_grow htnew)).trans hsprig.1,
      (hnew c (none_of_grow hcnew)).trans hsprig.2⟩
  refine h.leads hp hthread hf hopen hnode hspan hgrown (fun y hy => done_of_grow (hb.done hself hy)) hhost
    ⟨_, hfork, rfl⟩ ?_ ?_ hrun ?_ ?_
  · rintro ⟨k, hk, hend⟩
    rw [hfork] at hk
    cases hk
    cases hend
  · intro k j hk hkind
    rw [hfork] at hk
    cases hk
    have hts : ts ≠ [] := by
      rintro rfl
      have hlength := hb.threads.length_eq
      exact hsome (List.length_eq_zero_iff.mp hlength.symm)
    obtain ⟨t, rest, rfl⟩ := List.exists_cons_of_ne_nil hts
    obtain ⟨-, c, start, hsprig⟩ := hsprigs t List.mem_cons_self
    exact ⟨t, List.mem_cons_self, not_ended_of_sprig hsprig⟩
  · rw [hresult]
    refine ⟨_, hfork, rfl, hb.threads.imp ?_⟩
    rintro t b ⟨c, -, -, hsprig⟩
    exact (isBranch_of_sprig hsprig).grown hmark
  · intro y k hy hk
    by_cases hys : y = ⟨next⟩
    · subst hys
      rw [hfork] at hk
      cases hk
      refine ⟨.inr ⟨p, _, rfl, hhost', by simp, .inr ⟨hthread, .inr ⟨join, rfl⟩⟩⟩, fun t ht => ?_,
        fun hkind => by cases hkind⟩
      obtain ⟨-, c, start, hsprig, -⟩ := hsprigs t ht
      exact ⟨_, hsprig, rfl⟩
    · have hk₁ := hk
      rw [hnew y hy] at hk₁
      have hfree : o.grow p ⟨next⟩ (.GraphSpan w.graph_ref join) y = none := by
        rw [grow_ne hys (hold ⟨kp, hp⟩ hy), hy]
      obtain ⟨t, ht, c, start, hsprig, hcase⟩ := hb.new y k hfree hk₁
      obtain ⟨htnew, c', start', hsprig'⟩ := hsprigs t ht
      have heq := hsprig'.1
      rw [hnew t htnew, hsprig.1] at heq
      obtain rfl : c = c' := by simpa using heq
      rcases hcase with rfl | rfl
      · rw [hsprig'.1] at hk
        cases hk
        exact fits_thread hsprig' hfork ht (.inr ⟨join, rfl⟩)
      · rw [hsprig'.2] at hk
        cases hk
        exact fits_node hsprig'

end Walk

/-! ## One step of the walk -/

namespace Outline

/-- The frames stay with their parents and their runs, and no new one has run. -/
structure Extends (o o' : Outline) : Prop where
  old : ∀ x k, o x = some k → ∃ k', o' x = some k' ∧ k'.kind = k.kind ∧ k'.parent = k.parent ∧
    k'.run = k.run
  new : ∀ x k', o x = none → o' x = some k' → k'.run = none ∨ k'.run = some .Pending

variable {o o' o'' : Outline} {p x : FrameId} {kind : FrameKind} {next : Nat}

theorem Extends.refl (o : Outline) : Extends o o := by
  refine ⟨fun x k hk => ⟨k, hk, rfl, rfl, rfl⟩, fun x k' hx hk' => ?_⟩
  rw [hx] at hk'
  cases hk'

theorem Extends.trans (h : Extends o o') (h' : Extends o' o'') : Extends o o'' := by
  refine ⟨fun x k hk => ?_, fun x k'' hx hk'' => ?_⟩
  · obtain ⟨k', hk', hkind, hparent, hrun⟩ := h.old x k hk
    obtain ⟨k'', hk'', hkind', hparent', hrun'⟩ := h'.old x k' hk'
    exact ⟨k'', hk'', hkind'.trans hkind, hparent'.trans hparent, hrun'.trans hrun⟩
  · cases hx' : o' x with
    | none => exact h'.new x k'' hx' hk''
    | some k' =>
      obtain ⟨m, hm, -, -, hrun⟩ := h'.old x k' hx'
      rw [hk''] at hm
      cases hm
      rw [hrun]
      exact h.new x k' hx hx'

theorem extends_grow (hx : o x = none) : Extends o (o.grow p x kind) where
  old y k hk := by
    have hne : y ≠ x := by
      rintro rfl
      rw [hx] at hk
      cases hk
    by_cases hy : y = p
    · subst hy
      exact ⟨_, grow_host hne hk, rfl, rfl, rfl⟩
    · exact ⟨k, (grow_ne hne hy).trans hk, rfl, rfl, rfl⟩
  new y k' hy hk' := by
    by_cases hyx : y = x
    · subst hyx
      rw [grow_self] at hk'
      cases hk'
      cases kind <;> simp [FrameKind.run]
    · simp [Outline.grow, hyx, hy] at hk'

theorem extends_branch (graph_ref : GraphRef) (span : FrameId) (branches : List Branch)
    (h : o.Fresh next) : Extends o (branch graph_ref span next branches o) := by
  induction branches generalizing o next with
  | nil => exact .refl o
  | cons b branches ih =>
    have hthread : (o.grow span ⟨next⟩ (.GraphThread graph_ref)).Fresh (next + 1) := h.grow _ _
    have hnode := hthread.grow ⟨next⟩ (.GraphNode graph_ref b.start)
    exact ((extends_grow (h _ (Nat.le_refl _))).trans
      (extends_grow (hthread _ (Nat.le_refl _)))).trans (ih hnode)

/-- The branches have new identifiers. -/
theorem branch_none (graph_ref : GraphRef) (span : FrameId) (branches : List Branch)
    (hx : x.id < next) (h : o x = none) : branch graph_ref span next branches o x = none := by
  induction branches generalizing o next with
  | nil => exact h
  | cons b branches ih =>
    exact ih (Nat.lt_of_lt_of_le hx (Nat.le_add_right _ _))
      (grow_none (Nat.lt_succ_of_lt hx) (grow_none hx h))

end Outline

namespace Walk

open Outline

variable {w : Walk} {o : Outline} {f p : FrameId} {kp : Part} {node_id : NodeId} {next : Nat}

/-- The outline with the frames that the result of a node in the thread `p` leads to. -/
def adds (w : Walk) (o : Outline) (next : Nat) (p : FrameId) (node_id : NodeId) :
    FrameResult → Outline
  | .Continue =>
    match w.spec.edges node_id with
    | some target => o.grow p ⟨next⟩ (.GraphNode w.graph_ref target)
    | none => o
  | .GoTo target => o.grow p ⟨next⟩ (.GraphNode w.graph_ref target)
  | .Fork branches join =>
    branch w.graph_ref ⟨next⟩ (next + 1) branches (o.grow p ⟨next⟩ (.GraphSpan w.graph_ref join))
  | _ => o

/-- How many frames these are. -/
def made (w : Walk) (node_id : NodeId) : FrameResult → Nat
  | .Continue => if (w.spec.edges node_id).isSome then 1 else 0
  | .GoTo _ => 1
  | .Fork branches _ => 1 + 2 * branches.length
  | _ => 0

/-- What a node has to meet, so that its walk goes on or ends as it should: an edge to go along,
a branch to go into, or, at its end, another branch of the same fork that has not ended. -/
def GoesRight (w : Walk) (o : Outline) (p : FrameId) (node_id : NodeId) : FrameResult → Prop
  | .Continue => ∃ target, w.spec.edges node_id = some target
  | .Fork branches _ => branches ≠ []
  | .Completed => w.OthersOpen o p
  | _ => True

theorem extends_adds (h : o.Fresh next) (result : FrameResult) :
    Extends o (w.adds o next p node_id result) := by
  have hfree := h ⟨next⟩ (Nat.le_refl _)
  cases result with
  | Continue =>
    simp only [adds]
    split
    · exact extends_grow hfree
    · exact .refl o
  | GoTo target => exact extends_grow hfree
  | Fork branches join =>
    exact (extends_grow hfree).trans (extends_branch _ _ _ (h.grow _ _))
  | _ => exact .refl o

/-- The frames that a result leads to have new identifiers. -/
theorem adds_none {x : FrameId} {result : FrameResult} (hx : x.id < next) (h : o x = none) :
    w.adds o next p node_id result x = none := by
  cases result with
  | Continue =>
    cases htarget : w.spec.edges node_id with
    | none => simpa [adds, htarget] using h
    | some target => simpa [adds, htarget] using grow_none hx h
  | GoTo target => exact grow_none hx h
  | Fork branches join => exact branch_none _ _ _ (Nat.lt_succ_of_lt hx) (grow_none hx h)
  | _ => exact h

/-- A node that goes right goes on with the walk, or ends it. -/
theorem Walking.adds {k : Part} (h : w.Walking o) (hp : o p = some kp)
    (hthread : kp.kind = .GraphThread w.graph_ref) (hf : f ∈ kp.children) (hopen : ¬ o.Done f)
    (hk : o f = some k) (hkind : k.kind = .GraphNode w.graph_ref node_id) (hrun : k.run ≠ none)
    (hfresh : o.Fresh next) (hright : w.GoesRight o p node_id (w.oracle f)) :
    w.Walking ((w.adds o next p node_id (w.oracle f)).mark f .Completed) := by
  have hnode : o.Is f (.GraphNode w.graph_ref node_id) := ⟨k, hk, hkind⟩
  have hend : ∀ result, ((w.adds o next p node_id result).mark f .Completed).Done f := by
    intro result
    have hextends : Extends o (w.adds o next p node_id result) := extends_adds hfresh result
    obtain ⟨k', hk', -, -, hrun'⟩ := hextends.old f k hk
    obtain ⟨status, hstatus⟩ := Option.ne_none_iff_exists'.mp hrun
    have hmark : (w.adds o next p node_id result).mark f .Completed f =
        some { k' with run := k'.run.map fun _ => .Completed } := by
      rw [Outline.mark, if_pos rfl, hk']
      rfl
    refine ⟨_, hmark, ?_⟩
    change k'.run.map _ = _
    rw [hrun', hstatus]
    rfl
  have hends := hend (w.oracle f)
  have hstep := w.steps f
  cases hresult : w.oracle f with
  | Continue =>
    rw [hresult] at hright hends
    obtain ⟨target, htarget⟩ := hright
    simp only [Walk.adds, htarget] at hends ⊢
    exact h.leads_to_node hp hthread hf hopen hnode (hfresh _ (Nat.le_refl _)) hends
      (.inr ⟨hresult, htarget⟩)
  | GoTo target =>
    rw [hresult] at hends
    exact h.leads_to_node hp hthread hf hopen hnode (hfresh _ (Nat.le_refl _)) hends (.inl hresult)
  | Fork branches join =>
    rw [hresult] at hright hends
    exact h.leads_to_fork hp hthread hf hopen hnode hfresh hends hresult hright
  | Completed =>
    rw [hresult] at hright
    exact h.ends hp hthread hf hopen hnode hresult hright
  | _ =>
    rw [hresult] at hstep
    exact hstep.elim

end Walk

end marie.session
