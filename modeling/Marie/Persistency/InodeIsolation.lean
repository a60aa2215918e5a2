-- What a catalog sees of the others: the calls of the catalogs of other sessions and of
-- other workspaces could as well not have been made.
import Marie.Lease.SnapshotBytes
import Marie.Persistency.InodeNamespace

namespace marie.persistency

open PathMap

/-- Who a catalog is opened for: a workspace, or a session of it. -/
structure Owner where
  workspace_id : WorkspaceId
  session_id : Option SessionId
deriving DecidableEq

namespace Owner

def path (owner : Owner) : List String :=
  match owner.session_id with
  | none => workspace_path owner.workspace_id
  | some session_id => session_path owner.workspace_id session_id

/-- The two are one session, or a workspace and one of its own. -/
def Related (owner other : Owner) : Prop :=
  owner.workspace_id = other.workspace_id ∧
    (owner.session_id = none ∨ other.session_id = none ∨ owner.session_id = other.session_id)

instance (owner other : Owner) : Decidable (Related owner other) :=
  inferInstanceAs (Decidable (_ ∧ _))

/-- The identifiers have 128 bits. -/
def Bounded (owner : Owner) : Prop :=
  owner.workspace_id.id < 2 ^ 128 ∧ ∀ session_id ∈ owner.session_id, session_id.id < 2 ^ 128

end Owner

def Operation.owner : Operation → Option Owner
  | .for_workspace workspace_id => some ⟨workspace_id, none⟩
  | .for_session workspace_id session_id => some ⟨workspace_id, some session_id⟩
  | _ => none

def Operation.scope : Operation → Option Nat
  | .mkdir scope _ | .create_file scope _ _ | .remove scope _ => some scope
  | _ => none

/-- Whom the catalogs were opened for, in their order. -/
def owners (operations : List Operation) : List Owner := operations.filterMap Operation.owner

/-- The operation is a call of a catalog that has nothing to do with the owner. -/
def Foreign (opened : List Owner) (owner : Owner) (operation : Operation) : Prop :=
  ∃ scope ∈ operation.scope, ∃ other ∈ opened[scope]?, ¬ owner.Related other

instance (opened : List Owner) (owner : Owner) (operation : Operation) :
    Decidable (Foreign opened owner operation) := by
  unfold Foreign
  infer_instance

/-- The run without the foreign calls. -/
def purge (opened : List Owner) (owner : Owner) (operations : List Operation) : List Operation :=
  operations.filter fun operation => ¬ Foreign opened owner operation

/-! ## The paths of the owners -/

theorem display_id_inj {a b : Nat} (ha : a < 2 ^ 128) (hb : b < 2 ^ 128)
    (h : display_id a = display_id b) : a = b := by
  have hread := serde.from_str_display_id ha
  rw [h, serde.from_str_display_id hb] at hread
  simpa using hread.symm

variable {owner other : Owner} {m m' : Tree} {n n' : Namespace} {p : List String}
  {operations : List Operation} {operation : Operation} {opened : List Owner}

theorem apart_of_not_related (ho : owner.Bounded) (ho' : other.Bounded)
    (h : ¬ owner.Related other) : Apart owner.path other.path := by
  obtain ⟨w, s⟩ := owner
  obtain ⟨w', s'⟩ := other
  by_cases hw : w = w'
  · subst hw
    cases s with
    | none => simp [Owner.Related] at h
    | some s =>
      cases s' with
      | none => simp [Owner.Related] at h
      | some s' =>
        have hne : display_id s.id ≠ display_id s'.id := by
          intro heq
          have hid := display_id_inj (ho.2 s rfl) (ho'.2 s' rfl) heq
          cases s; cases s'
          simp_all [Owner.Related]
        exact apart_of_ne (p := ["workspaces", display_id w.id, "sessions"]) hne [] []
  · have hne : display_id w.id ≠ display_id w'.id := by
      intro heq
      have hid := display_id_inj ho.1 ho'.1 heq
      cases w; cases w'
      simp_all
    have hpath : ∀ (w : WorkspaceId) (s : Option SessionId), ∃ rest,
        Owner.path ⟨w, s⟩ = ["workspaces"] ++ display_id w.id :: rest := by
      intro w s
      cases s with
      | none => exact ⟨[], rfl⟩
      | some s => exact ⟨["sessions", display_id s.id], rfl⟩
    obtain ⟨xs, hxs⟩ := hpath w s
    obtain ⟨ys, hys⟩ := hpath w' s'
    rw [hxs, hys]
    exact apart_of_ne hne xs ys

theorem not_apart_of_related (h : owner.Related other) : ¬ Apart owner.path other.path := by
  obtain ⟨w, s⟩ := owner
  obtain ⟨w', s'⟩ := other
  obtain ⟨rfl : w = w', hs : s = none ∨ s' = none ∨ s = s'⟩ := h
  rintro ⟨hnot, hnot'⟩
  rcases hs with rfl | rfl | rfl
  · cases s' with
    | none => exact hnot (List.prefix_refl _)
    | some s' => exact hnot ⟨["sessions", display_id s'.id], rfl⟩
  · cases s with
    | none => exact hnot (List.prefix_refl _)
    | some s => exact hnot' ⟨["sessions", display_id s.id], rfl⟩
  · exact hnot (List.prefix_refl _)

/-- What is below a foreign root is not above a root of one's own. -/
theorem not_prefix_of_foreign {root r q : List String} (rest : List String)
    (hforeign : Apart root r) (hown : ¬ Apart root q) : ¬ r ++ rest <+: q := by
  intro hbelow
  have hrq : r <+: q := (List.prefix_append r rest).trans hbelow
  apply hown
  refine ⟨fun hroot => ?_, fun hq => hforeign.2 (hrq.trans hq)⟩
  rcases List.prefix_or_prefix_of_prefix hroot hrq with h | h
  · exact hforeign.1 h
  · exact hforeign.2 h

/-! ## The answers -/

/-- A call answers by what is at the path of its catalog and below it. -/
theorem answer_at_congr (h : SameAt p m m') (call : Call) :
    answer_at m p call = answer_at m' p call := by
  cases call with
  | resolve path => simp only [answer_at, h.append]
  | children path => simp only [answer_at, h.append, List.append_assoc]
  | mkdir path => simp only [answer_at, (h.fill _ Entry.dir).append]
  | create_file path key => rfl
  | remove path =>
    have hbelow : ∀ q, p ++ split_path path <+: q → m q = m' q := fun q hq =>
      h q fun hapart => hapart.1 ((List.prefix_append _ _).trans hq)
    simp only [answer_at]
    congr 1
    ext key
    constructor
    · rintro ⟨q, entry, hq, hentry, hkey⟩
      exact ⟨q, entry, hq, (hbelow q hq).symm.trans hentry, hkey⟩
    · rintro ⟨q, entry, hq, hentry, hkey⟩
      exact ⟨q, entry, hq, (hbelow q hq).trans hentry, hkey⟩

/-! ## The roots -/

@[simp] theorem Namespace.change_scopes (scope : Nat) (f : List String → Tree) :
    (n.change scope f).scopes = n.scopes := by
  unfold Namespace.change
  split <;> rfl

theorem Namespace.run_concat : Namespace.run (operations ++ [operation]) =
    (Namespace.run operations).step operation := by
  simp [Namespace.run]

/-- The roots that are there are in the map, at the paths of those whom they were made for. -/
def Rooted (opened : List Owner) (n : Namespace) : Prop :=
  ∀ (scope : Nat) (p : List String), n.scopes[scope]? = some (some p) →
    n.tree p ≠ none ∧ ∃ other, opened[scope]? = some other ∧ p = other.path

theorem owners_concat : owners (operations ++ [operation]) =
    owners operations ++ operation.owner.toList := by
  rw [owners, List.filterMap_append]
  cases h : operation.owner <;> simp [owners, h]

theorem length_owners (operations : List Operation) :
    (Namespace.run operations).scopes.length = (owners operations).length := by
  induction operations using List.reverseRecOn with
  | nil => rfl
  | append_singleton operations operation ih =>
    rw [Namespace.run_concat, owners_concat, List.length_append]
    cases operation with
    | for_workspace w => simp [Namespace.step, Namespace.open_scope, ih, Operation.owner]
    | for_session w s => simp [Namespace.step, Namespace.open_scope, ih, Operation.owner]
    | mkdir scope path => simp [Namespace.step, ih, Operation.owner]
    | create_file scope path key => simp [Namespace.step, ih, Operation.owner]
    | remove scope path =>
      simp only [Namespace.step]
      split <;> simp [ih, Operation.owner]

/-- A root that is there is at the path of its owner. -/
theorem owner_of_root (operations : List Operation) (scope : Nat) :
    (Namespace.run operations).scopes[scope]? = some (some p) →
      ∃ other, (owners operations)[scope]? = some other ∧ p = other.path := by
  induction operations using List.reverseRecOn with
  | nil => simp [Namespace.run]
  | append_singleton operations operation ih =>
    have hopen : ∀ other : Owner,
        ((Namespace.run operations).open_scope other.path).scopes[scope]? = some (some p) →
          ∃ other', (owners operations ++ [other])[scope]? = some other' ∧ p = other'.path := by
      intro other h
      rw [Namespace.open_scope] at h
      by_cases hlt : scope < (owners operations).length
      · rw [List.getElem?_append_left (by rwa [length_owners])] at h
        rw [List.getElem?_append_left hlt]
        exact ih h
      · rw [List.getElem?_append_right (by rw [length_owners]; omega), length_owners] at h
        rw [List.getElem?_append_right (by omega)]
        cases hat : scope - (owners operations).length with
        | zero => exact ⟨other, rfl, by simpa [hat, eq_comm] using h⟩
        | succ k => simp [hat] at h
    rw [Namespace.run_concat, owners_concat]
    cases operation with
    | for_workspace w => exact hopen ⟨w, none⟩
    | for_session w s => exact hopen ⟨w, some s⟩
    | mkdir scope path => simpa [Namespace.step, Operation.owner] using ih
    | create_file scope path key => simpa [Namespace.step, Operation.owner] using ih
    | remove scope path =>
      simp only [Namespace.step, Operation.owner, Option.toList_none, List.append_nil]
      split
      · intro h
        apply ih
        simp only [List.getElem?_map, Option.map_eq_some_iff, Option.filter_eq_some_iff] at h
        obtain ⟨root, hroot, rfl, -⟩ := h
        exact hroot
      · exact ih

theorem rooted_run (operations : List Operation) :
    Rooted (owners operations) (Namespace.run operations) := by
  intro scope p hroot
  refine ⟨?_, owner_of_root operations scope hroot⟩
  have hrefines := refines_run operations
  rcases hrefines.scope_cases scope with ⟨-, hnone⟩ | ⟨catalog, root, -, hroot', hstands⟩
  · simp [hroot] at hnone
  · obtain rfl : root = some p := by simpa [hroot] using hroot'.symm
    obtain ⟨row, hrow, -⟩ := hstands
    exact hrefines.shows.ne_none hrow

/-! ## Two runs that look the same -/

/-- The maps are one at the path of the owner, and the roots that are related to it too. -/
structure SameFor (owner : Owner) (opened : List Owner) (n n' : Namespace) : Prop where
  tree : SameAt owner.path n.tree n'.tree
  length : n.scopes.length = n'.scopes.length
  scopes : ∀ scope : Nat, (∀ other ∈ opened[scope]?, owner.Related other) →
    n.scopes[scope]? = n'.scopes[scope]?

/-- The same operation on both sides, of a catalog that is related to the owner. -/
theorem SameFor.step (h : SameFor owner opened n n') (hown : ¬ Foreign opened owner operation) :
    SameFor owner opened (n.step operation) (n'.step operation) := by
  have hopen : ∀ q, SameFor owner opened (n.open_scope q) (n'.open_scope q) := by
    intro q
    refine ⟨h.tree.fill q .dir, by simp [Namespace.open_scope, h.length], ?_⟩
    intro scope hscope
    simp only [Namespace.open_scope, List.getElem?_append, h.length, h.scopes scope hscope]
  have hrelated : ∀ scope ∈ operation.scope, ∀ other ∈ opened[scope]?, owner.Related other := by
    intro scope hscope other hother
    by_contra hnot
    exact hown ⟨scope, hscope, other, hother, hnot⟩
  have hchange : ∀ scope ∈ operation.scope, ∀ f f' : List String → Tree,
      (∀ q, SameAt owner.path (f q) (f' q)) →
        SameFor owner opened (n.change scope f) (n'.change scope f') := by
    intro scope hscope f f' hf
    refine ⟨?_, by simpa using h.length, by simpa using h.scopes⟩
    simp only [Namespace.change, h.scopes scope (hrelated scope hscope)]
    split
    · exact hf _
    · exact h.tree
  cases operation with
  | for_workspace w => exact hopen _
  | for_session w s => exact hopen _
  | mkdir scope path => exact hchange scope rfl _ _ fun q => h.tree.fill _ _
  | create_file scope path key =>
    refine hchange scope rfl _ _ fun q => ?_
    split
    · exact h.tree
    · exact (h.tree.fill _ _).put _ _
  | remove scope path =>
    simp only [Namespace.step, h.scopes scope (hrelated scope rfl)]
    split
    · refine ⟨h.tree.prune _, by simpa using h.length, ?_⟩
      intro other hother
      simp only [List.getElem?_map, h.scopes other hother]
    · exact h

/-- A foreign call changes nothing that the owner sees. -/
theorem sameFor_foreign (hclosed : n.tree.Closed) (hrooted : Rooted opened n)
    (hbounded : ∀ other ∈ opened, other.Bounded) (howner : owner.Bounded)
    (hforeign : Foreign opened owner operation) :
    SameFor owner opened (n.step operation) n := by
  obtain ⟨scope, hscope, other, hother, hnot⟩ := hforeign
  have hapart : Apart owner.path other.path :=
    apart_of_not_related howner (hbounded other (List.mem_of_getElem? hother)) hnot
  have hroot : ∀ q, n.scopes[scope]? = some (some q) → n.tree q ≠ none ∧ q = other.path := by
    intro q hq
    obtain ⟨hsome, other', hother', rfl⟩ := hrooted scope q hq
    obtain rfl : other' = other := Option.some.inj (hother'.symm.trans hother)
    exact ⟨hsome, rfl⟩
  have hchange : ∀ f : List String → Tree,
      (n.tree other.path ≠ none → SameAt owner.path (f other.path) n.tree) →
        SameFor owner opened (n.change scope f) n := by
    intro f hf
    refine ⟨?_, by simp, by simp⟩
    unfold Namespace.change
    split
    · rename_i q hq
      obtain ⟨hsome, rfl⟩ := hroot q hq
      exact hf hsome
    · exact .refl _ _
  cases operation with
  | for_workspace w => simp [Operation.scope] at hscope
  | for_session w s => simp [Operation.scope] at hscope
  | mkdir scope' path =>
    obtain rfl : scope' = scope := by simpa [Operation.scope] using hscope
    exact hchange _ fun hsome => sameAt_fill hclosed hsome hapart _
  | create_file scope' path key =>
    obtain rfl : scope' = scope := by simpa [Operation.scope] using hscope
    refine hchange _ fun hsome => ?_
    split
    · exact .refl _ _
    · exact (sameAt_put hapart _).trans (sameAt_fill hclosed hsome hapart _)
  | remove scope' path =>
    obtain rfl : scope' = scope := by simpa [Operation.scope] using hscope
    simp only [Namespace.step]
    split
    · rename_i q hq
      obtain ⟨-, rfl⟩ := hroot q hq
      refine ⟨sameAt_prune hapart _, by simp, ?_⟩
      intro own hown
      simp only [List.getElem?_map]
      rcases hat : n.scopes[own]? with _ | _ | root
      · rfl
      · rfl
      · obtain ⟨-, owner', howner', rfl⟩ := hrooted own root hat
        have hkept := not_prefix_of_foreign (split_path path) hapart
          (not_apart_of_related (hown owner' howner'))
        simp [Option.filter_some, hkept]
    · exact ⟨.refl _ _, rfl, fun _ _ => rfl⟩

theorem Rooted.of_longer {opened' : List Owner} (h : Rooted opened n) (hlonger : opened <+: opened') :
    Rooted opened' n := by
  intro scope p hroot
  obtain ⟨hsome, other, hother, hp⟩ := h scope p hroot
  obtain ⟨rest, rfl⟩ := hlonger
  rw [← List.getElem?_append_left (List.getElem?_eq_some_iff.mp hother).1] at hother
  exact ⟨hsome, other, hother, hp⟩

/-- The run and what is left of it look the same to the owner. -/
theorem sameFor_purge (hbounded : ∀ other ∈ opened, other.Bounded) (howner : owner.Bounded)
    (hopened : owners operations <+: opened) :
    SameFor owner opened (Namespace.run operations)
      (Namespace.run (purge opened owner operations)) := by
  induction operations using List.reverseRecOn with
  | nil => exact ⟨.refl _ _, rfl, fun _ _ => rfl⟩
  | append_singleton operations operation ih =>
    have hbefore : owners operations <+: opened := by
      rw [owners_concat] at hopened
      exact (List.prefix_append _ _).trans hopened
    have hsame := ih hbefore
    rw [Namespace.run_concat, purge, List.filter_append]
    by_cases hforeign : Foreign opened owner operation
    · have hone : [operation].filter (fun operation => ¬ Foreign opened owner operation) = [] := by
        simp [hforeign]
      rw [hone, List.append_nil]
      have hunseen := sameFor_foreign (refines_run operations).shows.closed
        ((rooted_run operations).of_longer hbefore) hbounded howner hforeign
      refine ⟨hunseen.tree.trans hsame.tree, hunseen.length.trans hsame.length, ?_⟩
      intro scope hscope
      exact (hunseen.scopes scope hscope).trans (hsame.scopes scope hscope)
    · have hone : [operation].filter (fun operation => ¬ Foreign opened owner operation) =
          [operation] := by
        simp [hforeign]
      rw [hone, Namespace.run_concat]
      exact hsame.step hforeign

/-- The catalogs of a session answer as if only its own calls and those for its workspace had been
made, and the catalogs of a workspace as if there were no other workspace. -/
theorem foreign_calls_are_unseen (operations : List Operation) (scope : Nat) (owner : Owner)
    (hbounded : ∀ other ∈ owners operations, other.Bounded)
    (howner : (owners operations)[scope]? = some owner) (call : Call) :
    (Database.run operations).answer scope call =
      (Database.run (purge (owners operations) owner operations)).answer scope call := by
  have hown : ∀ other ∈ (owners operations)[scope]?, owner.Related other := by
    intro other hother
    obtain rfl : other = owner := Option.some.inj (hother.symm.trans howner)
    exact ⟨rfl, .inr (.inr rfl)⟩
  have hsame := sameFor_purge hbounded (hbounded owner (List.mem_of_getElem? howner))
    (List.prefix_refl (owners operations))
  rw [(refines_run _).answer_eq, (refines_run _).answer_eq]
  unfold Namespace.answer
  rw [← hsame.scopes scope hown]
  rcases hat : (Namespace.run operations).scopes[scope]? with _ | _ | p
  · rfl
  · rfl
  · obtain ⟨other, hother, rfl⟩ := owner_of_root operations scope hat
    obtain rfl : other = owner := Option.some.inj (hother.symm.trans howner)
    simp only [Option.map_some]
    rw [answer_at_congr hsame.tree]

/-- Two sessions of one workspace. -/
theorem a_sibling_is_unseen :
    (Database.run [.for_session ⟨0⟩ ⟨0⟩, .for_session ⟨0⟩ ⟨1⟩, .mkdir 1 "a"]).answer 0
        (.resolve "a") =
      (Database.run [.for_session ⟨0⟩ ⟨0⟩, .for_session ⟨0⟩ ⟨1⟩]).answer 0 (.resolve "a") := by
  refine foreign_calls_are_unseen
    [.for_session ⟨0⟩ ⟨0⟩, .for_session ⟨0⟩ ⟨1⟩, .mkdir 1 "a"] 0 ⟨⟨0⟩, some ⟨0⟩⟩ ?_ rfl _
  simp [owners, Operation.owner, Owner.Bounded]

end marie.persistency
