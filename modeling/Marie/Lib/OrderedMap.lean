-- Laws of the ordered maps of the standard library that a program with maps
-- needs: what an update leaves of the other keys, and the list of the entries
-- of a map from what the map holds.
import Mathlib.Data.List.Basic
import Mathlib.Data.List.Induction

open Std

namespace OrderedMap

variable {κ α : Type}

/-- Keys compared by a part of theirs that no other key has are equal when they compare so. -/
theorem lawful_compareOn {β : Type} [Ord β] [LawfulEqOrd β] {f : κ → β}
    (hf : ∀ a b, f a = f b → a = b) : LawfulEqCmp (compareOn f) where
  eq_of_compare h := hf _ _ (Std.compare_eq_iff_eq.1 h)

variable [Ord κ] [TransOrd κ] [LawfulEqOrd κ] {m : ExtTreeMap κ α} {k k' : κ} {v : α}

/-! ## Updates -/

theorem get_insert_of_ne (h : k' ≠ k) : (m.insert k v)[k']? = m[k']? := by
  simp [ExtTreeMap.getElem?_insert, Ne.symm h]

theorem get_erase_of_ne (h : k' ≠ k) : (m.erase k)[k']? = m[k']? := by
  simp [ExtTreeMap.getElem?_erase, Ne.symm h]

/-- Entries inserted one after the other: the last one of a key stays. -/
theorem get_foldl_insert [DecidableEq κ] {β : Type} (f : β → κ) (g : β → α) (xs : List β)
    (m : ExtTreeMap κ α) : (xs.foldl (fun m x => m.insert (f x) (g x)) m)[k]? =
      ((xs.filter (f · = k)).getLast?.map g).or m[k]? := by
  induction xs using List.reverseRecOn with
  | nil => rfl
  | append_singleton xs x ih =>
    rw [List.foldl_append, List.foldl_cons, List.foldl_nil, List.filter_append]
    by_cases h : f x = k
    · subst h
      simp
    · rw [get_insert_of_ne (Ne.symm h), ih]
      simp [h]

/-! ## The list of the entries -/

/-- A list in the order of its keys that holds what the map holds is the list of its entries. -/
theorem toList_eq_of_sorted {l : List (κ × α)}
    (hsorted : l.Pairwise fun x y => compare x.1 y.1 = .lt)
    (hmem : ∀ k v, (k, v) ∈ l ↔ m[k]? = some v) : m.toList = l := by
  refine List.Perm.eq_of_pairwise ?_ ExtTreeMap.ordered_keys_toList hsorted ?_
  · intro x y _ _ hxy hyx
    exact absurd hxy (by rw [OrientedCmp.gt_of_lt hyx]; decide)
  · have hnodup : ∀ {l : List (κ × α)}, (l.Pairwise fun x y => compare x.1 y.1 = .lt) → l.Nodup := by
      intro l hl
      refine hl.imp ?_
      rintro x _ hlt rfl
      simp at hlt
    rw [List.perm_ext_iff_of_nodup (hnodup ExtTreeMap.ordered_keys_toList) (hnodup hsorted)]
    rintro ⟨k, v⟩
    rw [ExtTreeMap.mem_toList_iff_getElem?_eq_some, hmem]

/-- The entries of a map, from a list of keys in their order that has all of its keys. -/
theorem toList_eq_filterMap {ks : List κ} (hsorted : ks.Pairwise fun a b => compare a b = .lt)
    (hall : ∀ k v, m[k]? = some v → k ∈ ks) :
    m.toList = ks.filterMap fun k => m[k]?.map (k, ·) := by
  refine toList_eq_of_sorted ?_ ?_
  · rw [List.pairwise_filterMap]
    refine hsorted.imp ?_
    intro a b hab x hx y hy
    obtain ⟨_, -, rfl⟩ := Option.map_eq_some_iff.mp hx
    obtain ⟨_, -, rfl⟩ := Option.map_eq_some_iff.mp hy
    exact hab
  · intro k v
    rw [List.mem_filterMap]
    constructor
    · rintro ⟨k', -, hk'⟩
      obtain ⟨v', hv', heq⟩ := Option.map_eq_some_iff.mp hk'
      cases heq
      exact hv'
    · intro hk
      exact ⟨k, hall k v hk, by rw [hk]; rfl⟩

/-- A map is the map of its entries. -/
theorem ofList_toList [DecidableEq κ] (m : ExtTreeMap κ α) : ExtTreeMap.ofList m.toList = m := by
  apply ExtTreeMap.ext_getElem?
  intro k
  have hdistinct : m.toList.Pairwise fun a b => ¬ compare a.1 b.1 = .eq :=
    ExtTreeMap.distinct_keys_toList
  cases h : m[k]? with
  | some v =>
    have hmem : (k, v) ∈ m.toList := ExtTreeMap.mem_toList_iff_getElem?_eq_some.mpr h
    exact ExtTreeMap.getElem?_ofList_of_mem (by simp) hdistinct hmem
  | none =>
    have hnone : m.toList.filter (·.1 = k) = [] := by
      rw [List.filter_eq_nil_iff]
      rintro ⟨k', v⟩ hmem
      have hv := ExtTreeMap.mem_toList_iff_getElem?_eq_some.mp hmem
      rw [decide_eq_true_eq]
      rintro rfl
      rw [h] at hv
      cases hv
    rw [ExtTreeMap.ofList_eq_foldl, get_foldl_insert Prod.fst Prod.snd, hnone]
    simp

end OrderedMap
