-- Lists whose elements have a key, no key twice: what is put in takes the place
-- of the element with its key, or stands at the end. Such lists merge as a
-- monoid, with their order.
import Mathlib.Data.List.Basic
import Mathlib.Data.List.Nodup

namespace Keyed

variable {α κ : Type} [DecidableEq κ] (key : α → κ)

/-! ## Operations -/

/-- The element with this key. -/
def find (k : κ) (xs : List α) : Option α := xs.find? (key · = k)

def upsert (x : α) : List α → List α
  | [] => [x]
  | y :: ys => if key y = key x then x :: ys else y :: upsert x ys

/-- The elements of the second list are put in one after the other. -/
def merge (xs ys : List α) : List α := ys.foldl (fun acc y => upsert key y acc) xs

omit [DecidableEq κ] in
/-- No two elements have one key. -/
def Distinct (xs : List α) : Prop := (xs.map key).Nodup

instance (xs : List α) : Decidable (Distinct key xs) :=
  inferInstanceAs (Decidable (xs.map key).Nodup)

variable {key} {k : κ} {x : α} {xs ys zs : List α}

/-! ## What is found -/

theorem find_cons : find key k (x :: xs) = if key x = k then some x else find key k xs := by
  unfold find
  by_cases h : key x = k
  · simp [h]
  · simp [h]

theorem find_upsert :
    find key k (upsert key x xs) = if key x = k then some x else find key k xs := by
  induction xs with
  | nil => exact find_cons
  | cons y ys ih =>
    unfold upsert
    by_cases hy : key y = key x
    · rw [if_pos hy, find_cons, find_cons, hy]
      split <;> rfl
    · rw [if_neg hy, find_cons, find_cons, ih]
      by_cases hx : key x = k
      · have hne : key y ≠ k := fun h => hy (h.trans hx.symm)
        simp [hne, hx]
      · simp [hx]

theorem find_eq_none : find key k xs = none ↔ k ∉ xs.map key := by
  simp [find]

/-- The second list has the last word. -/
theorem find_merge (hys : Distinct key ys) :
    find key k (merge key xs ys) = (find key k ys).or (find key k xs) := by
  unfold merge
  induction ys generalizing xs with
  | nil => rfl
  | cons y ys ih =>
    obtain ⟨hfresh, hrest⟩ := List.nodup_cons.mp hys
    rw [List.foldl_cons, ih hrest, find_upsert, find_cons]
    by_cases hy : key y = k
    · subst hy
      rw [find_eq_none.mpr hfresh]
      simp
    · simp [hy]

/-! ## The keys -/

theorem keys_upsert :
    (upsert key x xs).map key =
      if key x ∈ xs.map key then xs.map key else xs.map key ++ [key x] := by
  induction xs with
  | nil => rfl
  | cons y ys ih =>
    unfold upsert
    by_cases hy : key y = key x
    · simp [hy]
    · rw [if_neg hy, List.map_cons, List.map_cons, ih]
      by_cases hmem : key x ∈ ys.map key
      · rw [if_pos hmem, if_pos (List.mem_cons_of_mem _ hmem)]
      · have hno : key x ∉ key y :: ys.map key := by
          rw [List.mem_cons, not_or]
          exact ⟨Ne.symm hy, hmem⟩
        rw [if_neg hmem, if_neg hno, List.cons_append]

/-- The keys of the first list stand, and the new ones of the second follow in their order. -/
theorem keys_merge (hys : Distinct key ys) :
    (merge key xs ys).map key = xs.map key ++ (ys.map key).filter (· ∉ xs.map key) := by
  unfold merge
  induction ys generalizing xs with
  | nil => simp
  | cons y ys ih =>
    obtain ⟨hfresh, hrest⟩ := List.nodup_cons.mp hys
    rw [List.foldl_cons, ih hrest, keys_upsert, List.map_cons]
    by_cases hmem : key y ∈ xs.map key
    · rw [if_pos hmem, List.filter_cons_of_neg (by simpa using hmem)]
    · have hsame : (ys.map key).filter (· ∉ xs.map key ++ [key y]) =
          (ys.map key).filter (· ∉ xs.map key) := by
        refine List.filter_congr fun k hk => ?_
        have hne : k ≠ key y := by
          rintro rfl
          exact hfresh hk
        simp [hne]
      rw [if_neg hmem, hsame, List.filter_cons_of_pos (by simpa using hmem), List.append_assoc,
        List.singleton_append]

theorem mem_keys_merge (hys : Distinct key ys) :
    k ∈ (merge key xs ys).map key ↔ k ∈ xs.map key ∨ k ∈ ys.map key := by
  rw [keys_merge hys, List.mem_append, List.mem_filter]
  by_cases h : k ∈ xs.map key
  · simp [h]
  · simp [h]

theorem Distinct.merge (hxs : Distinct key xs) (hys : Distinct key ys) :
    Distinct key (Keyed.merge key xs ys) := by
  unfold Distinct
  rw [keys_merge hys]
  refine List.nodup_append.mpr ⟨hxs, hys.filter _, ?_⟩
  rintro a ha b hb rfl
  exact of_decide_eq_true (List.mem_filter.mp hb).2 ha

/-! ## The monoid -/

/-- A list is told by the order of its keys and by what it has for each of them. -/
theorem eq_of_keys_of_find (hys : Distinct key ys) (hkeys : xs.map key = ys.map key)
    (hfind : ∀ k, find key k xs = find key k ys) : xs = ys := by
  induction ys generalizing xs with
  | nil => simpa using hkeys
  | cons y ys ih =>
    cases xs with
    | nil => cases hkeys
    | cons x xs =>
      obtain ⟨hhead, htail⟩ := List.cons.inj hkeys
      obtain ⟨hfresh, hrest⟩ := List.nodup_cons.mp hys
      have hx : x = y := by
        have h := hfind (key y)
        rw [find_cons, find_cons, if_pos hhead, if_pos rfl] at h
        exact Option.some.inj h
      subst hx
      congr 1
      refine ih hrest htail fun k => ?_
      by_cases hk : key x = k
      · subst hk
        rw [find_eq_none.mpr hfresh, find_eq_none.mpr (by rw [htail]; exact hfresh)]
      · have h := hfind k
        rwa [find_cons, find_cons, if_neg hk, if_neg hk] at h

theorem merge_assoc (hxs : Distinct key xs) (hys : Distinct key ys) (hzs : Distinct key zs) :
    merge key (merge key xs ys) zs = merge key xs (merge key ys zs) := by
  have hright := hys.merge hzs
  refine eq_of_keys_of_find (hxs.merge hright) ?_ fun k => ?_
  · rw [keys_merge hzs, keys_merge hys, keys_merge hright, keys_merge hzs, List.filter_append,
      List.filter_filter, List.append_assoc]
    congr 2
    refine List.filter_congr fun k _ => ?_
    rw [Bool.eq_iff_iff]
    simp only [List.mem_append, List.mem_filter, decide_eq_true_eq, Bool.and_eq_true]
    tauto
  · rw [find_merge hzs, find_merge hys, find_merge hright, find_merge hzs, Option.or_assoc]

@[simp] theorem merge_nil : merge key xs [] = xs := rfl

theorem nil_merge (hxs : Distinct key xs) : merge key [] xs = xs := by
  refine eq_of_keys_of_find hxs ?_ fun k => ?_
  · simp [keys_merge hxs]
  · rw [find_merge hxs]
    simp [find]

end Keyed
