-- Queries over the rows of a table, with the answers that `SELECT` gives: the
-- first row of an order, the first row of each value of a column, the row of a
-- key. The order of the rows in the list stands for nothing.
import Mathlib.Data.List.Pairwise
import Mathlib.Data.List.Sort

namespace Table

variable {α β : Type}

/-- `ORDER BY .. LIMIT 1`. -/
def first (r : α → α → Prop) [DecidableRel r] (rows : List α) : Option α :=
  (rows.insertionSort r).head?

/-- `DISTINCT ON`: of the rows with one value, the one that comes first. -/
def distinct_on [DecidableEq β] (f : α → β) : List α → List α
  | [] => []
  | row :: rows => row :: (distinct_on f rows).filter (f · ≠ f row)

/-- `UPDATE .. SET .. WHERE`. -/
def update (p : α → Bool) (f : α → α) (rows : List α) : List α :=
  rows.map fun row => if p row then f row else row

/-! ## The first row -/

section

variable {r : α → α → Prop} [DecidableRel r] {rows : List α} {a : α}

theorem first_eq_none : first r rows = none ↔ rows = [] := by
  rw [first, List.head?_eq_none_iff]
  constructor
  · intro h
    have := List.perm_insertionSort r rows
    rw [h] at this
    exact this.symm.eq_nil
  · rintro rfl
    rfl

/-- The first row is one of the rows, and comes before every other one. -/
theorem first_spec [Std.Total r] [IsTrans α r] (h : first r rows = some a) :
    a ∈ rows ∧ ∀ b ∈ rows, b = a ∨ r a b := by
  obtain ⟨rest, hrest⟩ := List.head?_eq_some_iff.mp h
  have hmem : ∀ b, b ∈ a :: rest ↔ b ∈ rows := fun b => by
    rw [← hrest, List.mem_insertionSort]
  have hsorted : (a :: rest).Pairwise r := hrest ▸ List.pairwise_insertionSort r rows
  refine ⟨(hmem a).mp List.mem_cons_self, ?_⟩
  intro b hb
  rcases List.mem_cons.mp ((hmem b).mpr hb) with rfl | hin
  · exact .inl rfl
  · exact .inr (List.rel_of_pairwise_cons hsorted hin)

end

/-! ## One row for each value -/

section

variable [DecidableEq β] {f : α → β} {rows : List α} {a : α}

theorem mem_of_mem_distinct_on (h : a ∈ distinct_on f rows) : a ∈ rows := by
  induction rows with
  | nil => exact h
  | cons row rows ih =>
    rcases List.mem_cons.mp h with rfl | hin
    · exact List.mem_cons_self
    · exact List.mem_cons_of_mem _ (ih (List.mem_filter.mp hin).1)

/-- Two rows of the answer have two values. -/
theorem pairwise_distinct_on : (distinct_on f rows).Pairwise fun a b => f a ≠ f b := by
  induction rows with
  | nil => exact .nil
  | cons row rows ih =>
    refine List.pairwise_cons.mpr ⟨?_, ih.filter _⟩
    intro b hb
    have := (List.mem_filter.mp hb).2
    exact fun heq => of_decide_eq_true this heq.symm

/-- The row of a value comes before every other row with it. -/
theorem distinct_on_first {r : α → α → Prop} (hsorted : rows.Pairwise r)
    (h : a ∈ distinct_on f rows) : ∀ b ∈ rows, f b = f a → b = a ∨ r a b := by
  induction rows with
  | nil => cases h
  | cons row rows ih =>
    obtain ⟨hrow, hrest⟩ := List.pairwise_cons.mp hsorted
    intro b hb heq
    rcases List.mem_cons.mp h with rfl | hin
    · rcases List.mem_cons.mp hb with rfl | hb
      · exact .inl rfl
      · exact .inr (hrow b hb)
    · obtain ⟨hin, hne⟩ := List.mem_filter.mp hin
      rcases List.mem_cons.mp hb with rfl | hb
      · exact absurd heq.symm (of_decide_eq_true hne)
      · exact ih hrest hin b hb heq

/-- Every value of a row has its row in the answer. -/
theorem exists_mem_distinct_on (h : a ∈ rows) : ∃ b ∈ distinct_on f rows, f b = f a := by
  induction rows with
  | nil => cases h
  | cons row rows ih =>
    by_cases heq : f row = f a
    · exact ⟨row, List.mem_cons_self, heq⟩
    · rcases List.mem_cons.mp h with rfl | hin
      · exact absurd rfl heq
      · obtain ⟨b, hb, hfb⟩ := ih hin
        refine ⟨b, List.mem_cons_of_mem _ (List.mem_filter.mpr ⟨hb, ?_⟩), hfb⟩
        exact decide_eq_true fun h => heq (h.symm.trans hfb)

end

/-! ## Updates -/

theorem mem_update {p : α → Bool} {f : α → α} {rows : List α} {a : α} :
    a ∈ update p f rows ↔ (∃ b ∈ rows, p b = true ∧ f b = a) ∨ (a ∈ rows ∧ p a = false) := by
  rw [update, List.mem_map]
  constructor
  · rintro ⟨b, hb, rfl⟩
    by_cases hp : p b = true
    · exact .inl ⟨b, hb, hp, by rw [if_pos hp]⟩
    · rw [if_neg hp]
      exact .inr ⟨hb, by simpa using hp⟩
  · rintro (⟨b, hb, hp, rfl⟩ | ⟨ha, hp⟩)
    · exact ⟨b, hb, by rw [if_pos hp]⟩
    · exact ⟨a, ha, by simp [hp]⟩

/-- An update that keeps the key keeps the rows apart by it. -/
theorem pairwise_update {κ : Type} {key : α → κ} {p : α → Bool} {f : α → α} {rows : List α}
    (hkey : ∀ a, key (f a) = key a) (h : rows.Pairwise fun a b => key a ≠ key b) :
    (update p f rows).Pairwise fun a b => key a ≠ key b := by
  have hsame : ∀ a, key (if p a then f a else a) = key a := by
    intro a
    by_cases hp : p a = true
    · rw [if_pos hp, hkey]
    · rw [if_neg hp]
  refine List.pairwise_map.mpr (h.imp ?_)
  intro a b hne
  rwa [hsame, hsame]

/-- An update changes the first row of a query as it changes every row, when the query does not
see it. -/
theorem find?_update {p q : α → Bool} {f : α → α} {rows : List α}
    (hq : ∀ a, p a = true → q (f a) = q a) :
    (update p f rows).find? q = (rows.find? q).map fun a => if p a then f a else a := by
  have hsame : (q ∘ fun a => if p a then f a else a) = q := by
    funext a
    by_cases hp : p a = true
    · simp [hp, hq a hp]
    · simp [hp]
  rw [update, List.find?_map, hsame]

end Table
