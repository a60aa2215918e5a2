-- A table of documents: rows that hold the data of values, each under its key.
-- What is written into the values and into the rows keeps them together, and a
-- query of the rows gives the values that the same query of the values gives,
-- in some order.
import Mathlib.Data.List.Forall2
import Marie.Lib.Codec

namespace Codecs

open Maps

variable {δ : Type} {T : δ → Prop} {κ α : Type} {c : Codec T α}

/-- The value is written as the datum, which the medium takes, and is read back from it. -/
structure Codec.Writes (c : Codec T α) (a : α) (d : δ) : Prop where
  encode : c.encode a = some d
  taken : T d
  decode : c.decode d = some a

theorem Codec.kept_iff_writes {a : α} : c.Kept a ↔ ∃ d, c.Writes a d :=
  exists_congr fun _ => ⟨fun h => ⟨h.1, h.2.1, h.2.2⟩, fun h => ⟨h.encode, h.taken, h.decode⟩⟩

variable [DecidableEq κ] {m : Entries κ α} {rows : Entries κ δ} {k : κ} {a : α} {d : δ}

/-- The rows are those of the values. -/
def Documents (c : Codec T α) (m : Entries κ α) (rows : Entries κ δ) : Prop :=
  ∀ k, Option.Rel c.Writes (m.find k) (rows.find k)

theorem documents_empty : Documents c (.empty : Entries κ α) .empty := fun _ => .none

namespace Documents

theorem find_eq_none (h : Documents c m rows) : m.find k = none ↔ rows.find k = none := by
  constructor
  · intro hm
    have := h k
    rw [hm] at this
    cases hrow : rows.find k with
    | none => rfl
    | some d =>
      rw [hrow] at this
      cases this
  · intro hrow
    have := h k
    rw [hrow] at this
    cases hm : m.find k with
    | none => rfl
    | some a =>
      rw [hm] at this
      cases this

theorem of_value (h : Documents c m rows) (hm : m.find k = some a) :
    ∃ d, rows.find k = some d ∧ c.Writes a d := by
  have := h k
  rw [hm] at this
  cases hrow : rows.find k with
  | none =>
    rw [hrow] at this
    cases this
  | some d =>
    rw [hrow] at this
    cases this with
    | some hw => exact ⟨d, rfl, hw⟩

theorem of_row (h : Documents c m rows) (hrow : rows.find k = some d) :
    ∃ a, m.find k = some a ∧ c.Writes a d := by
  cases hm : m.find k with
  | none =>
    rw [h.find_eq_none.mp hm] at hrow
    cases hrow
  | some a =>
    obtain ⟨d', hrow', hw⟩ := h.of_value hm
    obtain rfl := Option.some.inj (hrow'.symm.trans hrow)
    exact ⟨a, rfl, hw⟩

/-! ## Writes -/

theorem insert (h : Documents c m rows) (hw : c.Writes a d) :
    Documents c (m.insert (k, a)) (rows.insert (k, d)) := by
  intro x
  rw [Entries.find_insert, Entries.find_insert]
  by_cases hk : k = x
  · rw [if_pos hk, if_pos hk]
    exact .some hw
  · rw [if_neg hk, if_neg hk]
    exact h x

theorem erase (h : Documents c m rows) : Documents c (m.erase k) (rows.erase k) := by
  intro x
  rw [Entries.find_erase, Entries.find_erase]
  by_cases hk : k = x
  · rw [if_pos hk, if_pos hk]
    exact .none
  · rw [if_neg hk, if_neg hk]
    exact h x

/-- A change of every value and of its row. -/
theorem map {f : κ → α → α} {g : κ → δ → δ} (h : Documents c m rows)
    (hw : ∀ k a d, m.find k = some a → c.Writes a d → c.Writes (f k a) (g k d)) :
    Documents c (m.map f) (rows.map g) := by
  intro x
  rw [Entries.find_map, Entries.find_map]
  cases hm : m.find x with
  | none =>
    rw [h.find_eq_none.mp hm]
    exact .none
  | some a =>
    obtain ⟨d, hrow, hwrites⟩ := h.of_value hm
    rw [hrow]
    exact .some (hw x a d hm hwrites)

/-! ## Queries -/

/-- An entry and its row. -/
def Row (c : Codec T α) (e : κ × α) (r : κ × δ) : Prop := e.1 = r.1 ∧ c.Writes e.2 r.2

omit [DecidableEq κ] in
theorem map_of_rows {β : Type} {f : κ × α → β} {g : κ × δ → β} {es : List (κ × α)}
    {rs : List (κ × δ)} (h : List.Forall₂ (Row c) es rs) (hfg : ∀ e r, Row c e r → f e = g r) :
    es.map f = rs.map g := by
  induction h with
  | nil => rfl
  | cons hrow _ ih => rw [List.map_cons, List.map_cons, hfg _ _ hrow, ih]

omit [DecidableEq κ] in
theorem keys_of_rows {es : List (κ × α)} {rs : List (κ × δ)} (h : List.Forall₂ (Row c) es rs) :
    es.map (·.1) = rs.map (·.1) := map_of_rows h fun _ _ hrow => hrow.1

omit [DecidableEq κ] in
theorem decode_rows {f : δ → Option α} {es : List (κ × α)} {rs : List (κ × δ)}
    (h : List.Forall₂ (Row c) es rs) (hf : ∀ e ∈ es, ∀ r, Row c e r → f r.2 = some e.2) :
    (rs.map (·.2)).mapM f = some (es.map (·.2)) := by
  induction h with
  | nil => rfl
  | @cons e r es rs hrow _ ih =>
    rw [List.forall_mem_cons] at hf
    simp [List.mapM_cons, hf.1 r hrow, ih hf.2]

omit [DecidableEq κ] in
theorem exists_rows {p : κ × α → Prop} {rs : List (κ × δ)} (h : ∀ r ∈ rs, ∃ e, p e ∧ Row c e r) :
    ∃ es, List.Forall₂ (Row c) es rs ∧ ∀ e ∈ es, p e := by
  induction rs with
  | nil => exact ⟨[], .nil, by simp⟩
  | cons r rs ih =>
    rw [List.forall_mem_cons] at h
    obtain ⟨⟨e, he, hrow⟩, hrest⟩ := h
    obtain ⟨es, hes, hall⟩ := ih hrest
    exact ⟨e :: es, .cons hrow hes, List.forall_mem_cons.mpr ⟨he, hall⟩⟩

omit [DecidableEq κ] in
theorem mem_of_rows {es : List (κ × α)} {rs : List (κ × δ)} (h : List.Forall₂ (Row c) es rs)
    {r : κ × δ} (hr : r ∈ rs) : ∃ e ∈ es, Row c e r := by
  induction h with
  | nil => cases hr
  | cons hrow _ ih =>
    rcases List.mem_cons.mp hr with rfl | hr
    · exact ⟨_, List.mem_cons_self, hrow⟩
    · obtain ⟨e, he, hrow⟩ := ih hr
      exact ⟨e, List.mem_cons_of_mem _ he, hrow⟩

omit [DecidableEq κ] in
theorem row_of_mem {es : List (κ × α)} {rs : List (κ × δ)} (h : List.Forall₂ (Row c) es rs)
    {e : κ × α} (he : e ∈ es) : ∃ r ∈ rs, Row c e r := by
  induction h with
  | nil => cases he
  | cons hrow _ ih =>
    rcases List.mem_cons.mp he with rfl | he
    · exact ⟨_, List.mem_cons_self, hrow⟩
    · obtain ⟨r, hr, hrow⟩ := ih he
      exact ⟨r, List.mem_cons_of_mem _ hr, hrow⟩

/-- The rows are those of the entries, in some order of them. -/
theorem rows_perm (h : Documents c m rows) :
    ∃ es, List.Forall₂ (Row c) es rows.entries ∧ es.Perm m.entries := by
  have hall : ∀ r ∈ rows.entries, ∃ e, e ∈ m.entries ∧ Row c e r := by
    rintro ⟨k, d⟩ hr
    obtain ⟨a, hm, hw⟩ := h.of_row (Entries.find_eq_some.mpr hr)
    exact ⟨(k, a), Entries.find_eq_some.mp hm, rfl, hw⟩
  obtain ⟨es, hrows, hmem⟩ := exists_rows hall
  refine ⟨es, hrows, ?_⟩
  have hkeys : (es.map (·.1)).Nodup := keys_of_rows hrows ▸ rows.nodup
  rw [List.perm_ext_iff_of_nodup (hkeys.of_map _) (m.nodup.of_map _)]
  intro e
  refine ⟨hmem e, fun he => ?_⟩
  obtain ⟨d, hrow, -⟩ := h.of_value (Entries.find_eq_some.mpr he)
  obtain ⟨e', he', hkey, -⟩ := mem_of_rows hrows (Entries.find_eq_some.mp hrow)
  have heq : e' = e := List.inj_on_of_nodup_map m.nodup (hmem e' he') he hkey
  exact heq ▸ he'

/-- The rows that a query takes, where it takes a row as it takes its value, are those of the
values that it takes. -/
theorem select {p : κ × α → Bool} {q : κ × δ → Bool} (h : Documents c m rows)
    (hpq : ∀ k a d, m.find k = some a → c.Writes a d → p (k, a) = q (k, d)) :
    ∃ es, List.Forall₂ (Row c) es (rows.entries.filter q) ∧ es.Perm (m.entries.filter p) := by
  obtain ⟨es, hrows, hperm⟩ := h.rows_perm
  refine ⟨es.filter p, ?_, hperm.filter p⟩
  have hall : ∀ e ∈ es, e ∈ m.entries := fun e he => hperm.mem_iff.mp he
  clear hperm
  generalize rows.entries = rs at hrows
  induction hrows with
  | nil => exact .nil
  | @cons e r es rs hrow _ ih =>
    rw [List.forall_mem_cons] at hall
    obtain ⟨k, d⟩ := r
    obtain ⟨k', a⟩ := e
    obtain ⟨rfl, hw⟩ := hrow
    have hsame := hpq _ a d (Entries.find_eq_some.mpr hall.1) hw
    by_cases hq : q (k', d) = true
    · rw [List.filter_cons_of_pos (hsame.trans hq), List.filter_cons_of_pos hq]
      exact .cons ⟨rfl, hw⟩ (ih hall.2)
    · rw [List.filter_cons_of_neg (hsame ▸ hq), List.filter_cons_of_neg hq]
      exact ih hall.2

omit [DecidableEq κ] in
/-- The entries of the rows in another order. -/
theorem rows_of_perm {es : List (κ × α)} {rs rs' : List (κ × δ)} (h : List.Forall₂ (Row c) es rs)
    (hperm : rs'.Perm rs) : ∃ es', List.Forall₂ (Row c) es' rs' ∧ es'.Perm es := by
  obtain ⟨es', hes, hrows⟩ := List.perm_comp_forall₂ hperm h.flip
  exact ⟨es', hes.flip, hrows⟩

end Documents

end Codecs
