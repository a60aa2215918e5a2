-- Finite maps as lists of entries with no key twice: a hash map in the order of
-- its iteration, or the rows of a table with a primary key. The order stands
-- for nothing: maps that hold the same have the same entries in some order.
import Mathlib.Data.List.Basic
import Mathlib.Data.List.Nodup
import Mathlib.Data.List.Perm.Basic

namespace Maps

structure Entries (κ α : Type) where
  entries : List (κ × α)
  nodup : (entries.map (·.1)).Nodup

namespace Entries

variable {κ α β : Type} [DecidableEq κ]

/-! ## Operations -/

def empty : Entries κ α := ⟨[], List.nodup_nil⟩

/-- The value of the key `k`. -/
def find (k : κ) (m : Entries κ α) : Option α := (m.entries.find? (·.1 = k)).map (·.2)

/-- `insert`: the value of a key that is there is replaced. -/
def insertEntry (k : κ) (v : α) : List (κ × α) → List (κ × α)
  | [] => [(k, v)]
  | e :: es => if e.1 = k then (k, v) :: es else e :: insertEntry k v es

theorem mem_keys_insertEntry {k x : κ} {v : α} {es : List (κ × α)} :
    x ∈ (insertEntry k v es).map (·.1) ↔ x = k ∨ x ∈ es.map (·.1) := by
  induction es with
  | nil => simp [insertEntry]
  | cons e es ih =>
    unfold insertEntry
    split
    · rename_i he
      simp [he]
    · simp only [List.map_cons, List.mem_cons, ih]
      tauto

theorem nodup_insertEntry {k : κ} {v : α} {es : List (κ × α)} (h : (es.map (·.1)).Nodup) :
    ((insertEntry k v es).map (·.1)).Nodup := by
  induction es with
  | nil => simp [insertEntry]
  | cons e es ih =>
    rw [List.map_cons, List.nodup_cons] at h
    unfold insertEntry
    split
    · rename_i he
      rw [List.map_cons, List.nodup_cons, ← he]
      exact h
    · rename_i he
      rw [List.map_cons, List.nodup_cons, mem_keys_insertEntry, not_or]
      exact ⟨⟨he, h.1⟩, ih h.2⟩

def insert (m : Entries κ α) (e : κ × α) : Entries κ α where
  entries := insertEntry e.1 e.2 m.entries
  nodup := nodup_insertEntry m.nodup

/-- `collect`. -/
def ofList (es : List (κ × α)) : Entries κ α := es.foldl insert empty

def erase (k : κ) (m : Entries κ α) : Entries κ α where
  entries := m.entries.filter (·.1 ≠ k)
  nodup := (List.filter_sublist.map _).nodup m.nodup

omit [DecidableEq κ] in
theorem map_keys (f : κ → α → β) (es : List (κ × α)) :
    (es.map fun e => (e.1, f e.1 e.2)).map (·.1) = es.map (·.1) := by
  rw [List.map_map]
  rfl

/-- A change of every value. -/
def map (f : κ → α → β) (m : Entries κ α) : Entries κ β where
  entries := m.entries.map fun e => (e.1, f e.1 e.2)
  nodup := by
    rw [map_keys]
    exact m.nodup

/-- The same values under other keys. -/
def mapKeys {κ' : Type} (f : κ → κ') (hf : Function.Injective f) (m : Entries κ α) :
    Entries κ' α where
  entries := m.entries.map fun e => (f e.1, e.2)
  nodup := by
    have hkeys : (m.entries.map fun e => (f e.1, e.2)).map (·.1) = (m.entries.map (·.1)).map f := by
      rw [List.map_map, List.map_map]
      rfl
    rw [hkeys]
    exact m.nodup.map hf

/-! ## What a map holds -/

variable {m m' : Entries κ α} {k x : κ} {v : α}

theorem find_eq_some : m.find k = some v ↔ (k, v) ∈ m.entries := by
  unfold find
  rw [Option.map_eq_some_iff]
  constructor
  · rintro ⟨⟨k', v'⟩, hfind, rfl⟩
    have hkey : k' = k := by simpa using List.find?_some hfind
    rw [← hkey]
    exact List.mem_of_find?_eq_some hfind
  · intro hmem
    cases hfind : m.entries.find? (·.1 = k) with
    | none =>
      rw [List.find?_eq_none] at hfind
      exact absurd (decide_eq_true rfl) (hfind (k, v) hmem)
    | some e =>
      have hkey : e.1 = k := by simpa using List.find?_some hfind
      have heq := List.inj_on_of_nodup_map m.nodup (List.mem_of_find?_eq_some hfind) hmem hkey
      exact ⟨e, rfl, by rw [heq]⟩

theorem find_eq_none : m.find k = none ↔ ∀ e ∈ m.entries, e.1 ≠ k := by
  simp [find]

@[simp] theorem find_empty : (empty : Entries κ α).find k = none := rfl

theorem find?_insertEntry {es : List (κ × α)} :
    (insertEntry k v es).find? (·.1 = x) = if k = x then some (k, v) else es.find? (·.1 = x) := by
  induction es with
  | nil => by_cases h : k = x <;> simp [insertEntry, h]
  | cons e es ih =>
    unfold insertEntry
    by_cases he : e.1 = k
    · rw [if_pos he]
      by_cases h : k = x
      · simp [h]
      · simp [h, he]
    · rw [if_neg he, List.find?_cons, ih, List.find?_cons]
      by_cases hx : e.1 = x
      · have hne : k ≠ x := fun h => he (hx.trans h.symm)
        simp [hx, hne]
      · simp [hx]

@[simp] theorem find_insert {e : κ × α} :
    (m.insert e).find x = if e.1 = x then some e.2 else m.find x := by
  unfold find insert
  rw [find?_insertEntry]
  by_cases h : e.1 = x <;> simp [h]

@[simp] theorem find_erase : (m.erase k).find x = if k = x then none else m.find x := by
  unfold find erase
  rw [List.find?_filter]
  by_cases h : k = x
  · subst h
    simp
  · rw [if_neg h]
    congr 2
    funext e
    by_cases he : e.1 = x
    · simp [he, Ne.symm h]
    · simp [he]

@[simp] theorem find_map {f : κ → α → β} : (m.map f).find x = (m.find x).map (f x) := by
  unfold find map
  rw [List.find?_map]
  have hsame : (fun e : κ × β => decide (e.1 = x)) ∘ (fun e : κ × α => (e.1, f e.1 e.2)) =
      fun e => decide (e.1 = x) := rfl
  rw [hsame]
  cases hfind : m.entries.find? (·.1 = x) with
  | none => rfl
  | some e =>
    have hkey : e.1 = x := by simpa using List.find?_some hfind
    simp [hkey]

theorem find_mapKeys {κ' : Type} [DecidableEq κ'] {f : κ → κ'} {hf : Function.Injective f} :
    (m.mapKeys f hf).find (f k) = m.find k := by
  unfold find mapKeys
  have hsame : (fun e : κ' × α => decide (e.1 = f k)) ∘ (fun e : κ × α => (f e.1, e.2)) =
      fun e => decide (e.1 = k) := by
    funext e
    simp [hf.eq_iff]
  rw [List.find?_map, hsame, Option.map_map]
  rfl

omit [DecidableEq κ] in
theorem find_mapKeys_eq_none {κ' : Type} [DecidableEq κ'] {f : κ → κ'}
    {hf : Function.Injective f} {y : κ'} (h : ∀ k, f k ≠ y) : (m.mapKeys f hf).find y = none := by
  rw [find_eq_none]
  intro e he
  obtain ⟨e, -, rfl⟩ := List.mem_map.mp he
  exact h e.1

/-- An insertion is one under the other keys. -/
theorem find_mapKeys_insert {κ' : Type} [DecidableEq κ'] {f : κ → κ'} {hf : Function.Injective f}
    {y : κ'} : ((m.insert (k, v)).mapKeys f hf).find y = ((m.mapKeys f hf).insert (f k, v)).find y := by
  rw [find_insert]
  by_cases h : ∃ x, f x = y
  · obtain ⟨x, rfl⟩ := h
    rw [find_mapKeys, find_mapKeys, find_insert]
    simp [hf.eq_iff]
  · have hnone : ∀ x, f x ≠ y := fun x hx => h ⟨x, hx⟩
    rw [find_mapKeys_eq_none hnone, find_mapKeys_eq_none hnone, if_neg (hnone k)]

/-! ## Lists of entries -/

theorem insertEntry_of_notMem {es : List (κ × α)} (h : k ∉ es.map (·.1)) :
    insertEntry k v es = es ++ [(k, v)] := by
  induction es with
  | nil => rfl
  | cons e es ih =>
    rw [List.map_cons, List.mem_cons, not_or] at h
    unfold insertEntry
    rw [if_neg (Ne.symm h.1), ih h.2, List.cons_append]

theorem entries_foldl_insert {es : List (κ × α)}
    (h : ((m.entries ++ es).map (·.1)).Nodup) : (es.foldl insert m).entries = m.entries ++ es := by
  induction es generalizing m with
  | nil => simp
  | cons e es ih =>
    have hnew : e.1 ∉ m.entries.map (·.1) := by
      intro hmem
      rw [List.map_append, List.map_cons] at h
      exact (List.nodup_append.mp h).2.2 e.1 hmem e.1 (by simp) rfl
    have hins : (m.insert e).entries = m.entries ++ [e] := insertEntry_of_notMem hnew
    rw [List.foldl_cons, ih, hins, List.append_assoc, List.singleton_append]
    rw [hins, List.append_assoc, List.singleton_append]
    exact h

theorem ofList_entries (m : Entries κ α) : ofList m.entries = m := by
  have h : (ofList m.entries).entries = m.entries := entries_foldl_insert m.nodup
  cases hm : ofList m.entries with
  | mk es hes =>
    rw [hm] at h
    cases m
    cases h
    rfl

end Entries

end Maps
