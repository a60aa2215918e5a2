-- The store in memory and the store on the database hold the same shelf after
-- the same calls.
import Marie.Catalog.Shelf

namespace marie.catalog

/-! ## In memory -/

namespace InMemoryCatalog

/-- The versions of the item, none when the map has no entry for it. -/
def of (s : InMemoryCatalog) : Shelf := fun kind id => (s.items[(kind, id)]?).getD []

/-- Marking an item that has no versions changes nothing. -/
theorem of_mark {s : InMemoryCatalog} {kind id : String} {change : StoredItem → StoredItem} :
    (s.mark change kind id).of = fun k i =>
      if kind = k ∧ id = i then (s.of k i).map change else s.of k i := by
  funext k i
  rw [mark]
  cases hitems : s.items[(kind, id)]? with
  | none =>
    by_cases h : kind = k ∧ id = i
    · obtain ⟨rfl, rfl⟩ := h
      simp [of, hitems]
    · simp [of, h]
  | some versions =>
    by_cases h : kind = k ∧ id = i
    · obtain ⟨rfl, rfl⟩ := h
      simp [of, hitems]
    · simp [of, Std.HashMap.getElem?_insert, h]

theorem mem_list {s : InMemoryCatalog} {kind : String} {ref : CatalogItemRef} :
    ref ∈ list_catalog_refs kind s ↔
      ref.kind = kind ∧ last_active (s.of ref.kind ref.id) = some ref.version := by
  rw [list_catalog_refs, List.mem_filterMap]
  constructor
  · rintro ⟨⟨⟨k, i⟩, versions⟩, hmem, href⟩
    obtain ⟨hentry, hkind⟩ := List.mem_filter.mp hmem
    obtain ⟨v, hv, rfl⟩ := Option.map_eq_some_iff.mp href
    obtain rfl : k = kind := of_decide_eq_true hkind
    rw [Std.HashMap.mem_toList_iff_getElem?_eq_some] at hentry
    exact ⟨rfl, by simpa [of, hentry] using hv⟩
  · rintro ⟨rfl, hlast⟩
    cases hitems : s.items[(ref.kind, ref.id)]? with
    | none => simp [of, hitems, last_active] at hlast
    | some versions =>
      refine ⟨((ref.kind, ref.id), versions), List.mem_filter.mpr ⟨?_, by simp⟩, ?_⟩
      · rw [Std.HashMap.mem_toList_iff_getElem?_eq_some, hitems]
      · simp only [of, hitems, Option.getD_some] at hlast
        change (last_active versions).map _ = _
        rw [hlast]
        rfl

/-- An entry of the map gives one reference at most. -/
theorem nodup_list {s : InMemoryCatalog} {kind : String} : (list_catalog_refs kind s).Nodup := by
  refine List.pairwise_filterMap.mpr (List.pairwise_filter.mpr ?_)
  refine s.items.distinct_keys_toList.imp ?_
  rintro ⟨⟨k, i⟩, versions⟩ ⟨⟨k', i'⟩, versions'⟩ hne hk hk' ref href ref' href' heq
  obtain ⟨v, -, rfl⟩ := Option.map_eq_some_iff.mp href
  obtain ⟨v', -, rfl⟩ := Option.map_eq_some_iff.mp href'
  simp only [decide_eq_true_eq] at hk hk'
  simp only [CatalogItemRef.mk.injEq] at heq
  simp [hk, hk', heq.2.1] at hne

theorem implements : Implements store new fun s shelf => s.of = shelf where
  init := by
    funext kind id
    simp [of, new]
  inserted := by
    rintro s _ args rfl
    refine ⟨rfl, ?_⟩
    funext kind id
    by_cases h : args.kind = kind ∧ args.id = id
    · obtain ⟨rfl, rfl⟩ := h
      simp [of, store, insert_catalog_item, Shelf.next, shelve]
    · simp [of, store, insert_catalog_item, Shelf.next, shelve, h, Std.HashMap.getElem?_insert]
  deprecated := by
    rintro s _ kind id rfl
    exact of_mark
  deleted := by
    rintro s _ kind id rfl
    exact of_mark
  got := by
    rintro s _ kind id version rfl
    cases h : s.items[(kind, id)]? <;> simp [of, store, get_catalog_item, h]
  last := by
    rintro s _ kind id rfl
    cases h : s.items[(kind, id)]? <;> simp [of, store, last_catalog_ref, h, last_active]
  listed := by
    rintro s _ kind rfl
    exact ⟨nodup_list, fun ref => mem_list⟩

end InMemoryCatalog

/-! ## On the database -/

namespace CatalogRow

def item (row : CatalogRow) : StoredItem := ⟨row.data, row.deprecated, row.deleted_at⟩

/-- The row of the same key with another item. -/
def with_item (row : CatalogRow) (item : StoredItem) : CatalogRow :=
  ⟨row.kind, row.id, row.version, item.data, item.deprecated, item.deleted⟩

theorem of_iff {row : CatalogRow} {kind id : String} :
    row.of kind id = true ↔ row.kind = kind ∧ row.id = id := by
  simp [of]

instance : Std.Total newest := ⟨fun a b => (Int.le_total a.version b.version).symm⟩

instance : IsTrans CatalogRow newest := ⟨fun _ _ _ hab hbc => Int.le_trans hbc hab⟩

instance : Std.Total by_id where
  total a b := by
    rcases lt_trichotomy a.id b.id with h | h | h
    · exact .inl (.inl h)
    · rcases Int.le_total a.version b.version with hv | hv
      · exact .inr (.inr ⟨h.symm, hv⟩)
      · exact .inl (.inr ⟨h, hv⟩)
    · exact .inr (.inl h)

instance : IsTrans CatalogRow by_id where
  trans a b c := by
    rintro (hab | ⟨hab, hv⟩) (hbc | ⟨hbc, hv'⟩)
    · exact .inl (hab.trans hbc)
    · exact .inl (hbc ▸ hab)
    · exact .inl (hab ▸ hbc)
    · exact .inr ⟨hab.trans hbc, hv'.trans hv⟩

end CatalogRow

namespace PgCatalog

open CatalogRow

/-- The rows are the versions of the shelf, each under its place. -/
def Holds (s : PgCatalog) (shelf : Shelf) : Prop :=
  ∀ row, row ∈ s.rows ↔
    0 ≤ row.version ∧ (shelf row.kind row.id)[row.version.toNat]? = some row.item

variable {s : PgCatalog} {shelf : Shelf} {kind id : String} {v : Nat}

theorem Holds.mem (h : Holds s shelf) {item : StoredItem} :
    ⟨kind, id, v, item.data, item.deprecated, item.deleted⟩ ∈ s.rows ↔
      (shelf kind id)[v]? = some item := by
  rw [h]
  simp [CatalogRow.item]

/-- A row of the item is the version at its place. -/
theorem Holds.version (h : Holds s shelf) {row : CatalogRow} (hrow : row ∈ s.rows)
    (hof : row.of kind id = true) :
    ∃ v : Nat, row.version = v ∧ (shelf kind id)[v]? = some row.item := by
  obtain ⟨rfl, rfl⟩ := of_iff.mp hof
  obtain ⟨hpos, hitem⟩ := (h row).mp hrow
  exact ⟨row.version.toNat, by omega, hitem⟩

theorem Holds.next_version (h : Holds s shelf) :
    next_version kind id s.rows = (shelf kind id).length := by
  have hrows : ∀ m, m ∈ (s.rows.filter (of kind id)).map CatalogRow.version →
      m < (shelf kind id).length := by
    intro m hm
    obtain ⟨row, hrow, rfl⟩ := List.mem_map.mp hm
    obtain ⟨hrow, hof⟩ := List.mem_filter.mp hrow
    obtain ⟨v, hv, hitem⟩ := h.version hrow hof
    have := (List.getElem?_eq_some_iff.mp hitem).1
    omega
  have hlast : ∀ v, v < (shelf kind id).length →
      (v : Int) ∈ (s.rows.filter (of kind id)).map CatalogRow.version := by
    intro v hv
    have hrow := h.mem.mpr (List.getElem?_eq_getElem hv)
    exact List.mem_map.mpr ⟨_, List.mem_filter.mpr ⟨hrow, by simp [of]⟩, rfl⟩
  rw [CatalogRow.next_version]
  cases hmax : ((s.rows.filter (of kind id)).map CatalogRow.version).max? with
  | none =>
    rw [List.max?_eq_none_iff] at hmax
    rw [hmax] at hlast
    rcases Nat.eq_zero_or_pos (shelf kind id).length with h0 | h0
    · simp [h0]
    · cases hlast 0 h0
  | some m =>
    obtain ⟨hm, hle⟩ := List.max?_eq_some_iff.mp hmax
    have hlt := hrows m hm
    have hge : ((shelf kind id).length : Int) - 1 ≤ m := by
      rcases Nat.eq_zero_or_pos (shelf kind id).length with h0 | h0
      · obtain ⟨row, hrow, rfl⟩ := List.mem_map.mp hm
        obtain ⟨hrow, hof⟩ := List.mem_filter.mp hrow
        have := (h row).mp hrow |>.1
        omega
      · have := hle _ (hlast ((shelf kind id).length - 1) (by omega))
        omega
    simp only [Option.getD_some]
    omega

theorem Holds.inserted (h : Holds s shelf) (args : InsertCatalogItem) :
    Holds (insert_catalog_item args s).2 (shelf.next (.insert_catalog_item args)) := by
  intro row
  change row ∈ _ :: s.rows ↔ _
  rw [List.mem_cons, h row, h.next_version]
  by_cases hof : args.kind = row.kind ∧ args.id = row.id
  · simp only [Shelf.next, shelve, hof, and_self, if_true]
    constructor
    · rintro (hrow | ⟨hpos, hitem⟩)
      · rw [hrow]
        simp [item]
      · refine ⟨hpos, ?_⟩
        rwa [List.getElem?_append_left (List.getElem?_eq_some_iff.mp hitem).1]
    · rintro ⟨hpos, hitem⟩
      rcases Nat.lt_trichotomy row.version.toNat (shelf row.kind row.id).length with hlt | heq | hgt
      · rw [List.getElem?_append_left hlt] at hitem
        exact .inr ⟨hpos, hitem⟩
      · left
        rw [heq, List.getElem?_append_right le_rfl] at hitem
        cases row
        simp_all [item]
        omega
      · rw [List.getElem?_eq_none (by simp; omega)] at hitem
        cases hitem
  · simp only [Shelf.next, shelve, hof, if_false]
    constructor
    · rintro (rfl | hrow)
      · exact absurd ⟨rfl, rfl⟩ hof
      · exact hrow
    · exact .inr

/-- An update of the rows of an item changes its versions. -/
theorem Holds.updated (h : Holds s shelf) {s' : PgCatalog} (change : StoredItem → StoredItem)
    (hrows : s'.rows =
      Table.update (of kind id) (fun row => row.with_item (change row.item)) s.rows) :
    Holds s' fun k i => if kind = k ∧ id = i then (shelf k i).map change else shelf k i := by
  intro row
  rw [hrows, Table.mem_update]
  by_cases hrow : kind = row.kind ∧ id = row.id
  · obtain ⟨rfl, rfl⟩ := hrow
    simp only [and_self, if_true, List.getElem?_map, Option.map_eq_some_iff]
    constructor
    · rintro (⟨old, hold, -, rfl⟩ | ⟨-, hp⟩)
      · obtain ⟨hpos, hget⟩ := (h old).mp hold
        exact ⟨hpos, old.item, hget, rfl⟩
      · simp [of] at hp
    · rintro ⟨hpos, item, hget, hchange⟩
      refine .inl ⟨row.with_item item, (h _).mpr ⟨hpos, hget⟩, by simp [of, with_item], ?_⟩
      change row.with_item (change item) = row
      rw [hchange]
      rfl
  · simp only [hrow, if_false]
    rw [← h row]
    constructor
    · rintro (⟨old, -, hp, rfl⟩ | ⟨hin, -⟩)
      · obtain ⟨rfl, rfl⟩ := of_iff.mp hp
        exact absurd ⟨rfl, rfl⟩ hrow
      · exact hin
    · intro hin
      refine .inr ⟨hin, ?_⟩
      rw [Bool.eq_false_iff]
      intro hp
      obtain ⟨rfl, rfl⟩ := of_iff.mp hp
      exact hrow ⟨rfl, rfl⟩

theorem Holds.got (h : Holds s shelf) :
    get_catalog_item kind id v s = (((shelf kind id)[v]?).filter (!·.deleted)).map (·.data) := by
  rw [get_catalog_item]
  cases hfind : s.rows.find? fun row => row.of kind id && row.version = (v : Int) && !row.deleted_at with
  | none =>
    have hnone := List.find?_eq_none.mp hfind
    cases hitem : (shelf kind id)[v]? with
    | none => rfl
    | some item =>
      have := hnone _ (h.mem.mpr hitem)
      simp [of] at this
      simp [this]
  | some row =>
    have hrow := List.mem_of_find?_eq_some hfind
    have hp := List.find?_some hfind
    simp only [Bool.and_eq_true, decide_eq_true_eq, Bool.not_eq_true'] at hp
    obtain ⟨⟨hof, hversion⟩, hdeleted⟩ := hp
    obtain ⟨v', hv', hitem⟩ := h.version hrow hof
    obtain rfl : v = v' := by omega
    simp [hitem, item, hdeleted]

/-- An active row of the item, as a version of the shelf. -/
theorem Holds.active (h : Holds s shelf) {row : CatalogRow} (hrow : row ∈ s.rows)
    (hof : row.of kind id = true) (hactive : row.active = true) :
    ∃ v : Nat, row.version = v ∧ (shelf kind id)[v]? = some row.item ∧ row.item.active = true := by
  obtain ⟨v, hv, hitem⟩ := h.version hrow hof
  exact ⟨v, hv, hitem, hactive⟩

/-- The newest of the active rows of an item is its last active version. -/
theorem Holds.last_active_of_newest (h : Holds s shelf) {row : CatalogRow} (hrow : row ∈ s.rows)
    (hof : row.of kind id = true) (hactive : row.active = true)
    (hnewest : ∀ row' ∈ s.rows, row'.of kind id = true → row'.active = true →
      row' = row ∨ row'.version ≤ row.version) :
    last_active (shelf kind id) = some row.version.toNat := by
  obtain ⟨v, hv, hitem⟩ := h.active hrow hof hactive
  have hv' : row.version.toNat = v := by omega
  rw [hv', last_active_eq_some]
  refine ⟨⟨row.item, hitem⟩, ?_⟩
  intro w item hw hitem'
  rcases hnewest _ (h.mem.mpr hw) (by simp [of]) hitem' with heq | hle
  · rw [← heq] at hv
    simp only at hv
    omega
  · simp only at hle
    omega

theorem Holds.last (h : Holds s shelf) :
    last_catalog_ref kind id s = (last_active (shelf kind id)).map (⟨kind, id, ·⟩) := by
  rw [last_catalog_ref]
  cases hfirst : Table.first newest (s.rows.filter fun row => row.of kind id && row.active) with
  | none =>
    have hnil := Table.first_eq_none.mp hfirst
    cases hlast : last_active (shelf kind id) with
    | none => rfl
    | some v =>
      obtain ⟨⟨item, hitem, hactive⟩, -⟩ := last_active_eq_some.mp hlast
      have := List.filter_eq_nil_iff.mp hnil _ (h.mem.mpr hitem)
      simp only [of, decide_true, Bool.true_and] at this
      exact absurd hactive this
  | some row =>
    obtain ⟨hmem, hnewest⟩ := Table.first_spec hfirst
    obtain ⟨hrow, hp⟩ := List.mem_filter.mp hmem
    obtain ⟨hof, hactive⟩ := Bool.and_eq_true_iff.mp hp
    rw [h.last_active_of_newest hrow hof hactive]
    · rfl
    · intro row' hrow' hof' hactive'
      exact hnewest row' (List.mem_filter.mpr ⟨hrow', by simp [hof', hactive']⟩)

theorem Holds.mem_list (h : Holds s shelf) {ref : CatalogItemRef} :
    ref ∈ list_catalog_refs kind s ↔
      ref.kind = kind ∧ last_active (shelf ref.kind ref.id) = some ref.version := by
  rw [list_catalog_refs, List.mem_map]
  have hsorted := List.pairwise_insertionSort by_id
    (s.rows.filter fun row => row.kind = kind && row.active)
  have hrows : ∀ row, row ∈ (s.rows.filter fun row => row.kind = kind && row.active).insertionSort
      by_id ↔ row ∈ s.rows ∧ row.kind = kind ∧ row.active = true := by
    intro row
    rw [List.mem_insertionSort, List.mem_filter]
    simp
  -- The row that the query keeps of an item is the newest one that is active.
  have hkept : ∀ row ∈ Table.distinct_on CatalogRow.id
      ((s.rows.filter fun row => row.kind = kind && row.active).insertionSort by_id),
      row.kind = kind ∧ last_active (shelf kind row.id) = some row.version.toNat := by
    intro row hmem
    obtain ⟨hrow, hkind, hactive⟩ := (hrows row).mp (Table.mem_of_mem_distinct_on hmem)
    refine ⟨hkind, h.last_active_of_newest hrow (of_iff.mpr ⟨hkind, rfl⟩) hactive ?_⟩
    intro row' hrow' hof' hactive'
    obtain ⟨hkind', hid'⟩ := of_iff.mp hof'
    rcases Table.distinct_on_first hsorted hmem row' ((hrows row').mpr ⟨hrow', hkind', hactive'⟩)
      hid' with heq | hlt | ⟨-, hle⟩
    · exact .inl heq
    · exact absurd hid'.symm hlt.ne
    · exact .inr hle
  constructor
  · rintro ⟨row, hmem, rfl⟩
    exact ⟨rfl, (hkept row hmem).2⟩
  · rintro ⟨rfl, hlast⟩
    obtain ⟨⟨item, hitem, hactive⟩, -⟩ := last_active_eq_some.mp hlast
    obtain ⟨row, hmem, hid⟩ := @Table.exists_mem_distinct_on _ _ _ CatalogRow.id _ _
      ((hrows _).mpr ⟨h.mem.mpr hitem, rfl, hactive⟩)
    simp only at hid
    refine ⟨row, hmem, ?_⟩
    have := (hkept row hmem).2
    rw [hid, hlast] at this
    cases ref
    simp_all

theorem nodup_list : (list_catalog_refs kind s).Nodup := by
  refine List.pairwise_map.mpr (Table.pairwise_distinct_on.imp ?_)
  intro a b hne heq
  exact hne (congrArg CatalogItemRef.id heq)

theorem implements : Implements store new Holds where
  init := by
    intro row
    simp [new]
  inserted := by
    intro s shelf args h
    refine ⟨?_, h.inserted args⟩
    simp [store, insert_catalog_item, h.next_version]
  deprecated := fun _ _ h => h.updated ({ · with deprecated := true }) rfl
  deleted := fun _ _ h => h.updated ({ · with deleted := true }) rfl
  got _ _ _ h := h.got
  last _ _ h := h.last
  listed _ h := ⟨nodup_list, fun _ => h.mem_list⟩

end PgCatalog

/-! ## Both stores -/

section

variable {σ τ : Type} {store : StoreCatalog σ} {new : σ} {holds : σ → Shelf → Prop}
  {store' : StoreCatalog τ} {new' : τ} {holds' : τ → Shelf → Prop} {s : σ} {s' : τ} {shelf : Shelf}

theorem Implements.call (h : Implements store new holds) (hs : holds s shelf) (c : Call) :
    holds (store.call c s).2 (shelf.next c) := by
  cases c with
  | insert_catalog_item args => exact (h.inserted args hs).2
  | deprecate_catalog_item kind id => exact h.deprecated kind id hs
  | delete_catalog_item kind id => exact h.deleted kind id hs
  | _ => exact hs

theorem Implements.after (h : Implements store new holds) (calls : List Call) :
    holds (store.after calls new) (versions calls) := by
  induction calls using List.reverseRecOn with
  | nil => exact h.init
  | append_singleton calls c ih =>
    have hnext : versions (calls ++ [c]) = (versions calls).next c := by
      funext kind id
      exact versions_concat
    rw [hnext, StoreCatalog.after, List.foldl_append]
    exact h.call ih c

/-- Two stores that hold one shelf give one answer. -/
theorem Implements.same (h : Implements store new holds) (h' : Implements store' new' holds')
    (hs : holds s shelf) (hs' : holds' s' shelf) (c : Call) :
    (store.call c s).1.Same (store'.call c s').1 := by
  cases c with
  | insert_catalog_item args =>
    change Answer.ref _ = Answer.ref _
    rw [(h.inserted args hs).1, (h'.inserted args hs').1]
  | get_catalog_item kind id version =>
    change Answer.data _ = Answer.data _
    rw [h.got kind id version hs, h'.got kind id version hs']
  | last_catalog_ref kind id =>
    change Answer.last _ = Answer.last _
    rw [h.last kind id hs, h'.last kind id hs']
  | list_catalog_refs kind =>
    obtain ⟨hnodup, hmem⟩ := h.listed kind hs
    obtain ⟨hnodup', hmem'⟩ := h'.listed kind hs'
    refine (List.perm_ext_iff_of_nodup hnodup hnodup').mpr fun ref => ?_
    rw [hmem, hmem']
  | deprecate_catalog_item | delete_catalog_item => rfl

theorem Implements.answers_same (h : Implements store new holds)
    (h' : Implements store' new' holds') (hs : holds s shelf) (hs' : holds' s' shelf)
    (calls : List Call) :
    List.Forall₂ Answer.Same (store.answers calls s) (store'.answers calls s') := by
  induction calls generalizing s s' shelf with
  | nil => exact .nil
  | cons c calls ih => exact .cons (h.same h' hs hs' c) (ih (h.call hs c) (h'.call hs' c))

/-- The versions of the item that were published after its latest deprecation or deletion. -/
def ActiveVersions (calls : List Call) (kind id : String) : Set Nat :=
  {v | ∃ data later, Published calls kind id v data later ∧
    .deprecate_catalog_item kind id ∉ later ∧ .delete_catalog_item kind id ∉ later}

theorem mem_activeVersions {calls : List Call} {kind id : String} {v : Nat} :
    v ∈ ActiveVersions calls kind id ↔
      ∃ item, (versions calls kind id)[v]? = some item ∧ item.active = true := by
  constructor
  · rintro ⟨data, later, hpub, hdep, hdel⟩
    exact ⟨⟨data, false, false⟩, version_eq_some.mpr ⟨later, hpub, by simpa, by simpa⟩, rfl⟩
  · rintro ⟨item, hitem, hactive⟩
    obtain ⟨later, hpub, hdep, hdel⟩ := version_eq_some.mp hitem
    simp only [StoredItem.active, Bool.and_eq_true, Bool.not_eq_true'] at hactive
    refine ⟨item.data, later, hpub, ?_, ?_⟩
    · rw [← hdep, hactive.1]
      decide
    · rw [← hdel, hactive.2]
      decide

theorem last_active_versions {calls : List Call} {kind id : String} {v : Nat} :
    last_active (versions calls kind id) = some v ↔ IsGreatest (ActiveVersions calls kind id) v := by
  rw [last_active_eq_some, IsGreatest, mem_activeVersions]
  refine and_congr_right fun _ => ?_
  constructor
  · intro hmax w hw
    obtain ⟨item, hitem, h⟩ := mem_activeVersions.mp hw
    exact hmax w item hitem h
  · intro hmax w item hitem h
    exact hmax (mem_activeVersions.mpr ⟨item, hitem, h⟩)

theorem no_last_active_versions {calls : List Call} {kind id : String} :
    last_active (versions calls kind id) = none ↔ ActiveVersions calls kind id = ∅ := by
  rw [last_active_eq_none, Set.eq_empty_iff_forall_notMem]
  refine forall_congr' fun v => ?_
  rw [mem_activeVersions]
  constructor
  · rintro h ⟨item, hitem, hactive⟩
    rw [h item hitem] at hactive
    cases hactive
  · intro h item hitem
    rw [Bool.eq_false_iff]
    exact fun hactive => h ⟨item, hitem, hactive⟩

/-- The answers of a store, told from the calls before. -/
structure Versioned (store : StoreCatalog σ) (new : σ) : Prop where
  numbered : ∀ calls args, (store.insert_catalog_item args (store.after calls new)).1 =
    ⟨args.kind, args.id, publications args.kind args.id calls⟩
  readable : ∀ calls kind id v data,
    store.get_catalog_item kind id v (store.after calls new) = some data ↔
      ∃ later, Published calls kind id v data later ∧ .delete_catalog_item kind id ∉ later
  latest : ∀ calls kind id ref,
    store.last_catalog_ref kind id (store.after calls new) = some ref ↔
      ref.kind = kind ∧ ref.id = id ∧ IsGreatest (ActiveVersions calls kind id) ref.version
  no_latest : ∀ calls kind id, store.last_catalog_ref kind id (store.after calls new) = none ↔
    ActiveVersions calls kind id = ∅
  listed : ∀ calls kind, (store.list_catalog_refs kind (store.after calls new)).Nodup ∧
    ∀ ref, ref ∈ store.list_catalog_refs kind (store.after calls new) ↔
      ref.kind = kind ∧ store.last_catalog_ref kind ref.id (store.after calls new) = some ref
  apart : ∀ calls calls' kind id,
    calls.filter (Call.concerns kind id) = calls'.filter (Call.concerns kind id) →
      (∀ data, (store.insert_catalog_item ⟨id, kind, data⟩ (store.after calls new)).1 =
        (store.insert_catalog_item ⟨id, kind, data⟩ (store.after calls' new)).1) ∧
      (∀ v, store.get_catalog_item kind id v (store.after calls new) =
        store.get_catalog_item kind id v (store.after calls' new)) ∧
      store.last_catalog_ref kind id (store.after calls new) =
        store.last_catalog_ref kind id (store.after calls' new)

theorem Implements.versioned (h : Implements store new holds) : Versioned store new where
  numbered calls args := by
    rw [(h.inserted args (h.after calls)).1, length_versions]
  readable calls kind id v data := by
    rw [h.got kind id v (h.after calls)]
    constructor
    · intro hdata
      obtain ⟨item, hitem, rfl⟩ := Option.map_eq_some_iff.mp hdata
      obtain ⟨hget, hdeleted⟩ := Option.filter_eq_some_iff.mp hitem
      obtain ⟨later, hpub, -, hdel⟩ := version_eq_some.mp hget
      exact ⟨later, hpub, by rw [← hdel]; simpa using hdeleted⟩
    · rintro ⟨later, hpub, hdel⟩
      have hget : (versions calls kind id)[v]? =
          some ⟨data, .deprecate_catalog_item kind id ∈ later, false⟩ :=
        version_eq_some.mpr ⟨later, hpub, by simp, by simpa⟩
      rw [hget]
      rfl
  latest calls kind id ref := by
    rw [h.last kind id (h.after calls), Option.map_eq_some_iff]
    constructor
    · rintro ⟨v, hv, rfl⟩
      exact ⟨rfl, rfl, last_active_versions.mp hv⟩
    · rintro ⟨rfl, rfl, hv⟩
      exact ⟨ref.version, last_active_versions.mpr hv, rfl⟩
  no_latest calls kind id := by
    rw [h.last kind id (h.after calls), Option.map_eq_none_iff, no_last_active_versions]
  listed calls kind := by
    obtain ⟨hnodup, hmem⟩ := h.listed kind (h.after calls)
    refine ⟨hnodup, fun ref => ?_⟩
    rw [hmem, h.last kind ref.id (h.after calls)]
    refine and_congr_right ?_
    rintro rfl
    rw [Option.map_eq_some_iff]
    constructor
    · intro hv
      exact ⟨ref.version, hv, rfl⟩
    · rintro ⟨v, hv, heq⟩
      rw [hv, ← heq]
  apart calls calls' kind id heq := by
    have hsame : versions calls kind id = versions calls' kind id := by
      rw [← versions_filter, heq, versions_filter]
    refine ⟨fun data => ?_, fun v => ?_, ?_⟩
    · rw [(h.inserted _ (h.after calls)).1, (h.inserted _ (h.after calls')).1, hsame]
    · rw [h.got kind id v (h.after calls), h.got kind id v (h.after calls'), hsame]
    · rw [h.last kind id (h.after calls), h.last kind id (h.after calls'), hsame]

end

/-- The two stores give the same answers, and each numbers the publications of an item, reads a
version as it was published until the item is deleted, and keeps the items apart. -/
theorem backends_agree :
    (∀ calls, List.Forall₂ Answer.Same (InMemoryCatalog.store.answers calls InMemoryCatalog.new)
      (PgCatalog.store.answers calls PgCatalog.new)) ∧
    Versioned InMemoryCatalog.store InMemoryCatalog.new ∧ Versioned PgCatalog.store PgCatalog.new :=
  ⟨InMemoryCatalog.implements.answers_same PgCatalog.implements InMemoryCatalog.implements.init
      PgCatalog.implements.init,
    InMemoryCatalog.implements.versioned, PgCatalog.implements.versioned⟩

end marie.catalog
