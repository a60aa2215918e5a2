-- What a catalog is for: a shelf with the versions of each item, in the order of
-- their publication. Both stores keep such a shelf, so they give the same answers,
-- and what a version reads is told by the calls that were made.
import Marie.Catalog.Store
import Mathlib.Data.List.Induction
import Mathlib.Order.Bounds.Basic

namespace marie.catalog

variable {σ τ : Type}

/-! ## Calls -/

/-- A call of the store. -/
inductive Call where
  | insert_catalog_item (args : InsertCatalogItem)
  | get_catalog_item (kind id : String) (version : Nat)
  | last_catalog_ref (kind id : String)
  | list_catalog_refs (kind : String)
  | deprecate_catalog_item (kind id : String)
  | delete_catalog_item (kind id : String)
deriving DecidableEq

inductive Answer where
  | ref (ref : CatalogItemRef)
  | data (data : Option (List UInt8))
  | last (ref : Option CatalogItemRef)
  | listed (refs : List CatalogItemRef)
  | done
deriving DecidableEq

/-- A listing is in no order. -/
def Answer.Same : Answer → Answer → Prop
  | .listed refs, .listed refs' => refs.Perm refs'
  | a, b => a = b

namespace StoreCatalog

def call (store : StoreCatalog σ) (c : Call) (s : σ) : Answer × σ :=
  match c with
  | .insert_catalog_item args => let (ref, s') := store.insert_catalog_item args s; (.ref ref, s')
  | .get_catalog_item kind id version => (.data (store.get_catalog_item kind id version s), s)
  | .last_catalog_ref kind id => (.last (store.last_catalog_ref kind id s), s)
  | .list_catalog_refs kind => (.listed (store.list_catalog_refs kind s), s)
  | .deprecate_catalog_item kind id => (.done, store.deprecate_catalog_item kind id s)
  | .delete_catalog_item kind id => (.done, store.delete_catalog_item kind id s)

/-- The state after the calls, one at a time. -/
def after (store : StoreCatalog σ) (calls : List Call) (s : σ) : σ :=
  calls.foldl (fun s c => (store.call c s).2) s

def answers (store : StoreCatalog σ) : List Call → σ → List Answer
  | [], _ => []
  | c :: calls, s => (store.call c s).1 :: store.answers calls (store.call c s).2

end StoreCatalog

/-! ## The shelf -/

/-- What a call makes of the versions of one item. -/
def shelve (kind id : String) (versions : List StoredItem) : Call → List StoredItem
  | .insert_catalog_item args =>
    if args.kind = kind ∧ args.id = id then versions ++ [⟨args.data, false, false⟩] else versions
  | .deprecate_catalog_item k i =>
    if k = kind ∧ i = id then versions.map ({ · with deprecated := true }) else versions
  | .delete_catalog_item k i =>
    if k = kind ∧ i = id then versions.map ({ · with deleted := true }) else versions
  | _ => versions

/-- The versions of each item. -/
abbrev Shelf := String → String → List StoredItem

def Shelf.next (shelf : Shelf) (c : Call) : Shelf := fun kind id => shelve kind id (shelf kind id) c

/-- The shelf that the calls make. -/
def versions (calls : List Call) : Shelf := fun kind id => calls.foldl (shelve kind id) []

/-- A store whose states hold shelves, and that answers from the shelf it holds. -/
structure Implements (store : StoreCatalog σ) (new : σ) (holds : σ → Shelf → Prop) : Prop where
  init : holds new fun _ _ => []
  inserted : ∀ {s shelf} args, holds s shelf →
    (store.insert_catalog_item args s).1 =
        ⟨args.kind, args.id, (shelf args.kind args.id).length⟩ ∧
      holds (store.insert_catalog_item args s).2 (shelf.next (.insert_catalog_item args))
  deprecated : ∀ {s shelf} kind id, holds s shelf →
    holds (store.deprecate_catalog_item kind id s) (shelf.next (.deprecate_catalog_item kind id))
  deleted : ∀ {s shelf} kind id, holds s shelf →
    holds (store.delete_catalog_item kind id s) (shelf.next (.delete_catalog_item kind id))
  got : ∀ {s shelf} kind id version, holds s shelf →
    store.get_catalog_item kind id version s =
      (((shelf kind id)[version]?).filter (!·.deleted)).map (·.data)
  last : ∀ {s shelf} kind id, holds s shelf →
    store.last_catalog_ref kind id s = (last_active (shelf kind id)).map (⟨kind, id, ·⟩)
  listed : ∀ {s shelf} kind, holds s shelf → (store.list_catalog_refs kind s).Nodup ∧
    ∀ ref, ref ∈ store.list_catalog_refs kind s ↔
      ref.kind = kind ∧ last_active (shelf ref.kind ref.id) = some ref.version

/-! ## The last version -/

/-- The last active version is the greatest one of those that are active. -/
theorem last_active_eq_some {items : List StoredItem} {v : Nat} :
    last_active items = some v ↔
      (∃ item, items[v]? = some item ∧ item.active = true) ∧
        ∀ w item, items[w]? = some item → item.active = true → w ≤ v := by
  induction items using List.reverseRecOn with
  | nil => simp [last_active]
  | append_singleton items item ih =>
    have hcons : last_active (items ++ [item]) =
        if item.active then some items.length else last_active items := by
      rw [last_active, List.zipIdx_append, List.reverse_append]
      simp only [List.zipIdx_cons, List.zipIdx_nil, List.reverse_cons, List.reverse_nil,
        List.nil_append, List.cons_append, List.find?_cons, Nat.zero_add]
      split <;> simp_all [last_active]
    have hlast : (items ++ [item])[items.length]? = some item := by simp
    have hlt : ∀ {w x}, (items ++ [item])[w]? = some x → w < items.length ∧ items[w]? = some x ∨
        w = items.length ∧ x = item := by
      intro w x hw
      rcases Nat.lt_trichotomy w items.length with h | h | h
      · rw [List.getElem?_append_left h] at hw
        exact .inl ⟨h, hw⟩
      · subst h
        rw [hlast] at hw
        exact .inr ⟨rfl, (Option.some.inj hw).symm⟩
      · rw [List.getElem?_eq_none (by simp; omega)] at hw
        cases hw
    rw [hcons]
    cases hactive : item.active with
    | true =>
      rw [if_pos rfl]
      constructor
      · intro h
        cases h
        refine ⟨⟨item, hlast, hactive⟩, ?_⟩
        intro w x hw _
        rcases hlt hw with ⟨h, -⟩ | ⟨h, -⟩ <;> omega
      · rintro ⟨⟨x, hx, -⟩, hmax⟩
        have hle := hmax _ _ hlast hactive
        rcases hlt hx with ⟨h, -⟩ | ⟨h, -⟩
        · omega
        · rw [h]
    | false =>
      rw [if_neg (by decide), ih]
      constructor
      · rintro ⟨⟨x, hx, hx'⟩, hmax⟩
        refine ⟨⟨x, ?_, hx'⟩, ?_⟩
        · rw [List.getElem?_append_left (List.getElem?_eq_some_iff.mp hx).1]
          exact hx
        · intro w y hw hy
          rcases hlt hw with ⟨-, h⟩ | ⟨-, rfl⟩
          · exact hmax w y h hy
          · rw [hactive] at hy
            cases hy
      · rintro ⟨⟨x, hx, hx'⟩, hmax⟩
        rcases hlt hx with ⟨-, h⟩ | ⟨-, rfl⟩
        · refine ⟨⟨x, h, hx'⟩, ?_⟩
          intro w y hw hy
          refine hmax w y ?_ hy
          rw [List.getElem?_append_left (List.getElem?_eq_some_iff.mp hw).1]
          exact hw
        · rw [hactive] at hx'
          cases hx'

theorem last_active_eq_none {items : List StoredItem} :
    last_active items = none ↔
      ∀ (v : Nat) (item : StoredItem), items[v]? = some item → item.active = false := by
  rw [last_active, Option.map_eq_none_iff, List.find?_eq_none]
  constructor
  · intro h v item hv
    have := h (item, v) (List.mem_reverse.mpr (List.mem_zipIdx_iff_getElem?.mpr hv))
    simpa using this
  · rintro h ⟨item, v⟩ hmem
    have := h v item (List.mem_zipIdx_iff_getElem?.mp (List.mem_reverse.mp hmem))
    simp [this]

/-! ## What the calls tell of a version -/

/-- A publication of the item. -/
def Call.Publishes (kind id : String) (c : Call) : Prop :=
  ∃ args, c = .insert_catalog_item args ∧ args.kind = kind ∧ args.id = id

instance (kind id : String) : DecidablePred (Call.Publishes kind id)
  | .insert_catalog_item args =>
    decidable_of_iff (args.kind = kind ∧ args.id = id) (by simp [Call.Publishes])
  | .get_catalog_item .. | .last_catalog_ref .. | .list_catalog_refs .. |
    .deprecate_catalog_item .. | .delete_catalog_item .. => .isFalse (by simp [Call.Publishes])

/-- How many times the item was published. -/
def publications (kind id : String) (calls : List Call) : Nat :=
  calls.countP (Call.Publishes kind id)

variable {kind id : String} {calls : List Call} {c : Call} {v : Nat}

theorem versions_concat : versions (calls ++ [c]) kind id = shelve kind id (versions calls kind id) c := by
  simp [versions]

/-- A call that does not publish the item leaves on its versions the mark that it is about. -/
def Call.mark (kind id : String) (c : Call) (item : StoredItem) : StoredItem :=
  { item with
    deprecated := item.deprecated || c = .deprecate_catalog_item kind id
    deleted := item.deleted || c = .delete_catalog_item kind id }

theorem mark_of_ne (hdep : c ≠ .deprecate_catalog_item kind id)
    (hdel : c ≠ .delete_catalog_item kind id) : c.mark kind id = fun item => item := by
  funext item
  simp [Call.mark, hdep, hdel]

theorem shelve_of_publishes {items : List StoredItem} {data : List UInt8} :
    shelve kind id items (.insert_catalog_item ⟨id, kind, data⟩) = items ++ [⟨data, false, false⟩] := by
  simp [shelve]

theorem shelve_of_not_publishes {items : List StoredItem} (h : ¬ c.Publishes kind id) :
    shelve kind id items c = items.map (c.mark kind id) := by
  cases c with
  | insert_catalog_item args =>
    have hne : ¬ (args.kind = kind ∧ args.id = id) := fun heq => h ⟨args, rfl, heq⟩
    simp [shelve, hne, mark_of_ne]
  | deprecate_catalog_item k i =>
    by_cases heq : k = kind ∧ i = id
    · simp [shelve, heq, Call.mark]
    · simp [shelve, heq, mark_of_ne]
  | delete_catalog_item k i =>
    by_cases heq : k = kind ∧ i = id
    · simp [shelve, heq, Call.mark]
    · simp [shelve, heq, mark_of_ne]
  | _ => simp [shelve, mark_of_ne]

/-- The version was published with the data, and then the calls `later` were made. -/
def Published (calls : List Call) (kind id : String) (v : Nat) (data : List UInt8)
    (later : List Call) : Prop :=
  ∃ before, calls = before ++ .insert_catalog_item ⟨id, kind, data⟩ :: later ∧
    publications kind id before = v

theorem length_versions : (versions calls kind id).length = publications kind id calls := by
  induction calls using List.reverseRecOn with
  | nil => rfl
  | append_singleton calls c ih =>
    rw [versions_concat, publications, List.countP_append, ← publications, ← ih]
    by_cases h : c.Publishes kind id
    · obtain ⟨⟨_, _, data⟩, rfl, rfl, rfl⟩ := h
      rw [shelve_of_publishes]
      simp [Call.Publishes]
    · rw [shelve_of_not_publishes h]
      simp [h]

theorem published_concat {data : List UInt8} {later : List Call} :
    Published (calls ++ [c]) kind id v data later ↔
      (∃ earlier, later = earlier ++ [c] ∧ Published calls kind id v data earlier) ∨
        (later = [] ∧ c = .insert_catalog_item ⟨id, kind, data⟩ ∧ publications kind id calls = v) := by
  constructor
  · rintro ⟨before, heq, hv⟩
    rcases List.eq_nil_or_concat later with rfl | ⟨earlier, last, rfl⟩
    · obtain ⟨rfl, hc⟩ := List.append_inj' heq rfl
      exact .inr ⟨rfl, by simpa using hc, hv⟩
    · rw [List.concat_eq_append, ← List.cons_append, ← List.append_assoc] at heq
      obtain ⟨rfl, hc⟩ := List.append_inj' heq rfl
      cases hc
      exact .inl ⟨earlier, by simp, ⟨before, rfl, hv⟩⟩
  · rintro (⟨earlier, rfl, ⟨before, rfl, hv⟩⟩ | ⟨rfl, rfl, hv⟩)
    · exact ⟨before, by simp, hv⟩
    · exact ⟨calls, rfl, hv⟩

/-- The item was published with its data, and has the marks of the later calls. -/
def Shelved (calls : List Call) (kind id : String) (v : Nat) (item : StoredItem) : Prop :=
  ∃ later, Published calls kind id v item.data later ∧
    (item.deprecated = true ↔ .deprecate_catalog_item kind id ∈ later) ∧
    (item.deleted = true ↔ .delete_catalog_item kind id ∈ later)

theorem not_shelved_nil {item : StoredItem} : ¬ Shelved [] kind id v item := by
  rintro ⟨later, ⟨before, h, -⟩, -⟩
  simp at h

theorem shelved_publish {item : StoredItem} {data : List UInt8} :
    Shelved (calls ++ [.insert_catalog_item ⟨id, kind, data⟩]) kind id v item ↔
      Shelved calls kind id v item ∨
        (publications kind id calls = v ∧ item = ⟨data, false, false⟩) := by
  unfold Shelved
  simp only [published_concat]
  constructor
  · rintro ⟨later, ⟨earlier, rfl, hpub⟩ | ⟨rfl, hc, hv⟩, hdep, hdel⟩
    · exact .inl ⟨earlier, hpub, by simpa using hdep, by simpa using hdel⟩
    · cases hc
      cases item
      simp at hdep hdel
      exact .inr ⟨hv, by simp [hdep, hdel]⟩
  · rintro (⟨later, hpub, hdep, hdel⟩ | ⟨hv, rfl⟩)
    · exact ⟨_, .inl ⟨later, rfl, hpub⟩, by simpa using hdep, by simpa using hdel⟩
    · exact ⟨[], .inr ⟨rfl, rfl, hv⟩, by simp, by simp⟩

theorem shelved_mark {item : StoredItem} (h : ¬ c.Publishes kind id) :
    Shelved (calls ++ [c]) kind id v item ↔
      ∃ old, Shelved calls kind id v old ∧ c.mark kind id old = item := by
  constructor
  · rintro ⟨later, hpub, hdep, hdel⟩
    rcases published_concat.mp hpub with ⟨earlier, rfl, hearlier⟩ | ⟨-, rfl, -⟩
    · refine ⟨⟨item.data, .deprecate_catalog_item kind id ∈ earlier,
        .delete_catalog_item kind id ∈ earlier⟩, ⟨earlier, hearlier, by simp, by simp⟩, ?_⟩
      cases item
      simp only [Call.mark, StoredItem.mk.injEq, true_and]
      constructor
      · rw [Bool.eq_iff_iff, hdep]
        simp [@eq_comm _ c]
      · rw [Bool.eq_iff_iff, hdel]
        simp [@eq_comm _ c]
    · exact absurd ⟨_, rfl, rfl, rfl⟩ h
  · rintro ⟨old, ⟨later, hpub, hdep, hdel⟩, rfl⟩
    refine ⟨later ++ [c], published_concat.mpr (.inl ⟨later, rfl, hpub⟩), ?_, ?_⟩
    · simp [Call.mark, hdep, @eq_comm _ c]
    · simp [Call.mark, hdel, @eq_comm _ c]

/-- A version holds what it was published with, and the marks of the later calls. -/
theorem version_eq_some {item : StoredItem} :
    (versions calls kind id)[v]? = some item ↔
      ∃ later, Published calls kind id v item.data later ∧
        (item.deprecated = true ↔ .deprecate_catalog_item kind id ∈ later) ∧
        (item.deleted = true ↔ .delete_catalog_item kind id ∈ later) := by
  change _ ↔ Shelved calls kind id v item
  induction calls using List.reverseRecOn generalizing item with
  | nil => simp [versions, not_shelved_nil]
  | append_singleton calls c ih =>
    rw [versions_concat]
    by_cases h : c.Publishes kind id
    · obtain ⟨⟨_, _, data⟩, rfl, rfl, rfl⟩ := h
      dsimp only at ih ⊢
      rw [shelve_of_publishes, shelved_publish, ← ih, ← length_versions]
      rcases Nat.lt_trichotomy v (versions calls _ _).length with hlt | heq | hgt
      · rw [List.getElem?_append_left hlt]
        simp [hlt.ne']
      · subst heq
        rw [List.getElem?_append_right le_rfl]
        simp [@eq_comm _ item]
      · rw [List.getElem?_eq_none (by simp; omega), List.getElem?_eq_none hgt.le]
        simp [hgt.ne]
    · rw [shelve_of_not_publishes h, List.getElem?_map, Option.map_eq_some_iff, shelved_mark h]
      simp only [ih]

/-! ## One item at a time -/

/-- A call that is about the item. -/
def Call.concerns (kind id : String) : Call → Bool
  | .insert_catalog_item args => args.kind = kind && args.id = id
  | .deprecate_catalog_item k i | .delete_catalog_item k i => k = kind && i = id
  | _ => false

/-- The versions of an item are made by the calls that are about it. -/
theorem versions_filter :
    versions (calls.filter (Call.concerns kind id)) kind id = versions calls kind id := by
  have hother : ∀ items, ∀ c : Call, ¬ c.concerns kind id = true → shelve kind id items c = items := by
    intro items c hc
    cases c <;> simp_all [Call.concerns, shelve]
  rw [versions, List.foldl_filter]
  refine List.foldl_ext _ _ _ ?_
  intro items c _
  split
  · rfl
  · rename_i hc
    exact (hother items c hc).symm

end marie.catalog
