-- The two stores of the catalog: the one in memory, and the one on a table of
-- the database. A version is never written over: a publication adds one, and a
-- deprecation or a deletion marks all the versions of an item that exist.
import Marie.Lib.Table
import Mathlib.Data.String.Basic

namespace marie.catalog

structure CatalogItemRef where
  kind : String
  id : String
  version : Nat
deriving DecidableEq

structure InsertCatalogItem where
  id : String
  kind : String
  data : List UInt8
deriving DecidableEq

/-- The interface of a store whose state is `σ`. -/
structure StoreCatalog (σ : Type) where
  insert_catalog_item : InsertCatalogItem → σ → CatalogItemRef × σ
  get_catalog_item : String → String → Nat → σ → Option (List UInt8)
  last_catalog_ref : String → String → σ → Option CatalogItemRef
  list_catalog_refs : String → σ → List CatalogItemRef
  deprecate_catalog_item : String → String → σ → σ
  delete_catalog_item : String → String → σ → σ

/-! ## In memory -/

/-- One version of an item. Its version is its place in the list. -/
structure StoredItem where
  data : List UInt8
  deprecated : Bool
  deleted : Bool
deriving DecidableEq

def StoredItem.active (item : StoredItem) : Bool := !item.deprecated && !item.deleted

structure InMemoryCatalog where
  items : Std.HashMap (String × String) (List StoredItem)

/-- The versions are walked from the last one back. -/
def last_active (versions : List StoredItem) : Option Nat :=
  (versions.zipIdx.reverse.find? fun (item, _) => item.active).map Prod.snd

namespace InMemoryCatalog

def new : InMemoryCatalog := ⟨∅⟩

def insert_catalog_item (args : InsertCatalogItem) (self : InMemoryCatalog) :
    CatalogItemRef × InMemoryCatalog :=
  let versions := (self.items[(args.kind, args.id)]?).getD []
  let version := versions.length
  (⟨args.kind, args.id, version⟩,
    ⟨self.items.insert (args.kind, args.id) (versions ++ [⟨args.data, false, false⟩])⟩)

def get_catalog_item (kind id : String) (version : Nat) (self : InMemoryCatalog) :
    Option (List UInt8) :=
  ((self.items[(kind, id)]?.bind (·[version]?)).filter (!·.deleted)).map (·.data)

def last_catalog_ref (kind id : String) (self : InMemoryCatalog) : Option CatalogItemRef :=
  self.items[(kind, id)]?.bind fun versions => (last_active versions).map (⟨kind, id, ·⟩)

def list_catalog_refs (kind : String) (self : InMemoryCatalog) : List CatalogItemRef :=
  (self.items.toList.filter (·.1.1 = kind)).filterMap fun ((_, id), versions) =>
    (last_active versions).map (⟨kind, id, ·⟩)

/-- Every version of the item, if it has any, is changed. -/
def mark (change : StoredItem → StoredItem) (kind id : String) (self : InMemoryCatalog) :
    InMemoryCatalog :=
  match self.items[(kind, id)]? with
  | some versions => ⟨self.items.insert (kind, id) (versions.map change)⟩
  | none => self

def deprecate_catalog_item : String → String → InMemoryCatalog → InMemoryCatalog :=
  mark ({ · with deprecated := true })

def delete_catalog_item : String → String → InMemoryCatalog → InMemoryCatalog :=
  mark ({ · with deleted := true })

def store : StoreCatalog InMemoryCatalog :=
  { insert_catalog_item, get_catalog_item, last_catalog_ref, list_catalog_refs,
    deprecate_catalog_item, delete_catalog_item }

end InMemoryCatalog

/-! ## On the database -/

/-- A row of the table `catalog_item`. Of `deleted_at`, only whether it is null is read. -/
structure CatalogRow where
  kind : String
  id : String
  version : Int
  data : List UInt8
  deprecated : Bool
  deleted_at : Bool
deriving DecidableEq

namespace CatalogRow

def key (row : CatalogRow) : String × String × Int := (row.kind, row.id, row.version)

def of (kind id : String) (row : CatalogRow) : Bool := row.kind = kind && row.id = id

def active (row : CatalogRow) : Bool := !row.deprecated && !row.deleted_at

/-- `COALESCE(MAX(version), -1) + 1` over the rows of the item. -/
def next_version (kind id : String) (rows : List CatalogRow) : Int :=
  (((rows.filter (of kind id)).map version).max?.getD (-1)) + 1

/-- `ORDER BY version DESC`. -/
abbrev newest (a b : CatalogRow) : Prop := b.version ≤ a.version

/-- `ORDER BY id, version DESC`. -/
abbrev by_id (a b : CatalogRow) : Prop := a.id < b.id ∨ (a.id = b.id ∧ b.version ≤ a.version)

theorem lt_next_version {rows : List CatalogRow} {row : CatalogRow} (h : row ∈ rows) :
    row.version < next_version row.kind row.id rows := by
  have hmem : row.version ∈ (rows.filter (of row.kind row.id)).map version :=
    List.mem_map.mpr ⟨row, List.mem_filter.mpr ⟨h, by simp [of]⟩, rfl⟩
  rw [next_version]
  cases hmax : ((rows.filter (of row.kind row.id)).map version).max? with
  | none =>
    rw [List.max?_eq_none_iff] at hmax
    rw [hmax] at hmem
    cases hmem
  | some m =>
    have := (List.max?_eq_some_iff.mp hmax).2 _ hmem
    simp only [Option.getD_some]
    omega

end CatalogRow

/-- The table, with its primary key. Kinds and ids hold no U+0000: a column of type `TEXT` refuses
one, and the model does not. -/
structure PgCatalog where
  rows : List CatalogRow
  primary_key : rows.Pairwise fun a b => a.key ≠ b.key

namespace PgCatalog

open CatalogRow

def new : PgCatalog := ⟨[], .nil⟩

def insert_catalog_item (args : InsertCatalogItem) (self : PgCatalog) :
    CatalogItemRef × PgCatalog :=
  let version := next_version args.kind args.id self.rows
  (⟨args.kind, args.id, version.toNat⟩,
    { rows := ⟨args.kind, args.id, version, args.data, false, false⟩ :: self.rows
      primary_key := by
        refine List.pairwise_cons.mpr ⟨?_, self.primary_key⟩
        rintro row hrow heq
        cases row
        simp only [key, Prod.mk.injEq] at heq
        obtain ⟨rfl, rfl, rfl⟩ := heq
        exact absurd (lt_next_version hrow) (lt_irrefl _) })

def get_catalog_item (kind id : String) (version : Nat) (self : PgCatalog) :
    Option (List UInt8) :=
  (self.rows.find? fun row => row.of kind id && row.version = (version : Int) && !row.deleted_at).map
    (·.data)

def last_catalog_ref (kind id : String) (self : PgCatalog) : Option CatalogItemRef :=
  (Table.first newest (self.rows.filter fun row => row.of kind id && row.active)).map
    fun row => ⟨kind, id, row.version.toNat⟩

def list_catalog_refs (kind : String) (self : PgCatalog) : List CatalogItemRef :=
  (Table.distinct_on CatalogRow.id
    ((self.rows.filter fun row => row.kind = kind && row.active).insertionSort by_id)).map
      fun row => ⟨kind, row.id, row.version.toNat⟩

def deprecate_catalog_item (kind id : String) (self : PgCatalog) : PgCatalog :=
  ⟨Table.update (of kind id) ({ · with deprecated := true }) self.rows,
    Table.pairwise_update (fun _ => rfl) self.primary_key⟩

def delete_catalog_item (kind id : String) (self : PgCatalog) : PgCatalog :=
  ⟨Table.update (of kind id) ({ · with deleted_at := true }) self.rows,
    Table.pairwise_update (fun _ => rfl) self.primary_key⟩

def store : StoreCatalog PgCatalog :=
  { insert_catalog_item, get_catalog_item, last_catalog_ref, list_catalog_refs,
    deprecate_catalog_item, delete_catalog_item }

end PgCatalog

end marie.catalog
