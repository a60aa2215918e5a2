-- What the catalogs are for: one map from paths to inodes, and each catalog a path of
-- it. Every call answers what the map says, and a catalog whose root was removed
-- stays without one.
import Mathlib.Data.Set.Basic
import Marie.Lib.Pointwise
import Marie.Persistency.InodeMap
import Marie.Persistency.InodeRuns

namespace marie.persistency

open Program FsInode PathMap

/-! ## The calls -/

/-- A call of a catalog. `key` is what `create_file` draws. -/
inductive Call
  | resolve (path : String)
  | children (path : String)
  | mkdir (path : String)
  | create_file (path : String) (key : Nat)
  | remove (path : String)

/-- What a call answers: an inode is told without its id, and a list without its order. -/
inductive Answer
  | entry (found : Option Entry)
  | children (found : Set (String × Entry))
  | keys (freed : Set String)
  | failed (error : Error)

def Answer.of {α : Type} (told : α → Answer) : Except Error α → Answer
  | .ok a => told a
  | .error e => .failed e

def PostgresInodeCatalog.answer (self : PostgresInodeCatalog) (t : FsInode) : Call → Answer
  | .resolve path => Answer.of (fun found => .entry (found.map Inode.entry))
      (exec (self.resolve path) t).1
  | .children path => Answer.of
      (fun found => .children {child | child ∈ found.map fun x => (x.1, x.2.entry)})
      (exec (self.children path) t).1
  | .mkdir path => Answer.of (fun inode => .entry (some inode.entry)) (exec (self.mkdir path) t).1
  | .create_file path key => Answer.of (fun inode => .entry (some inode.entry))
      (exec (self.create_file path key) t).1
  | .remove path => Answer.of (fun keys => .keys {key | key ∈ keys}) (exec (self.remove path) t).1

def Database.answer (s : Database) (scope : Nat) (call : Call) : Option Answer :=
  s.catalogs[scope]?.map fun catalog => catalog.answer s.table call

/-! ## The map and its catalogs -/

/-- The map, and for each catalog that was opened its path, or nothing if that was removed. -/
structure Namespace where
  tree : Tree
  scopes : List (Option (List String))

def workspace_path (workspace_id : WorkspaceId) : List String :=
  ["workspaces", display_id workspace_id.id]

def session_path (workspace_id : WorkspaceId) (session_id : SessionId) : List String :=
  ["workspaces", display_id workspace_id.id, "sessions", display_id session_id.id]

/-- The path of a file that has no name. -/
def empty_path : Error := .Bail "chemin vide : la racine du scope existe déjà"

/-- What a call answers at the path of its catalog. -/
def answer_at (m : Tree) (p : List String) : Call → Answer
  | .resolve path => .entry (m (p ++ split_path path))
  | .children path =>
    if m (p ++ split_path path) = none then .failed (.Bail ("dossier introuvable : " ++ path))
    else .children {child | m (p ++ split_path path ++ [child.1]) = some child.2}
  | .mkdir path =>
    if split_path path = [] then .failed empty_path
    else .entry (m.fill (p ++ split_path path) .dir (p ++ split_path path))
  | .create_file path key =>
    if split_path path = [] then .failed empty_path
    else .entry (some (.file ("fs/" ++ display_id key)))
  | .remove path => .keys {key | ∃ q entry, p ++ split_path path <+: q ∧ m q = some entry ∧
      entry.file_key = some key}

/-- What a call answers of a catalog whose root was removed. -/
def answer_gone : Call → Answer
  | .resolve path => if split_path path = [] then .failed .RowNotFound else .entry none
  | .children path =>
    if split_path path = [] then .children ∅
    else .failed (.Bail ("dossier introuvable : " ++ path))
  | .mkdir path | .create_file path _ =>
    if split_path path = [] then .failed empty_path else .failed .ForeignKeyViolation
  | .remove _ => .keys ∅

namespace Namespace

def answer (s : Namespace) (scope : Nat) (call : Call) : Option Answer :=
  s.scopes[scope]?.map fun root =>
    match root with
    | some p => answer_at s.tree p call
    | none => answer_gone call

def open_scope (s : Namespace) (p : List String) : Namespace :=
  { tree := s.tree.fill p .dir, scopes := s.scopes ++ [some p] }

/-- A change of the map at the path of a catalog. -/
def change (s : Namespace) (scope : Nat) (f : List String → Tree) : Namespace :=
  match s.scopes[scope]? with
  | some (some p) => { s with tree := f p }
  | _ => s

def step (s : Namespace) : Operation → Namespace
  | .for_workspace workspace_id => s.open_scope (workspace_path workspace_id)
  | .for_session workspace_id session_id => s.open_scope (session_path workspace_id session_id)
  | .mkdir scope path => s.change scope fun p => s.tree.fill (p ++ split_path path) .dir
  | .create_file scope path key => s.change scope fun p =>
    if split_path path = [] then s.tree
    else (s.tree.fill (p ++ (split_path path).dropLast) .dir).put (p ++ split_path path)
      (.file ("fs/" ++ display_id key))
  | .remove scope path =>
    match s.scopes[scope]? with
    | some (some p) =>
      { tree := s.tree.prune (p ++ split_path path)
        scopes := s.scopes.map fun root => root.filter fun q => ¬ p ++ split_path path <+: q }
    | _ => s

def run (operations : List Operation) : Namespace := operations.foldl step ⟨fun _ => none, []⟩

end Namespace

/-! ## A catalog at its path -/

variable {t t' : FsInode} {m : Tree} {p : List String} {row dir : Row} {id : InodeId}
  {catalog : PostgresInodeCatalog} {path : String} {segments : List String}

theorem exec_resolve : exec (catalog.resolve path) t =
    match t.deepest catalog.root_id (split_path path) with
    | (id, []) =>
      match t.row id with
      | some row => (.ok (some (row_to_inode row)), t)
      | none => (.error .RowNotFound, t)
    | (_, _ :: _) => (.ok none, t) := by
  unfold PostgresInodeCatalog.resolve PostgresInodeCatalog.walk
  rw [exec_bind_ok PostgresInodeCatalog.exec_walk_from]
  rcases t.deepest catalog.root_id (split_path path) with ⟨id, names⟩
  cases names with
  | cons name names => rfl
  | nil =>
    simp only [if_true, exec_bind, PostgresInodeCatalog.exec_load]
    cases t.row id <;> rfl

/-- A walk ends at the row of the path, or where the path is missing. -/
theorem Shows.deepest_cases (h : Shows t m) (hdir : t.Place p dir) (segments : List String) :
    (∃ row, t.Place (p ++ segments) row ∧ t.deepest dir.id segments = (row.id, [])) ∨
      m (p ++ segments) = none ∧ ∃ id name names,
        t.deepest dir.id segments = (id, name :: names) := by
  rcases hdeep : t.deepest dir.id segments with ⟨id, names⟩
  cases names with
  | nil =>
    obtain ⟨row, hrow, rfl⟩ := (hdir.deepest_iff h.formed h.one_root).mp hdeep
    exact .inl ⟨row, hrow, rfl⟩
  | cons name names =>
    refine .inr ⟨?_, id, name, names, rfl⟩
    by_contra hsome
    obtain ⟨row, hrow⟩ := h.place_of_some hsome
    have hfound := (hdir.deepest_iff h.formed h.one_root).mpr ⟨row, hrow, rfl⟩
    simp [hdeep] at hfound

theorem Shows.resolve_at (h : Shows t m) (hdir : t.Place p dir) (path : String) :
    PostgresInodeCatalog.answer ⟨dir.id⟩ t (.resolve path) = answer_at m p (.resolve path) := by
  rw [PostgresInodeCatalog.answer, answer_at, exec_resolve]
  rcases h.deepest_cases hdir (split_path path) with ⟨row, hrow, hdeep⟩ | ⟨hnone, _, _, _, hdeep⟩
  · simp only [hdeep, h.row_of_place hrow, h.at_place hrow]
    rfl
  · simp only [hdeep, hnone]
    rfl

theorem Shows.children_at (h : Shows t m) (hdir : t.Place p dir) (path : String) :
    PostgresInodeCatalog.answer ⟨dir.id⟩ t (.children path) = answer_at m p (.children path) := by
  rw [PostgresInodeCatalog.answer, answer_at, exec_children]
  rcases h.deepest_cases hdir (split_path path) with ⟨above, habove, hdeep⟩ | ⟨hnone, _, _, _, hdeep⟩
  · simp only [hdeep, if_neg (h.ne_none habove), Answer.of]
    congr 1
    ext ⟨name, entry⟩
    simp only [List.map_map, List.mem_map, List.mem_filter, Set.mem_ofPred_eq, h.entries]
    constructor
    · rintro ⟨row, ⟨hmem, hparent⟩, heq⟩
      obtain ⟨rfl, rfl⟩ := Prod.mk.inj heq
      exact ⟨row, .child habove hmem (by simpa using hparent), rfl⟩
    · rintro ⟨row, hrow, rfl⟩
      obtain ⟨above', habove', hmem, hparent, rfl⟩ := place_concat_iff.mp hrow
      obtain rfl := habove.row_eq h.formed h.one_root habove'
      exact ⟨row, ⟨hmem, by simpa using hparent⟩, rfl⟩
  · simp only [hdeep, if_pos hnone, Answer.of]

theorem Shows.remove_at (h : Shows t m) (hdir : t.Place p dir) (path : String) :
    PostgresInodeCatalog.answer ⟨dir.id⟩ t (.remove path) = answer_at m p (.remove path) := by
  rw [PostgresInodeCatalog.answer, answer_at, exec_remove]
  rcases h.deepest_cases hdir (split_path path) with ⟨above, habove, hdeep⟩ | ⟨hnone, _, _, _, hdeep⟩
  · simp only [hdeep, Answer.of]
    congr 1
    ext key
    simp only [List.mem_filterMap, List.mem_filter, mem_subtree h.formed, Set.mem_ofPred_eq]
    constructor
    · rintro ⟨row, ⟨⟨hmem, hbelow⟩, hfile⟩, hkey⟩
      obtain ⟨rest, hrow⟩ := habove.of_below h.formed hmem hbelow
      have hkind : row.kind = 1 := (by simpa using hfile : row.kind = 1 ∧ _).1
      exact ⟨_, row.entry, List.prefix_append _ rest, h.at_place hrow,
        Row.file_key_entry.mpr ⟨hkind, hkey⟩⟩
    · rintro ⟨q, entry, hbelow, hq, hkey⟩
      obtain ⟨row, hrow, rfl⟩ := (h.entries q entry).mp hq
      obtain ⟨hkind, hkey⟩ := Row.file_key_entry.mp hkey
      have hbelow := (habove.below_iff h.formed h.one_root hrow).mpr hbelow
      exact ⟨row, ⟨⟨hrow.mem, hbelow⟩, by simp [hkind, hkey]⟩, hkey⟩
  · simp only [hdeep, Answer.of]
    congr 1
    ext key
    simp only [List.not_mem_nil, Set.mem_ofPred_eq, false_iff]
    rintro ⟨q, entry, hbelow, hq, -⟩
    exact h.closed _ q hbelow (by simp [hq]) hnone

/-- The whole path is made of directories. -/
theorem Shows.mkdir_at (h : Shows t m) (hdir : t.Place p dir) (path : String) :
    PostgresInodeCatalog.answer ⟨dir.id⟩ t (.mkdir path) = answer_at m p (.mkdir path) ∧
      Shows (exec (PostgresInodeCatalog.mkdir ⟨dir.id⟩ path) t).2
        (m.fill (p ++ split_path path) .dir) ∧
      Grows t (exec (PostgresInodeCatalog.mkdir ⟨dir.id⟩ path) t).2 := by
  rw [PostgresInodeCatalog.answer, answer_at]
  by_cases hpath : split_path path = []
  · rw [PostgresInodeCatalog.exec_mkdir_empty hpath, if_pos hpath, hpath, List.append_nil,
      fill_eq_self h.closed (h.ne_none hdir)]
    exact ⟨rfl, h, .refl t⟩
  · obtain ⟨t', row, hexec, hshows, hrow, hgrows⟩ := h.exec_ensure_path hdir (split_path path)
    have hmkdir : exec (PostgresInodeCatalog.mkdir ⟨dir.id⟩ path) t =
        (.ok (row_to_inode row), t') := by
      rw [PostgresInodeCatalog.mkdir_eq hpath, exec_bind_ok hexec, PostgresInodeCatalog.exec_load,
        hshows.row_of_place hrow]
    rw [hmkdir, if_neg hpath]
    refine ⟨?_, hshows, hgrows⟩
    rw [hshows.at_place hrow]
    rfl

/-- The names but the last one are directories, and the file is at the whole path. -/
theorem Shows.create_file_at (h : Shows t m) (hdir : t.Place p dir) (path : String) (key : Nat) :
    PostgresInodeCatalog.answer ⟨dir.id⟩ t (.create_file path key) =
        answer_at m p (.create_file path key) ∧
      Shows (exec (PostgresInodeCatalog.create_file ⟨dir.id⟩ path key) t).2
        (if split_path path = [] then m
        else (m.fill (p ++ (split_path path).dropLast) .dir).put (p ++ split_path path)
          (.file ("fs/" ++ display_id key))) ∧
      Grows t (exec (PostgresInodeCatalog.create_file ⟨dir.id⟩ path key) t).2 := by
  rw [PostgresInodeCatalog.answer, answer_at]
  by_cases hpath : split_path path = []
  · rw [PostgresInodeCatalog.exec_create_file_empty hpath, if_pos hpath, if_pos hpath]
    exact ⟨rfl, h, .refl t⟩
  · rw [if_neg hpath, if_neg hpath]
    obtain ⟨segments, leaf, hsplit⟩ := List.eq_nil_or_concat _ |>.resolve_left hpath
    rw [List.concat_eq_append] at hsplit
    obtain ⟨t1, above, hexec, hshows, habove, hgrows⟩ := h.exec_ensure_path hdir segments
    obtain ⟨t', row, hexec', hentry, hshows', hgrows'⟩ :=
      hshows.exec_upsert_file habove leaf ("fs/" ++ display_id key)
    have hcreate : exec (PostgresInodeCatalog.create_file ⟨dir.id⟩ path key) t =
        (.ok (row_to_inode row), t') := by
      rw [PostgresInodeCatalog.create_file_eq hsplit, exec_bind_ok hexec, exec_bind_ok hexec']
      rfl
    rw [hcreate, hsplit, List.dropLast_concat, ← List.append_assoc]
    refine ⟨?_, hshows', hgrows.trans hgrows'⟩
    rw [← hentry]
    rfl

/-! ## A catalog whose root is gone -/

/-- Nothing of the table is below an id that has no row. -/
theorem deepest_gone (h : t.Formed) (hgone : t.row id = none) (segments : List String) :
    t.deepest id segments = (id, segments) := by
  apply deepest_childless
  intro hchild
  obtain ⟨dir, hdir⟩ := h.row_of_hasChild hchild
  simp [hgone] at hdir

theorem exec_ensure_path_gone (h : t.Formed) (hgone : t.row id = none) (hne : segments ≠ []) :
    exec (ensure_path id segments) t = (.error .ForeignKeyViolation, t) := by
  rw [exec_ensure_path h (deepest_gone h hgone segments), if_pos ⟨hne, hgone⟩]

/-- Such a catalog makes nothing. -/
theorem exec_create_file_gone (h : t.Formed) (hgone : t.row catalog.root_id = none) (key : Nat)
    (hpath : split_path path ≠ []) :
    exec (catalog.create_file path key) t = (.error .ForeignKeyViolation, t) := by
  obtain ⟨segments, leaf, hsplit⟩ := List.eq_nil_or_concat _ |>.resolve_left hpath
  rw [List.concat_eq_append] at hsplit
  rw [PostgresInodeCatalog.create_file_eq hsplit]
  by_cases hne : segments = []
  · have hnone : t.child catalog.root_id leaf = none := by
      have hdeep := deepest_gone h hgone [leaf]
      rw [deepest] at hdeep
      cases hchild : t.child catalog.root_id leaf with
      | none => rfl
      | some row => simp [hchild, deepest] at hdeep
    have hupsert : exec (upsert_file catalog.root_id leaf ("fs/" ++ display_id key)) t =
        (.error .ForeignKeyViolation, t) := by
      change (match t.child catalog.root_id leaf with
        | some _ => _
        | none => _ : Except Error Row × FsInode) = _
      rw [hnone, hgone]
    subst hne
    change exec (upsert_file catalog.root_id leaf ("fs/" ++ display_id key) >>= _) t = _
    exact exec_bind_error hupsert
  · exact exec_bind_error (exec_ensure_path_gone h hgone hne)

theorem exec_mkdir_gone (h : t.Formed) (hgone : t.row catalog.root_id = none)
    (hpath : split_path path ≠ []) :
    exec (catalog.mkdir path) t = (.error .ForeignKeyViolation, t) := by
  rw [PostgresInodeCatalog.mkdir_eq hpath]
  exact exec_bind_error (exec_ensure_path_gone h hgone hpath)

theorem children_gone (h : t.Formed) (hgone : t.row id = none) :
    t.rows.filter (·.parent_id = some id) = [] := by
  apply List.filter_eq_nil_iff.mpr
  intro row hrow hparent
  obtain ⟨dir, hdir⟩ := h.row_of_hasChild ⟨row, hrow, by simpa using hparent⟩
  simp [hgone] at hdir

/-- Nothing is removed. -/
theorem exec_remove_gone (catalog : PostgresInodeCatalog) (path : String) (h : t.Formed) (hgone : t.row catalog.root_id = none) :
    exec (catalog.remove path) t = (.ok [], t) := by
  have hsubtree : ∀ row, row ∉ t.subtree catalog.root_id := by
    intro row hrow
    obtain ⟨hmem, hbelow⟩ := (mem_subtree h).mp hrow
    rcases hbelow.cases_head with heq | ⟨_, ⟨other, hother, -, hparent⟩, -⟩
    · exact row_eq_none.mp hgone row hmem heq.symm
    · obtain ⟨dir, hdir⟩ := h.row_of_hasChild ⟨other, hother, hparent⟩
      simp [hgone] at hdir
  rw [exec_remove, deepest_gone h hgone]
  cases split_path path with
  | cons name names => rfl
  | nil => simp [cascade, List.eq_nil_iff_forall_not_mem.mpr hsubtree]

theorem answer_of_gone (h : t.Formed) (hgone : t.row catalog.root_id = none) (call : Call) :
    catalog.answer t call = answer_gone call := by
  cases call with
  | resolve path =>
    rw [PostgresInodeCatalog.answer, answer_gone, exec_resolve, deepest_gone h hgone]
    cases split_path path with
    | nil => simp [hgone, Answer.of]
    | cons name names => simp [Answer.of]
  | children path =>
    rw [PostgresInodeCatalog.answer, answer_gone, exec_children, deepest_gone h hgone]
    cases split_path path with
    | nil => simp [children_gone h hgone, Answer.of]
    | cons name names => simp [Answer.of]
  | mkdir path =>
    rw [PostgresInodeCatalog.answer, answer_gone]
    by_cases hpath : split_path path = []
    · rw [PostgresInodeCatalog.exec_mkdir_empty hpath, if_pos hpath]
      rfl
    · rw [exec_mkdir_gone h hgone hpath, if_neg hpath]
      rfl
  | create_file path key =>
    rw [PostgresInodeCatalog.answer, answer_gone]
    by_cases hpath : split_path path = []
    · rw [PostgresInodeCatalog.exec_create_file_empty hpath, if_pos hpath]
      rfl
    · rw [exec_create_file_gone h hgone key hpath, if_neg hpath]
      rfl
  | remove path =>
    rw [PostgresInodeCatalog.answer, answer_gone, exec_remove_gone catalog path h hgone]
    simp [Answer.of]

/-! ## The refinement -/

/-- The root of a catalog is at its path, or it has no row and never will. -/
def Stands (t : FsInode) (catalog : PostgresInodeCatalog) : Option (List String) → Prop
  | some p => ∃ row, t.Place p row ∧ row.id = catalog.root_id
  | none => t.row catalog.root_id = none ∧ catalog.root_id < t.next

theorem Stands.grows {root : Option (List String)} (hgrows : Grows t t')
    (h : Stands t catalog root) : Stands t' catalog root := by
  cases root with
  | some p =>
    obtain ⟨row, hrow, hid⟩ := h
    obtain ⟨row', hrow', hid'⟩ := hgrows.place p row hrow
    exact ⟨row', hrow', hid'.trans hid⟩
  | none => exact ⟨hgrows.gone _ h.2 h.1, h.2.trans_le hgrows.next⟩

/-- The roots below a path that is removed are gone. -/
theorem Stands.cascade {root : Option (List String)} (hshows : Shows t m) (hdir : t.Place p dir)
    (h : Stands t catalog root) :
    Stands (t.cascade dir.id) catalog (root.filter fun q => ¬ p <+: q) := by
  have hsub : ∀ row ∈ (t.cascade dir.id).rows, row ∈ t.rows :=
    fun row hrow => ((mem_cascade hshows.formed).mp hrow).1
  cases root with
  | none =>
    refine ⟨row_eq_none.mpr fun row hrow => ?_, h.2⟩
    exact row_eq_none.mp h.1 row (hsub row hrow)
  | some q =>
    obtain ⟨row, hrow, hid⟩ := h
    by_cases hbelow : p <+: q
    · have hnone : (some q).filter (fun q => ¬ p <+: q) = none := by simp [hbelow]
      rw [hnone]
      refine ⟨row_eq_none.mpr fun other hother heq => ?_, ?_⟩
      · obtain rfl := hshows.formed.ids other (hsub other hother) row hrow.mem (heq.trans hid.symm)
        have hbelow := (hdir.below_iff hshows.formed hshows.one_root hrow).mpr hbelow
        exact ((mem_cascade hshows.formed).mp hother).2 hbelow
      · rw [← hid]
        exact hshows.formed.fresh row hrow.mem
    · have hsome : (some q).filter (fun q => ¬ p <+: q) = some q := by simp [hbelow]
      rw [hsome]
      exact ⟨row, (place_cascade hshows.formed hshows.one_root hdir).mpr ⟨hrow, hbelow⟩, hid⟩

/-- The table shows the map, and the catalogs stand at their paths. -/
structure Refines (s : Database) (n : Namespace) : Prop where
  shows : Shows s.table n.tree
  scopes : List.Forall₂ (Stands s.table) s.catalogs n.scopes

variable {s : Database} {n : Namespace}

theorem Refines.scope_cases (h : Refines s n) (scope : Nat) :
    s.catalogs[scope]? = none ∧ n.scopes[scope]? = none ∨
      ∃ catalog root, s.catalogs[scope]? = some catalog ∧ n.scopes[scope]? = some root ∧
        Stands s.table catalog root :=
  Pointwise.getElem?_cases h.scopes scope

theorem Refines.answer_eq (h : Refines s n) (scope : Nat) (call : Call) :
    s.answer scope call = n.answer scope call := by
  unfold Database.answer Namespace.answer
  rcases h.scope_cases scope with ⟨hnone, hnone'⟩ | ⟨⟨id⟩, root, hcatalog, hroot, hstands⟩
  · rw [hnone, hnone']
    rfl
  rw [hcatalog, hroot, Option.map_some, Option.map_some]
  congr 1
  cases root with
  | none => exact answer_of_gone h.shows.formed hstands.1 call
  | some p =>
    obtain ⟨dir, hdir, rfl⟩ := hstands
    cases call with
    | resolve path => exact h.shows.resolve_at hdir path
    | children path => exact h.shows.children_at hdir path
    | mkdir path => exact (h.shows.mkdir_at hdir path).1
    | create_file path key => exact (h.shows.create_file_at hdir path key).1
    | remove path => exact h.shows.remove_at hdir path

/-- A catalog that is opened. -/
theorem Refines.open_scope (h : Refines s n) (segments : List String) :
    Refines (s.open_catalog (open_at segments)) (n.open_scope segments) := by
  obtain ⟨t', row, hexec, hshows, hrow, hgrows⟩ := h.shows.exec_open_at segments
  unfold Database.open_catalog Namespace.open_scope
  rw [hexec]
  refine ⟨hshows, ?_⟩
  exact Pointwise.concat (h.scopes.imp fun _ _ hstands => hstands.grows hgrows) ⟨row, hrow, rfl⟩

/-- A call that changes the map at the path of its catalog, and nothing where that is gone. -/
theorem Refines.change {α : Type} {f : PostgresInodeCatalog → Sql α} {g : List String → Tree}
    (h : Refines s n) (scope : Nat)
    (hat : ∀ p dir, s.table.Place p dir →
      Shows (exec (f ⟨dir.id⟩) s.table).2 (g p) ∧ Grows s.table (exec (f ⟨dir.id⟩) s.table).2)
    (hgone : ∀ catalog, s.table.row catalog.root_id = none → (exec (f catalog) s.table).2 = s.table) :
    Refines (s.call scope f) (n.change scope g) := by
  unfold Database.call Namespace.change
  rcases h.scope_cases scope with ⟨hnone, hnone'⟩ | ⟨⟨id⟩, root, hcatalog, hroot, hstands⟩
  · rw [hnone, hnone']
    exact h
  rw [hcatalog, hroot]
  cases root with
  | none =>
    simp only [hgone _ hstands.1]
    exact h
  | some p =>
    obtain ⟨dir, hdir, rfl⟩ := hstands
    obtain ⟨hshows, hgrows⟩ := hat p dir hdir
    exact ⟨hshows, h.scopes.imp fun _ _ hstands => hstands.grows hgrows⟩

/-- What is removed takes the roots below it along. -/
theorem Refines.remove (h : Refines s n) (scope : Nat) (path : String) :
    Refines (s.step (.remove scope path)) (n.step (.remove scope path)) := by
  simp only [Database.step, Database.call, Namespace.step]
  rcases h.scope_cases scope with ⟨hnone, hnone'⟩ | ⟨⟨id⟩, root, hcatalog, hroot, hstands⟩
  · rw [hnone, hnone']
    exact h
  rw [hcatalog, hroot]
  cases root with
  | none =>
    simp only [exec_remove_gone ⟨id⟩ path h.shows.formed hstands.1]
    exact h
  | some p =>
    obtain ⟨dir, hdir, rfl⟩ := hstands
    simp only [exec_remove]
    rcases h.shows.deepest_cases hdir (split_path path) with
      ⟨above, habove, hdeep⟩ | ⟨hnone, _, _, _, hdeep⟩
    · rw [hdeep]
      refine ⟨h.shows.cascade habove, ?_⟩
      rw [List.forall₂_map_right_iff]
      exact h.scopes.imp fun _ _ hstands => hstands.cascade h.shows habove
    · rw [hdeep, prune_eq_self h.shows.closed hnone]
      refine ⟨h.shows, ?_⟩
      rw [List.forall₂_map_right_iff]
      apply h.scopes.imp
      -- nothing stands below a path that is missing
      intro catalog root hstands'
      cases root with
      | none => exact hstands'
      | some q =>
        have hbelow : ¬ p ++ split_path path <+: q := by
          intro hbelow
          obtain ⟨row, hrow, -⟩ := hstands'
          exact h.shows.closed _ q hbelow (h.shows.ne_none hrow) hnone
        simpa [Option.filter_some, hbelow] using hstands'

theorem Refines.step (h : Refines s n) (operation : Operation) :
    Refines (s.step operation) (n.step operation) := by
  cases operation with
  | for_workspace workspace_id => exact h.open_scope (workspace_path workspace_id)
  | for_session workspace_id session_id => exact h.open_scope (session_path workspace_id session_id)
  | mkdir scope path =>
    apply h.change scope
    · intro p dir hdir
      exact (h.shows.mkdir_at hdir path).2
    · intro catalog hgone
      by_cases hpath : split_path path = []
      · rw [PostgresInodeCatalog.exec_mkdir_empty hpath]
      · rw [exec_mkdir_gone h.shows.formed hgone hpath]
  | create_file scope path key =>
    apply h.change scope
    · intro p dir hdir
      exact (h.shows.create_file_at hdir path key).2
    · intro catalog hgone
      by_cases hpath : split_path path = []
      · rw [PostgresInodeCatalog.exec_create_file_empty hpath]
      · rw [exec_create_file_gone h.shows.formed hgone key hpath]
  | remove scope path => exact h.remove scope path

theorem refines_empty : Refines ⟨.empty, []⟩ ⟨fun _ => none, []⟩ := by
  refine ⟨⟨formed_empty, oneRoot_empty, ?_⟩, .nil⟩
  intro p entry
  constructor
  · rintro ⟨⟩
  · rintro ⟨row, hrow, -⟩
    exact absurd hrow.mem (by simp [FsInode.empty])

theorem refines_run (operations : List Operation) :
    Refines (Database.run operations) (Namespace.run operations) := by
  induction operations using List.reverseRecOn with
  | nil => exact refines_empty
  | append_singleton operations operation ih =>
    simp only [Database.run, Namespace.run, List.foldl_append, List.foldl_cons, List.foldl_nil] at ih ⊢
    exact ih.step operation

/-- After every run of the catalogs, every call answers what the map of paths says. -/
theorem catalogs_show_one_map (operations : List Operation) (scope : Nat) (call : Call) :
    (Database.run operations).answer scope call = (Namespace.run operations).answer scope call :=
  (refines_run operations).answer_eq scope call

end marie.persistency
