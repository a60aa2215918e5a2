-- One call of a catalog: the constraints that it keeps, and when it leaves no
-- inode in a file. `remove` has no condition.
import Marie.Persistency.InodePaths

namespace marie.persistency

open Program FsInode PostgresInodeCatalog

variable {t t' : FsInode} {id current : InodeId} {row : Row} {segments : List String}
  {catalog : PostgresInodeCatalog} {path : String}

/-! ## The conditions on a path -/

/-- The inode that exists of a path, as far as it does. -/
def FsInode.reached (t : FsInode) (current : InodeId) (segments : List String) : InodeId :=
  (t.deepest current segments).1

/-- All of the path exists. -/
def FsInode.Found (t : FsInode) (current : InodeId) (segments : List String) : Prop :=
  (t.deepest current segments).2 = []

/-- The names that are missing, if there are any, are not missing in a file. -/
def FsInode.Clear (t : FsInode) (current : InodeId) (segments : List String) : Prop :=
  ¬ t.Found current segments → ¬ t.IsFile (t.reached current segments)

theorem not_isFile_of_row (h : t.row id = none) : ¬ t.IsFile id := by
  rintro ⟨row, hrow, hid, -⟩
  exact row_eq_none.mp h row hrow hid

theorem FsInode.Formed.isFile_iff (h : t.Formed) (hrow : t.row id = some row) :
    t.IsFile id ↔ row.kind = 1 := by
  obtain ⟨hmem, hid⟩ := h.row_eq_some.mp hrow
  constructor
  · rintro ⟨other, hother, hother_id, hfile⟩
    rw [h.ids row hmem other hother (hid.trans hother_id.symm)]
    exact kind_eq_file.mp hfile
  · intro hkind
    exact ⟨row, hmem, hid, kind_eq_file.mpr hkind⟩

/-! ## The root of a catalog -/

theorem formed_ensure_path (h : t.Formed) (current : InodeId) (segments : List String) :
    (exec (ensure_path current segments) t).2.Formed := by
  rcases hdeep : t.deepest current segments with ⟨id, names⟩
  rw [exec_ensure_path h hdeep]
  split
  · exact h
  · rename_i hrow
    cases names with
    | nil => exact h
    | cons name names =>
      obtain ⟨row, hrow⟩ := Option.ne_none_iff_exists'.mp fun hnone => hrow ⟨by simp, hnone⟩
      exact h.add_path hrow (child_of_deepest hdeep)

theorem onlyDirs_ensure_path (h : t.Formed) (honly : t.OnlyDirs) :
    (exec (ensure_path current segments) t).2.OnlyDirs ↔ t.Clear current segments := by
  unfold Clear Found reached
  rcases hdeep : t.deepest current segments with ⟨id, names⟩
  rw [exec_ensure_path h hdeep]
  cases names with
  | nil => simp [add_path, honly]
  | cons name names =>
    cases hrow : t.row id with
    | none => simp [honly, not_isFile_of_row hrow]
    | some row => simp [onlyDirs_add_path h honly hrow (child_of_deepest hdeep)]

theorem exec_ensure_global_root : exec ensure_global_root t = match t.root with
    | some row => (.ok row.id, t)
    | none => (.ok t.next, t.add none "" 0 none) := by
  have hinsert : exec insert_root t = match t.root with
      | some _ => (.ok none, t)
      | none => (.ok (some t.next), t.add none "" 0 none) := rfl
  unfold ensure_global_root
  rw [exec_bind_ok (exec_asks FsInode.root t)]
  cases hroot : t.root with
  | some row => rfl
  | none =>
    rw [hroot] at hinsert
    exact exec_bind_ok hinsert

theorem deepest_childless (h : ¬ t.HasChild current) (segments : List String) :
    t.deepest current segments = (current, segments) := by
  cases segments with
  | nil => rfl
  | cons segment segments => rw [deepest, child_eq_none_of_childless segment h]

theorem formed_add_root (h : t.Formed) : (t.add none "" 0 none).Formed := by
  apply h.add
  rintro _ ⟨⟩

theorem onlyDirs_add_root (honly : t.OnlyDirs) : (t.add none "" 0 none).OnlyDirs := by
  intro id hchild hfile
  have hchild : t.HasChild id := by simpa using hasChild_add.mp hchild
  have hfile : t.IsFile id := by simpa using isFile_add.mp hfile
  exact honly id hchild hfile

/-- The catalog whose root is at `segments` under the root of the table. -/
def open_at (segments : List String) : Sql PostgresInodeCatalog := do
  let global_root ← ensure_global_root
  let root_id ← ensure_path global_root segments
  pure { root_id }

/-- The path is clear below the root of the table, if there is one. -/
def FsInode.RootClear (t : FsInode) (segments : List String) : Prop :=
  ∀ root ∈ t.root, t.Clear root.id segments

theorem exec_open_at : (exec (open_at segments) t).2 = match t.root with
    | some row => (exec (ensure_path row.id segments) t).2
    | none => (exec (ensure_path t.next segments) (t.add none "" 0 none)).2 := by
  have hlast : ∀ (m : Sql InodeId) (s : FsInode),
      (exec (m >>= fun root_id => pure (⟨root_id⟩ : PostgresInodeCatalog)) s).2 = (exec m s).2 := by
    intro m s
    rw [exec_bind]
    rcases exec m s with ⟨_ | _, _⟩ <;> rfl
  unfold open_at
  have hroot : exec ensure_global_root t = _ := exec_ensure_global_root
  cases h : t.root with
  | some row =>
    rw [h] at hroot
    rw [exec_bind_ok hroot, hlast]
  | none =>
    rw [h] at hroot
    rw [exec_bind_ok hroot, hlast]

theorem formed_open_at (h : t.Formed) : (exec (open_at segments) t).2.Formed := by
  rw [exec_open_at]
  cases t.root with
  | some row => exact formed_ensure_path h row.id segments
  | none => exact formed_ensure_path (formed_add_root h) t.next segments

theorem onlyDirs_open_at (h : t.Formed) (honly : t.OnlyDirs) :
    (exec (open_at segments) t).2.OnlyDirs ↔ t.RootClear segments := by
  rw [exec_open_at, RootClear]
  cases t.root with
  | some row => simp [onlyDirs_ensure_path h honly]
  | none =>
    -- under a new root there is no file
    simp only [Option.not_mem_none, IsEmpty.forall_iff, implies_true, iff_true]
    apply (onlyDirs_ensure_path (formed_add_root h) (onlyDirs_add_root honly)).mpr
    have hempty : ¬ (t.add none "" 0 none).HasChild t.next := by
      simpa using mt hasChild_add.mp (by simpa using h.next_childless)
    intro _ hfile
    rw [reached, deepest_childless hempty] at hfile
    have hfile : t.IsFile t.next := by simpa using isFile_add.mp hfile
    obtain ⟨row, hrow, hid, -⟩ := hfile
    exact absurd (h.fresh row hrow) (by simp [hid])

/-! ## The operations -/

/-- `mkdir` leaves directories only, and returns one, where what exists of the path is not a
file. -/
theorem mkdir_meets (h : t.Formed) (honly : t.OnlyDirs) :
    ((exec (catalog.mkdir path) t).2.OnlyDirs ∧
      ∀ inode, (exec (catalog.mkdir path) t).1 = .ok inode → inode.kind = .Dir) ↔
      (split_path path ≠ [] → ¬ t.IsFile (t.reached catalog.root_id (split_path path))) := by
  by_cases hpath : split_path path = []
  · simp [exec_mkdir_empty hpath, hpath, honly]
  unfold reached
  rw [forall_prop_of_true hpath]
  rcases hdeep : t.deepest catalog.root_id (split_path path) with ⟨id, names⟩
  rw [exec_mkdir h hpath hdeep]
  cases names with
  | nil =>
    rw [if_neg (by simp), add_path, exec_load]
    cases hrow : t.row id with
    | none => simp [honly, not_isFile_of_row hrow]
    | some row => simp [honly, h.isFile_iff hrow]
  | cons name names =>
    have hchild := child_of_deepest hdeep
    cases hrow : t.row id with
    | none => simp [honly, not_isFile_of_row hrow]
    | some row =>
      obtain ⟨last, hlast, hkind, -⟩ := h.last_of_add_path 0 none names hrow hchild
      rw [if_neg (by simp), exec_load, hlast]
      simp [onlyDirs_add_path h honly hrow hchild, hkind]

theorem formed_mkdir (h : t.Formed) : (exec (catalog.mkdir path) t).2.Formed := by
  by_cases hpath : split_path path = []
  · rw [exec_mkdir_empty hpath]
    exact h
  · rw [mkdir_eq hpath, exec_bind]
    have hensure := formed_ensure_path h catalog.root_id (split_path path)
    rcases hr : exec (ensure_path catalog.root_id (split_path path)) t with ⟨e | id, t'⟩
    · rw [hr] at hensure
      exact hensure
    · rw [hr] at hensure
      simp only [exec_load]
      cases t'.row id <;> exact hensure

/-- The directories that are not empty are no files afterwards. -/
def KeepsDirs (t t' : FsInode) : Prop := ∀ id, t.HasChild id → ¬ t.IsFile id → ¬ t'.IsFile id

theorem formed_create_file {key : Nat} (h : t.Formed) :
    (exec (catalog.create_file path key) t).2.Formed := by
  by_cases hpath : split_path path = []
  · rw [exec_create_file_empty hpath]
    exact h
  · rcases hdeep : t.deepest catalog.root_id (split_path path) with ⟨id, names⟩
    cases names with
    | nil =>
      obtain ⟨row, hrow, heq⟩ := create_file_over key h hpath hdeep
      rw [heq]
      exact h.overwrite (h.row_eq_some.mp hrow).1
    | cons name names =>
      rw [create_file_new key h hdeep]
      cases hrow : t.row id with
      | none => simpa using h
      | some row => simpa using h.add_path hrow (child_of_deepest hdeep)

/-- `create_file` leaves directories only, and no directory that is not empty becomes a file,
where the names that are missing are not missing in a file and there is nothing in the inode
that the file replaces. -/
theorem create_file_meets {key : Nat} (h : t.Formed) (honly : t.OnlyDirs) :
    ((exec (catalog.create_file path key) t).2.OnlyDirs ∧
      KeepsDirs t (exec (catalog.create_file path key) t).2) ↔
      (split_path path ≠ [] → t.Clear catalog.root_id (split_path path) ∧
        (t.Found catalog.root_id (split_path path) →
          ¬ t.HasChild (t.reached catalog.root_id (split_path path)))) := by
  by_cases hpath : split_path path = []
  · simp [exec_create_file_empty hpath, hpath, honly, KeepsDirs]
  unfold Clear Found reached
  rw [forall_prop_of_true hpath]
  rcases hdeep : t.deepest catalog.root_id (split_path path) with ⟨id, names⟩
  cases names with
  | nil =>
    obtain ⟨row, hrow, heq⟩ := create_file_over key h hpath hdeep
    obtain ⟨hmem, rfl⟩ := h.row_eq_some.mp hrow
    rw [heq, onlyDirs_overwrite h honly hmem]
    simp only [not_true_eq_false, IsEmpty.forall_iff, forall_const, true_and, and_iff_left_iff_imp]
    intro hnone id hchild hdir hfile
    rcases (isFile_overwrite hmem).mp hfile with hfile | rfl
    · exact hdir hfile
    · exact hnone hchild
  | cons name names =>
    rw [create_file_new key h hdeep]
    cases hrow : t.row id with
    | none => simp [honly, not_isFile_of_row hrow, KeepsDirs]
    | some row =>
      have hchild := child_of_deepest hdeep
      simp only [reduceCtorEq, if_false, onlyDirs_add_path h honly hrow hchild, not_false_eq_true,
        forall_const, false_implies, and_true, and_iff_left_iff_imp]
      -- the rows that there were are still there, and of one id there is one row
      intro _ other hother hdir hfile
      obtain ⟨dir, hdirrow⟩ := h.row_of_hasChild hother
      obtain ⟨hmem, hid⟩ := h.row_eq_some.mp hdirrow
      have h' : (t.add_path id 1 (some ("fs/" ++ display_id key)) (name :: names)).2.Formed :=
        h.add_path hrow hchild
      have hdirrow' := h'.row_eq_some.mpr ⟨mem_add_path hmem, hid⟩
      exact hdir ((h.isFile_iff hdirrow).mpr ((h'.isFile_iff hdirrow').mp hfile))

/-- What `remove` leaves: nothing resolves at the path or below it, the other rows are as they
were, and the keys are those of the files that are gone. -/
structure Removed (catalog : PostgresInodeCatalog) (path : String) (t t' : FsInode)
    (keys : List String) : Prop where
  gone : ∀ below, split_path path <+: split_path below →
    ∀ inode, (exec (catalog.resolve below) t').1 ≠ .ok (some inode)
  kept : ∀ row, row ∈ t'.rows ↔
    row ∈ t.rows ∧ ∀ id, (exec (catalog.walk path) t).1 = .ok (some id) → ¬ t.Below id row.id
  keys : ∀ key, key ∈ keys ↔ ∃ row ∈ t.rows,
    (∃ id, (exec (catalog.walk path) t).1 = .ok (some id) ∧ t.Below id row.id) ∧
    (row_to_inode row).kind = .File ∧ row.object_key = some key

/-- A path below another one passes the inode of that one. -/
theorem deepest_of_prefix {others : List String} (hbelow_path : segments <+: others) :
    t.deepest current others = (id, []) →
      ∃ mid rest, t.deepest current segments = (mid, []) ∧ t.deepest mid rest = (id, []) := by
  obtain ⟨rest, rfl⟩ := hbelow_path
  rw [deepest_append]
  rcases t.deepest current segments with ⟨mid, names⟩
  cases names with
  | nil => exact fun h => ⟨mid, rest, rfl, h⟩
  | cons name names => simp

/-- A path leads down. -/
theorem below_of_deepest (h : t.Formed) (hdeep : t.deepest current segments = (id, [])) :
    t.Below current id := by
  induction segments generalizing current with
  | nil =>
    obtain ⟨rfl, -⟩ := Prod.mk.inj hdeep
    exact .refl
  | cons segment segments ih =>
    rw [deepest] at hdeep
    cases hchild : t.child current segment with
    | none => simp [hchild] at hdeep
    | some row =>
      rw [hchild] at hdeep
      obtain ⟨hmem, hparent, -⟩ := h.child_eq_some.mp hchild
      exact .head ⟨row, hmem, rfl, hparent⟩ (ih hdeep)

/-- A path of a table with fewer rows is a path of the whole table. -/
theorem deepest_of_subset (h : t.Formed) (h' : t'.Formed) (hsub : ∀ row ∈ t'.rows, row ∈ t.rows)
    (hdeep : t'.deepest current segments = (id, [])) : t.deepest current segments = (id, []) := by
  induction segments generalizing current with
  | nil => exact hdeep
  | cons segment segments ih =>
    rw [deepest] at hdeep ⊢
    cases hchild : t'.child current segment with
    | none => simp [hchild] at hdeep
    | some row =>
      rw [hchild] at hdeep
      obtain ⟨hmem, hparent, hname⟩ := h'.child_eq_some.mp hchild
      rw [h.child_eq_some.mpr ⟨hsub row hmem, hparent, hname⟩]
      exact ih hdeep

theorem exec_remove : exec (catalog.remove path) t =
    match t.deepest catalog.root_id (split_path path) with
    | (id, []) =>
      (.ok (((t.subtree id).filter fun row => row.kind = 1 ∧ row.object_key ≠ none).filterMap
        (·.object_key)), t.cascade id)
    | (_, _ :: _) => (.ok [], t) := by
  unfold remove walk
  rw [exec_bind_ok exec_walk_from]
  rcases t.deepest catalog.root_id (split_path path) with ⟨id, names⟩
  cases names <;> rfl

theorem walk_ok : (exec (catalog.walk path) t).1 = .ok (some id) ↔
    t.deepest catalog.root_id (split_path path) = (id, []) := by
  unfold walk
  rw [exec_walk_from]
  rcases t.deepest catalog.root_id (split_path path) with ⟨found, names⟩
  cases names <;> simp

/-- What resolves has a row at the end of its path. -/
theorem resolve_ok {inode : Inode} (h : (exec (catalog.resolve path) t).1 = .ok (some inode)) :
    ∃ id row, t.deepest catalog.root_id (split_path path) = (id, []) ∧ t.row id = some row := by
  unfold resolve walk at h
  rw [exec_bind_ok exec_walk_from] at h
  rcases hdeep : t.deepest catalog.root_id (split_path path) with ⟨id, names⟩
  rw [hdeep] at h
  cases names with
  | cons name names => simp at h
  | nil =>
    simp only [if_true, exec_bind, exec_load] at h
    cases hrow : t.row id with
    | none => simp [hrow] at h
    | some row => exact ⟨id, row, rfl, hrow⟩

theorem remove_meets (h : t.Formed) {keys : List String}
    (hok : (exec (catalog.remove path) t).1 = .ok keys) :
    Removed catalog path t (exec (catalog.remove path) t).2 keys := by
  rw [exec_remove] at hok ⊢
  rcases hdeep : t.deepest catalog.root_id (split_path path) with ⟨id, names⟩
  rw [hdeep] at hok
  have hwalk : ∀ other, (exec (catalog.walk path) t).1 = .ok (some other) ↔
      id = other ∧ names = [] := by
    intro other
    rw [walk_ok, hdeep, Prod.mk.injEq]
  cases names with
  | nil =>
    obtain rfl : _ = keys := Except.ok.inj hok
    constructor
    · intro below hbelow_path inode hresolve
      obtain ⟨other, row, hother, hrow⟩ := resolve_ok hresolve
      have hsub : ∀ row ∈ (t.cascade id).rows, row ∈ t.rows :=
        fun row hmem => ((mem_cascade h).mp hmem).1
      obtain ⟨mid, rest, hmid, hrest⟩ :=
        deepest_of_prefix hbelow_path (deepest_of_subset h h.cascade hsub hother)
      rw [hdeep] at hmid
      cases hmid
      obtain ⟨hmem, hid⟩ := h.cascade.row_eq_some.mp hrow
      exact ((mem_cascade h).mp hmem).2 (hid ▸ below_of_deepest h hrest)
    · intro row
      simp [hwalk, mem_cascade h]
    · intro key
      simp only [List.mem_filterMap, List.mem_filter, mem_subtree h, hwalk, kind_eq_file]
      constructor
      · rintro ⟨row, ⟨⟨hmem, hbelow⟩, hfile⟩, hkey⟩
        exact ⟨row, hmem, ⟨id, by simp, hbelow⟩, (by simpa using hfile : _ ∧ _).1, hkey⟩
      · rintro ⟨row, hmem, ⟨_, ⟨rfl, _⟩, hbelow⟩, hfile, hkey⟩
        exact ⟨row, ⟨⟨hmem, hbelow⟩, by simp [hfile, hkey]⟩, hkey⟩
  | cons name names =>
    obtain rfl : [] = keys := Except.ok.inj hok
    constructor
    · intro below hbelow_path inode hresolve
      obtain ⟨other, row, hother, hrow⟩ := resolve_ok hresolve
      obtain ⟨mid, rest, hmid, -⟩ := deepest_of_prefix hbelow_path hother
      simp [hdeep] at hmid
    · simp [hwalk]
    · simp [hwalk]

theorem exec_children : exec (catalog.children path) t =
    match t.deepest catalog.root_id (split_path path) with
    | (id, []) => (.ok ((t.rows.filter (·.parent_id = some id)).map fun row =>
        (row.name, row_to_inode row)), t)
    | (_, _ :: _) => (.error (.Bail ("dossier introuvable : " ++ path)), t) := by
  unfold children walk
  rw [exec_bind_ok exec_walk_from]
  rcases t.deepest catalog.root_id (split_path path) with ⟨id, names⟩
  cases names <;> rfl

theorem formed_remove (h : t.Formed) : (exec (catalog.remove path) t).2.Formed := by
  rw [exec_remove]
  rcases t.deepest catalog.root_id (split_path path) with ⟨id, names⟩
  cases names with
  | nil => exact h.cascade
  | cons name names => exact h

theorem onlyDirs_remove (h : t.Formed) (honly : t.OnlyDirs) :
    (exec (catalog.remove path) t).2.OnlyDirs := by
  rw [exec_remove]
  rcases t.deepest catalog.root_id (split_path path) with ⟨id, names⟩
  cases names with
  | nil => exact honly.anti fun row hmem => ((mem_cascade h).mp hmem).1
  | cons name names => exact honly

end marie.persistency
