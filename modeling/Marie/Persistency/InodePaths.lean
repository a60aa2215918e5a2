-- What the operations of a catalog do to the table: how far a path exists, and
-- the rows that are made for the names that are missing.
import Marie.Persistency.InodeTree

namespace marie.persistency

open Program

variable {t : FsInode} {id parent current : InodeId} {row : Row} {name : String} {kind : Nat}
  {key : Option String} {names segments : List String}

namespace FsInode

/-- The inode that a path leads to as far as it exists, and the names that are missing in it. -/
def deepest (t : FsInode) (current : InodeId) : List String → InodeId × List String
  | [] => (current, [])
  | segment :: segments =>
    match t.child current segment with
    | some row => t.deepest row.id segments
    | none => (current, segment :: segments)

/-- The names as directories below one another; the last one has a kind and a key of its own. -/
def add_path (t : FsInode) (parent : InodeId) (kind : Nat) (key : Option String) :
    List String → InodeId × FsInode
  | [] => (parent, t)
  | [leaf] => (t.next, t.add (some parent) leaf kind key)
  | name :: names => (t.add (some parent) name 0 none).add_path t.next kind key names

/-! ## A path -/

theorem deepest_append (segments others : List String) (current : InodeId) :
    t.deepest current (segments ++ others) = match t.deepest current segments with
      | (id, []) => t.deepest id others
      | (id, name :: names) => (id, name :: names ++ others) := by
  induction segments generalizing current with
  | nil => rfl
  | cons segment segments ih =>
    simp only [List.cons_append, deepest]
    cases t.child current segment with
    | some row => exact ih row.id
    | none => rfl

theorem child_of_deepest (h : t.deepest current segments = (id, name :: names)) :
    t.child id name = none := by
  induction segments generalizing current with
  | nil => simp [deepest] at h
  | cons segment segments ih =>
    rw [deepest] at h
    cases hchild : t.child current segment with
    | some row =>
      rw [hchild] at h
      exact ih h
    | none =>
      rw [hchild] at h
      cases h
      exact hchild

/-! ## The missing names -/

theorem mem_add_path (hrow : row ∈ t.rows) : row ∈ (t.add_path parent kind key names).2.rows := by
  induction names generalizing t parent with
  | nil => exact hrow
  | cons name names ih =>
    cases names with
    | nil => exact mem_add.mpr (.inl hrow)
    | cons other names => exact ih (mem_add.mpr (.inl hrow))

/-- The row of the next id, after it was given out. -/
theorem Formed.row_next (h : (t.add (some parent) name kind key).Formed) :
    (t.add (some parent) name kind key).row t.next =
      some ⟨t.next, some parent, name, kind, key, 0⟩ := by
  rw [h.row_eq_some]
  exact ⟨mem_add.mpr (.inr rfl), rfl⟩

theorem Formed.add_child (h : t.Formed) (kind : Nat) (key : Option String)
    (hrow : t.row parent = some row) (hchild : t.child parent name = none) :
    (t.add (some parent) name kind key).Formed := by
  apply h.add
  rintro _ ⟨⟩
  exact ⟨⟨row, hrow⟩, hchild⟩

theorem Formed.add_path (h : t.Formed) (hrow : t.row parent = some row)
    (hchild : t.child parent name = none) :
    (t.add_path parent kind key (name :: names)).2.Formed := by
  induction names generalizing t parent row name with
  | nil => exact h.add_child kind key hrow hchild
  | cons other names ih =>
    have h' := h.add_child 0 none hrow hchild
    exact ih h' h'.row_next (child_eq_none_of_childless other (h.next_childless_add hrow))

/-- The last name has the row that was asked for, and nothing in it. -/
theorem Formed.last_of_add_path (h : t.Formed) (kind : Nat) (key : Option String)
    (names : List String) (hrow : t.row parent = some row)
    (hchild : t.child parent name = none) :
    ∃ last, (t.add_path parent kind key (name :: names)).2.row
        (t.add_path parent kind key (name :: names)).1 = some last ∧ last.kind = kind ∧
      last.object_key = key ∧
      ¬ (t.add_path parent kind key (name :: names)).2.HasChild
        (t.add_path parent kind key (name :: names)).1 := by
  induction names generalizing t parent row name with
  | nil =>
    exact ⟨_, (h.add_child kind key hrow hchild).row_next, rfl, rfl, h.next_childless_add hrow⟩
  | cons other names ih =>
    have h' := h.add_child 0 none hrow hchild
    exact ih h' h'.row_next (child_eq_none_of_childless other (h.next_childless_add hrow))

/-- The missing names leave directories only, but in a file. -/
theorem onlyDirs_add_path (h : t.Formed) (honly : t.OnlyDirs) (hrow : t.row parent = some row)
    (hchild : t.child parent name = none) :
    (t.add_path parent kind key (name :: names)).2.OnlyDirs ↔ ¬ t.IsFile parent := by
  induction names generalizing t parent row name with
  | nil => exact onlyDirs_add name kind key h honly hrow
  | cons other names ih =>
    have h' := h.add_child 0 none hrow hchild
    have hfirst := onlyDirs_add name 0 none h honly hrow
    have hfree : (t.add (some parent) name 0 none).child t.next other = none :=
      child_eq_none_of_childless other (h.next_childless_add hrow)
    constructor
    · intro hall
      exact hfirst.mp (hall.anti fun row hmem => mem_add_path hmem)
    · intro hdir
      -- the new directory is not a file, so the rest may go in it
      apply (ih h' (hfirst.mpr hdir) h'.row_next hfree).mpr
      intro hfile
      rcases isFile_add.mp hfile with ⟨old, hold, hid, -⟩ | ⟨-, hkind⟩
      · exact absurd (h.fresh old hold) (by simp [hid])
      · simp at hkind

/-- The names one after the other, and the last of them. -/
theorem add_path_concat (leaf : String) (hnames : names ≠ []) :
    t.add_path parent kind key (names ++ [leaf]) =
      ((t.add_path parent 0 none names).2.next,
        (t.add_path parent 0 none names).2.add (some (t.add_path parent 0 none names).1) leaf
          kind key) := by
  induction names generalizing t parent with
  | nil => exact absurd rfl hnames
  | cons name names ih =>
    cases names with
    | nil => rfl
    | cons other names => exact ih (by simp)

end FsInode

open FsInode

/-! ## The directories of a path -/

theorem exec_fetch_one (query : FsInode → Option Row) : exec (fetch_one query) t =
    match query t with
    | some row => (.ok row, t)
    | none => (.error .RowNotFound, t) := by
  unfold fetch_one
  rw [exec_bind_ok (exec_asks query t)]
  cases query t <;> rfl

theorem exec_ensure_child_dir : exec (ensure_child_dir parent name) t =
    match t.child parent name with
    | some row => (.ok row.id, t)
    | none =>
      match t.row parent with
      | none => (.error .ForeignKeyViolation, t)
      | some _ => (.ok t.next, t.add (some parent) name 0 none) := by
  have hinsert : exec (insert_dir parent name) t = match t.child parent name with
      | some _ => (.ok none, t)
      | none =>
        match t.row parent with
        | none => (.error .ForeignKeyViolation, t)
        | some _ => (.ok (some t.next), t.add (some parent) name 0 none) := rfl
  unfold ensure_child_dir
  cases hchild : t.child parent name with
  | some row =>
    rw [hchild] at hinsert
    rw [exec_bind_ok hinsert]
    have hfetch : exec (fetch_one (·.child parent name)) t = (.ok row, t) := by
      rw [exec_fetch_one, hchild]
    exact exec_bind_ok hfetch
  | none =>
    rw [hchild] at hinsert
    cases hrow : t.row parent with
    | none =>
      rw [hrow] at hinsert
      exact exec_bind_error hinsert
    | some row =>
      rw [hrow] at hinsert
      exact exec_bind_ok hinsert

theorem exec_ensure_path_cons {root : InodeId} : exec (ensure_path root (name :: names)) t =
    match exec (ensure_child_dir root name) t with
    | (.ok id, t') => exec (ensure_path id names) t'
    | (.error e, t') => (.error e, t') := by
  unfold ensure_path
  rw [List.foldlM_cons, exec_bind]
  rcases exec (ensure_child_dir root name) t with ⟨_ | _, _⟩ <;> rfl

/-- Below a row with nothing in it, every name is made. -/
theorem exec_ensure_path_childless (h : t.Formed) (hrow : t.row parent = some row)
    (hnone : ¬ t.HasChild parent) : exec (ensure_path parent names) t =
      (.ok (t.add_path parent 0 none names).1, (t.add_path parent 0 none names).2) := by
  induction names generalizing t parent row with
  | nil => rfl
  | cons name names ih =>
    have hchild := child_eq_none_of_childless name hnone
    have h' := h.add_child 0 none hrow hchild
    rw [exec_ensure_path_cons, exec_ensure_child_dir, hchild, hrow]
    simp only
    rw [ih h' h'.row_next (h.next_childless_add hrow)]
    cases names <;> rfl

/-- The directories of a path: those that are there are passed, the names that are missing are
made, and where the inode that they are missing in is gone nothing is. -/
theorem exec_ensure_path (h : t.Formed) (hdeep : t.deepest current segments = (id, names)) :
    exec (ensure_path current segments) t =
      if names ≠ [] ∧ t.row id = none then (.error .ForeignKeyViolation, t)
      else (.ok (t.add_path id 0 none names).1, (t.add_path id 0 none names).2) := by
  induction segments generalizing current with
  | nil =>
    cases hdeep
    simp [ensure_path, add_path]
  | cons segment segments ih =>
    rw [exec_ensure_path_cons, exec_ensure_child_dir]
    rw [deepest] at hdeep
    cases hchild : t.child current segment with
    | some row =>
      rw [hchild] at hdeep
      exact ih hdeep
    | none =>
      rw [hchild] at hdeep
      obtain ⟨rfl, rfl⟩ := Prod.mk.inj hdeep
      cases hrow : t.row current with
      | none => simp
      | some row =>
        have h' := h.add_child 0 none hrow hchild
        simp only
        rw [exec_ensure_path_childless h' h'.row_next (h.next_childless_add hrow), if_neg (by simp)]
        cases segments <;> rfl

/-! ## The operations of a catalog -/

namespace PostgresInodeCatalog

variable {self : PostgresInodeCatalog} {path : String}

theorem exec_walk_from : exec (walk_from current segments) t =
    (.ok (if (t.deepest current segments).2 = [] then some (t.deepest current segments).1
      else none), t) := by
  induction segments generalizing current with
  | nil => rfl
  | cons segment segments ih =>
    rw [walk_from, exec_bind_ok (exec_asks _ t), deepest]
    cases t.child current segment with
    | some row => exact ih
    | none => rfl

theorem exec_load : exec (load id) t = match t.row id with
    | some row => (.ok (row_to_inode row), t)
    | none => (.error .RowNotFound, t) := by
  unfold load
  rw [exec_bind, exec_fetch_one]
  cases t.row id <;> rfl

theorem resolve_parent_empty (h : split_path path = []) : exec (self.resolve_parent path) t =
    (.error (.Bail "chemin vide : la racine du scope existe déjà"), t) := by
  unfold resolve_parent
  simp [h]

theorem resolve_parent_concat {leaf : String} (h : split_path path = segments ++ [leaf]) :
    self.resolve_parent path = (ensure_path self.root_id segments >>= fun current =>
      pure (current, leaf)) := by
  unfold resolve_parent ensure_path
  simp [h]

theorem exec_mkdir_empty (h : split_path path = []) : exec (self.mkdir path) t =
    (.error (.Bail "chemin vide : la racine du scope existe déjà"), t) := by
  unfold mkdir
  exact exec_bind_error (resolve_parent_empty h)

theorem exec_create_file_empty {key : Nat} (h : split_path path = []) :
    exec (self.create_file path key) t =
      (.error (.Bail "chemin vide : la racine du scope existe déjà"), t) := by
  unfold create_file
  exact exec_bind_error (resolve_parent_empty h)

/-- `mkdir` makes the directories of the whole path, the last name included. -/
theorem mkdir_eq (h : split_path path ≠ []) :
    self.mkdir path = ensure_path self.root_id (split_path path) >>= load := by
  obtain ⟨segments, leaf, hsplit⟩ := List.eq_nil_or_concat _ |>.resolve_left h
  rw [List.concat_eq_append] at hsplit
  unfold mkdir
  rw [resolve_parent_concat hsplit, hsplit]
  simp [ensure_path, List.foldlM_append]

/-- What `mkdir` does to the table, and what it loads. -/
theorem exec_mkdir (h : t.Formed) (hpath : split_path path ≠ [])
    (hdeep : t.deepest self.root_id (split_path path) = (id, names)) :
    exec (self.mkdir path) t =
      if names ≠ [] ∧ t.row id = none then (.error .ForeignKeyViolation, t)
      else exec (load (t.add_path id 0 none names).1) (t.add_path id 0 none names).2 := by
  rw [mkdir_eq hpath]
  have hensure := exec_ensure_path h hdeep
  split at hensure
  · rename_i hgone
    rw [if_pos hgone, exec_bind_error hensure]
  · rename_i hgone
    rw [if_neg hgone, exec_bind_ok hensure]

/-- `create_file` makes the directories of all names but the last one, and the file in them. -/
theorem create_file_eq {leaf : String} {key : Nat} (h : split_path path = segments ++ [leaf]) :
    self.create_file path key = ensure_path self.root_id segments >>= fun current =>
      upsert_file current leaf ("fs/" ++ display_id key) >>= fun row =>
        pure (row_to_inode row) := by
  unfold create_file
  rw [resolve_parent_concat h]
  simp

theorem exec_create_file {leaf : String} {key : Nat} (h : split_path path = segments ++ [leaf])
    {t' : FsInode} (hensure : exec (ensure_path self.root_id segments) t = (.ok parent, t')) :
    (exec (self.create_file path key) t).2 = match t'.child parent leaf with
      | some row => t'.overwrite row ("fs/" ++ display_id key)
      | none =>
        match t'.row parent with
        | none => t'
        | some _ => t'.add (some parent) leaf 1 (some ("fs/" ++ display_id key)) := by
  have hupsert : (exec (upsert_file parent leaf ("fs/" ++ display_id key)) t').2 =
      match t'.child parent leaf with
      | some row => t'.overwrite row ("fs/" ++ display_id key)
      | none =>
        match t'.row parent with
        | none => t'
        | some _ => t'.add (some parent) leaf 1 (some ("fs/" ++ display_id key)) := by
    change (match t'.child parent leaf with
      | some _ => _
      | none => _ : Except Error Row × FsInode).2 = _
    cases t'.child parent leaf with
    | some row => rfl
    | none => cases t'.row parent <;> rfl
  rw [create_file_eq h, exec_bind_ok hensure, exec_bind, ← hupsert]
  rcases exec (upsert_file parent leaf ("fs/" ++ display_id key)) t' with ⟨_ | _, _⟩ <;> rfl

/-- Where the path exists, the file takes the place of its row. -/
theorem create_file_over (key : Nat) (h : t.Formed) (hpath : split_path path ≠ [])
    (hdeep : t.deepest self.root_id (split_path path) = (id, [])) :
    ∃ row, t.row id = some row ∧
      (exec (self.create_file path key) t).2 = t.overwrite row ("fs/" ++ display_id key) := by
  obtain ⟨segments, leaf, hsplit⟩ := List.eq_nil_or_concat _ |>.resolve_left hpath
  rw [List.concat_eq_append] at hsplit
  rw [hsplit, deepest_append] at hdeep
  cases hfirst : t.deepest self.root_id segments with
  | mk found missing =>
    rw [hfirst] at hdeep
    cases missing with
    | cons name names => simp at hdeep
    | nil =>
      cases hchild : t.child found leaf with
      | none => simp [deepest, hchild] at hdeep
      | some row =>
        have hid : row.id = id := by simpa [deepest, hchild] using hdeep
        refine ⟨row, h.row_eq_some.mpr ⟨(h.child_eq_some.mp hchild).1, hid⟩, ?_⟩
        have hensure := exec_ensure_path h hfirst
        rw [if_neg (by simp)] at hensure
        rw [exec_create_file hsplit hensure]
        simp [add_path, hchild]

/-- Where names are missing, they are made with the file at their end. -/
theorem create_file_new (key : Nat) (h : t.Formed)
    (hdeep : t.deepest self.root_id (split_path path) = (id, name :: names)) :
    (exec (self.create_file path key) t).2 = if t.row id = none then t
      else (t.add_path id 1 (some ("fs/" ++ display_id key)) (name :: names)).2 := by
  have hpath : split_path path ≠ [] := by
    intro hempty
    simp [hempty, deepest] at hdeep
  obtain ⟨segments, leaf, hsplit⟩ := List.eq_nil_or_concat _ |>.resolve_left hpath
  rw [List.concat_eq_append] at hsplit
  have hnone := child_of_deepest hdeep
  rw [hsplit, deepest_append] at hdeep
  cases hfirst : t.deepest self.root_id segments with
  | mk found missing =>
    rw [hfirst] at hdeep
    have hensure := exec_ensure_path h hfirst
    cases missing with
    | nil =>
      -- the file alone is missing
      cases hchild : t.child found leaf with
      | some row => simp [deepest, hchild] at hdeep
      | none =>
        obtain ⟨rfl, rfl, rfl⟩ : found = id ∧ leaf = name ∧ [] = names := by
          simpa [deepest, hchild] using hdeep
        rw [if_neg (by simp)] at hensure
        rw [exec_create_file hsplit hensure]
        cases hrow : t.row found <;> simp [add_path, hchild, hrow]
    | cons first others =>
      obtain ⟨rfl, hnames⟩ : found = id ∧ first :: others ++ [leaf] = name :: names := by
        simpa using hdeep
      cases hrow : t.row found with
      | none =>
        rw [if_pos ⟨by simp, hrow⟩] at hensure
        rw [if_pos rfl, create_file_eq hsplit, exec_bind_error hensure]
      | some row =>
        rw [if_neg (by simp [hrow])] at hensure
        have hfree : t.child found first = none := by
          rw [List.cons_append] at hnames
          rwa [List.head_eq_of_cons_eq hnames]
        obtain ⟨last, hlast, -, -, hempty⟩ := h.last_of_add_path 0 none others hrow hfree
        rw [exec_create_file hsplit hensure, child_eq_none_of_childless leaf hempty, hlast,
          ← hnames, add_path_concat leaf (by simp), if_neg (by simp)]

end PostgresInodeCatalog

end marie.persistency
