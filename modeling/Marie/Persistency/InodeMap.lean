-- The table as a map from paths to inodes: what each statement of a catalog does to
-- the map, and that the ids which catalogs keep stay where they are.
import Marie.Persistency.InodePlaces

namespace marie.persistency

open Program FsInode PathMap

/-! ## The map -/

/-- An inode, but for its id. -/
structure Entry where
  kind : InodeKind
  object_key : Option String
  size : Nat
deriving DecidableEq

def Inode.entry (inode : Inode) : Entry := ⟨inode.kind, inode.object_key, inode.size⟩

def Entry.dir : Entry := ⟨.Dir, none, 0⟩

def Entry.file (object_key : String) : Entry := ⟨.File, some object_key, 0⟩

abbrev Tree := PathMap String Entry

/-- The key of a file. -/
def Entry.file_key (entry : Entry) : Option String :=
  if entry.kind = .File then entry.object_key else none

def Row.entry (row : Row) : Entry := (row_to_inode row).entry

theorem Row.file_key_entry {row : Row} {key : String} :
    row.entry.file_key = some key ↔ row.kind = 1 ∧ row.object_key = some key := by
  have hkind : row.entry.kind = .File ↔ row.kind = 1 := kind_eq_file
  unfold Entry.file_key
  by_cases h : row.kind = 1
  · rw [if_pos (hkind.mpr h)]
    simp [h, Row.entry, row_to_inode, Inode.entry]
  · rw [if_neg (mt hkind.mp h)]
    simp [h]

/-- The rows that are at a path are what the map has there. -/
structure Shows (t : FsInode) (m : Tree) : Prop where
  formed : t.Formed
  one_root : t.OneRoot
  entries : ∀ p entry, m p = some entry ↔ ∃ row, t.Place p row ∧ row.entry = entry

variable {t t' : FsInode} {m : Tree} {p q segments : List String} {row dir : Row}
  {id parent : InodeId} {name path : String} {kind : Nat} {key : Option String}

namespace Shows

theorem at_place (h : Shows t m) (hrow : t.Place p row) : m p = some row.entry :=
  (h.entries p _).mpr ⟨row, hrow, rfl⟩

theorem place_of_some (h : Shows t m) (hp : m p ≠ none) : ∃ row, t.Place p row := by
  obtain ⟨entry, hentry⟩ := Option.ne_none_iff_exists'.mp hp
  obtain ⟨row, hrow, -⟩ := (h.entries p entry).mp hentry
  exact ⟨row, hrow⟩

theorem ne_none (h : Shows t m) (hrow : t.Place p row) : m p ≠ none := by
  simp [h.at_place hrow]

theorem closed (h : Shows t m) : m.Closed := by
  intro p q hpq hq
  obtain ⟨row, hrow⟩ := h.place_of_some hq
  obtain ⟨above, habove⟩ := hrow.placed_above hpq
  exact h.ne_none habove

theorem row_of_place (h : Shows t m) (hrow : t.Place p row) : t.row row.id = some row :=
  h.formed.row_eq_some.mpr ⟨hrow.mem, rfl⟩

/-- A name is missing below a row where the map has nothing. -/
theorem child_eq_none_iff (h : Shows t m) (hdir : t.Place p dir) :
    t.child dir.id name = none ↔ m (p ++ [name]) = none := by
  rw [child_eq_none]
  constructor
  · intro hnone
    by_contra hsome
    obtain ⟨row, hrow⟩ := h.place_of_some hsome
    obtain ⟨dir', hdir', hmem, hparent, hname⟩ := place_concat_iff.mp hrow
    obtain rfl := hdir.row_eq h.formed h.one_root hdir'
    exact hnone row hmem hparent hname
  · rintro hnone row hmem hparent rfl
    exact h.ne_none (.child hdir hmem hparent) hnone

/-! ## What a statement does to the map -/

theorem add (h : Shows t m) (hdir : t.Place p dir) (hfree : m (p ++ [name]) = none) :
    Shows (t.add (some dir.id) name kind key)
      (m.put (p ++ [name]) (Row.entry ⟨t.next, some dir.id, name, kind, key, 0⟩)) := by
  have hchild := (h.child_eq_none_iff hdir).mpr hfree
  refine ⟨h.formed.add_child kind key (h.row_of_place hdir) hchild, h.one_root.add, ?_⟩
  intro q entry
  simp only [place_add h.formed hdir]
  by_cases hq : q = p ++ [name]
  · subst hq
    have hnone : ∀ row, ¬ t.Place (p ++ [name]) row := fun row hrow => h.ne_none hrow hfree
    simp [hnone]
  · rw [put_of_ne hq, h.entries]
    simp [hq]

theorem add_root (h : Shows t m) (hnone : t.root = none) :
    Shows (t.add none "" 0 none) (m.fill [] .dir) := by
  refine ⟨formed_add_root h.formed, oneRoot_add_root hnone, ?_⟩
  have hempty : ∀ p, m p = none := by
    intro p
    by_contra hp
    obtain ⟨row, hrow⟩ := h.place_of_some hp
    exact not_place_of_rootless hnone hrow
  intro q entry
  simp only [place_add_root h.formed hnone]
  by_cases hq : q = []
  · subst hq
    simp [fill_self, hempty, Row.entry, row_to_inode, Inode.entry, Entry.dir]
  · simp [fill, hq, hempty]

theorem overwrite {object_key : String} (h : Shows t m) (hdir : t.Place p dir) :
    Shows (t.overwrite dir object_key) (m.put p (.file object_key)) := by
  refine ⟨h.formed.overwrite hdir.mem, h.one_root.overwrite hdir.mem, ?_⟩
  intro q entry
  simp only [place_overwrite h.formed hdir]
  by_cases hq : q = p
  · subst hq
    rw [put_self]
    constructor
    · rintro ⟨⟩
      refine ⟨_, ⟨dir, hdir, if_pos rfl⟩, ?_⟩
      simp [Row.entry, row_to_inode, Inode.entry, Entry.file]
    · rintro ⟨_, ⟨old, hold, rfl⟩, rfl⟩
      rw [hold.row_eq h.formed h.one_root hdir, if_pos rfl]
      simp [Row.entry, row_to_inode, Inode.entry, Entry.file]
  · have hother : ∀ old, t.Place q old → old.id ≠ dir.id := by
      intro old hold hid
      obtain rfl := h.formed.ids old hold.mem dir hdir.mem hid
      exact hq (hold.path_eq h.formed hdir)
    rw [put_of_ne hq, h.entries]
    constructor
    · rintro ⟨row, hrow, hentry⟩
      exact ⟨row, ⟨row, hrow, if_neg (hother row hrow)⟩, hentry⟩
    · rintro ⟨_, ⟨old, hold, rfl⟩, hentry⟩
      rw [if_neg (hother old hold)] at hentry
      exact ⟨old, hold, hentry⟩

theorem cascade (h : Shows t m) (hdir : t.Place p dir) : Shows (t.cascade dir.id) (m.prune p) := by
  refine ⟨h.formed.cascade, h.one_root.anti fun row hrow => ((mem_cascade h.formed).mp hrow).1, ?_⟩
  intro q entry
  simp only [place_cascade h.formed h.one_root hdir]
  by_cases hq : p <+: q
  · simp [prune_below hq, hq]
  · simp [prune_beside hq, hq, h.entries]

end Shows

/-! ## A table that grew -/

/-- The rows that were at a path are still there, and no id that was given out comes back. -/
structure Grows (t t' : FsInode) : Prop where
  place : ∀ p row, t.Place p row → ∃ row', t'.Place p row' ∧ row'.id = row.id
  next : t.next ≤ t'.next
  gone : ∀ id < t.next, t.row id = none → t'.row id = none

theorem Grows.refl (t : FsInode) : Grows t t :=
  ⟨fun _ row hrow => ⟨row, hrow, rfl⟩, le_refl _, fun _ _ h => h⟩

theorem Grows.trans {t'' : FsInode} (h : Grows t t') (h' : Grows t' t'') : Grows t t'' := by
  refine ⟨?_, h.next.trans h'.next, ?_⟩
  · intro p row hrow
    obtain ⟨row', hrow', hid⟩ := h.place p row hrow
    obtain ⟨row'', hrow'', hid'⟩ := h'.place p row' hrow'
    exact ⟨row'', hrow'', hid'.trans hid⟩
  · intro id hlt hnone
    exact h'.gone id (hlt.trans_le h.next) (h.gone id hlt hnone)

theorem row_add_eq_none {parent_id : Option InodeId} (hlt : id < t.next) (hnone : t.row id = none) :
    (t.add parent_id name kind key).row id = none := by
  rw [row_eq_none] at hnone ⊢
  intro row hrow
  rcases mem_add.mp hrow with hold | rfl
  · exact hnone row hold
  · exact hlt.ne'

theorem Shows.grows_add (h : Shows t m) (hdir : t.Place p dir) :
    Grows t (t.add (some dir.id) name kind key) :=
  ⟨fun _ row hrow => ⟨row, (place_add h.formed hdir).mpr (.inl hrow), rfl⟩, Nat.le_succ _,
    fun _ => row_add_eq_none⟩

theorem grows_add_root (hnone : t.root = none) : Grows t (t.add none "" 0 none) :=
  ⟨fun _ _ hrow => absurd hrow (not_place_of_rootless hnone), Nat.le_succ _,
    fun _ => row_add_eq_none⟩

theorem Shows.grows_overwrite {object_key : String} (h : Shows t m) (hdir : t.Place p dir) :
    Grows t (t.overwrite dir object_key) := by
  refine ⟨?_, le_refl _, ?_⟩
  · intro q row hrow
    refine ⟨_, (place_overwrite h.formed hdir).mpr ⟨row, hrow, rfl⟩, ?_⟩
    split <;> simp_all
  · intro id _ hnone
    rw [row_eq_none] at hnone ⊢
    intro row hrow
    rcases (mem_overwrite hdir.mem).mp hrow with ⟨hold, -⟩ | rfl
    · exact hnone row hold
    · exact hnone dir hdir.mem

/-! ## The statements -/

/-- A directory below a row, made if it is missing. -/
theorem Shows.exec_ensure_child_dir (h : Shows t m) (hdir : t.Place p dir) (name : String) :
    ∃ t' row, exec (ensure_child_dir dir.id name) t = (.ok row.id, t') ∧
      Shows t' (m.fill (p ++ [name]) .dir) ∧ t'.Place (p ++ [name]) row ∧ Grows t t' := by
  rw [marie.persistency.exec_ensure_child_dir]
  cases hchild : t.child dir.id name with
  | some row =>
    obtain ⟨hmem, hparent, rfl⟩ := h.formed.child_eq_some.mp hchild
    have hrow : t.Place (p ++ [row.name]) row := .child hdir hmem hparent
    refine ⟨t, row, rfl, ?_, hrow, .refl t⟩
    rwa [fill_eq_self h.closed (h.ne_none hrow)]
  | none =>
    have hfree := (h.child_eq_none_iff hdir).mp hchild
    rw [h.row_of_place hdir]
    refine ⟨_, ⟨t.next, some dir.id, name, 0, none, 0⟩, rfl, ?_, ?_, h.grows_add hdir⟩
    · rw [fill_concat h.closed (h.ne_none hdir) hfree]
      exact h.add hdir hfree
    · exact (place_add h.formed hdir).mpr (.inr ⟨rfl, rfl⟩)

/-- The directories of a path below a row. -/
theorem Shows.exec_ensure_path (h : Shows t m) (hdir : t.Place p dir) (segments : List String) :
    ∃ t' row, exec (ensure_path dir.id segments) t = (.ok row.id, t') ∧
      Shows t' (m.fill (p ++ segments) .dir) ∧ t'.Place (p ++ segments) row ∧ Grows t t' := by
  induction segments generalizing t m p dir with
  | nil =>
    refine ⟨t, dir, rfl, ?_, by simpa using hdir, .refl t⟩
    rwa [List.append_nil, fill_eq_self h.closed (h.ne_none hdir)]
  | cons name segments ih =>
    obtain ⟨t1, child, hexec, hshows, hchild, hgrows⟩ := h.exec_ensure_child_dir hdir name
    obtain ⟨t', row, hexec', hshows', hrow, hgrows'⟩ := ih hshows hchild
    rw [← List.append_cons] at hshows' hrow
    rw [fill_fill ⟨segments, by simp⟩] at hshows'
    refine ⟨t', row, ?_, hshows', hrow, hgrows.trans hgrows'⟩
    rw [exec_ensure_path_cons, hexec]
    exact hexec'

/-- A file below a row, in the place of what was there. -/
theorem Shows.exec_upsert_file (h : Shows t m) (hdir : t.Place p dir) (leaf object_key : String) :
    ∃ t' row, exec (upsert_file dir.id leaf object_key) t = (.ok row, t') ∧
      row.entry = .file object_key ∧ Shows t' (m.put (p ++ [leaf]) (.file object_key)) ∧
      Grows t t' := by
  unfold upsert_file exec
  cases hchild : t.child dir.id leaf with
  | some row =>
    obtain ⟨hmem, hparent, rfl⟩ := h.formed.child_eq_some.mp hchild
    have hrow : t.Place (p ++ [row.name]) row := .child hdir hmem hparent
    simp only [ExceptT.run_mk, StateT.run, hchild]
    exact ⟨_, _, rfl, rfl, h.overwrite hrow, h.grows_overwrite hrow⟩
  | none =>
    have hfree := (h.child_eq_none_iff hdir).mp hchild
    simp only [ExceptT.run_mk, StateT.run, hchild, h.row_of_place hdir]
    exact ⟨_, _, rfl, rfl, h.add hdir hfree, h.grows_add hdir⟩

/-- The root of the table, made if it is missing. -/
theorem Shows.exec_ensure_global_root (h : Shows t m) : ∃ t' row,
    exec ensure_global_root t = (.ok row.id, t') ∧ Shows t' (m.fill [] .dir) ∧ t'.Place [] row ∧
      Grows t t' := by
  rw [marie.persistency.exec_ensure_global_root]
  cases hroot : t.root with
  | some row =>
    have hnone : row.parent_id = none := by
      simpa using List.find?_some hroot
    have hrow : t.Place [] row := .root (List.mem_of_find?_eq_some hroot) hnone
    refine ⟨t, row, rfl, ?_, hrow, .refl t⟩
    rwa [fill_eq_self h.closed (h.ne_none hrow)]
  | none =>
    refine ⟨_, ⟨t.next, none, "", 0, none, 0⟩, rfl, h.add_root hroot, ?_, grows_add_root hroot⟩
    exact (place_add_root h.formed hroot).mpr ⟨rfl, rfl⟩

/-- A catalog is opened at its path. -/
theorem Shows.exec_open_at (h : Shows t m) (segments : List String) : ∃ t' row,
    exec (open_at segments) t = (.ok ⟨row.id⟩, t') ∧ Shows t' (m.fill segments .dir) ∧
      t'.Place segments row ∧ Grows t t' := by
  obtain ⟨t1, root, hexec, hshows, hroot, hgrows⟩ := h.exec_ensure_global_root
  obtain ⟨t', row, hexec', hshows', hrow, hgrows'⟩ := hshows.exec_ensure_path hroot segments
  rw [List.nil_append] at hshows' hrow
  rw [fill_fill List.nil_prefix] at hshows'
  refine ⟨t', row, ?_, hshows', hrow, hgrows.trans hgrows'⟩
  unfold open_at
  rw [exec_bind_ok hexec, exec_bind_ok hexec']
  rfl

end marie.persistency
