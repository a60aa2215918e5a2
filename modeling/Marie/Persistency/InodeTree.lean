-- The rows of `fs_inode` as a tree: what the constraints of the table keep, and
-- what a new row, a file in the place of a row and a cascade make of it.
import Marie.Persistency.Inode

namespace marie.persistency

open Levels Relation

namespace FsInode

variable {t t' : FsInode} {id parent current : InodeId} {row : Row} {name : String} {kind : Nat}
  {key : Option String} {names segments : List String}

/-- The constraints: the primary key, the foreign key and `UNIQUE (parent_id, name)`. A row is
newer than its parent. -/
structure Formed (t : FsInode) : Prop where
  fresh : ∀ row ∈ t.rows, row.id < t.next
  ids : ∀ row ∈ t.rows, ∀ other ∈ t.rows, row.id = other.id → row = other
  parents : ∀ row ∈ t.rows, ∀ parent, row.parent_id = some parent →
    parent < row.id ∧ ∃ dir ∈ t.rows, dir.id = parent
  names : ∀ row ∈ t.rows, ∀ other ∈ t.rows, ∀ parent, row.parent_id = some parent →
    other.parent_id = some parent → row.name = other.name → row = other

def IsFile (t : FsInode) (id : InodeId) : Prop :=
  ∃ row ∈ t.rows, row.id = id ∧ (row_to_inode row).kind = .File

def HasChild (t : FsInode) (id : InodeId) : Prop := ∃ row ∈ t.rows, row.parent_id = some id

/-- No inode is in a file. -/
def OnlyDirs (t : FsInode) : Prop := ∀ id, t.HasChild id → ¬ t.IsFile id

/-- `descendant` is `id` or is somewhere under it. -/
def Below (t : FsInode) (id descendant : InodeId) : Prop :=
  ReflTransGen (fun a b => ∃ row ∈ t.rows, row.id = b ∧ row.parent_id = some a) id descendant

@[simp] theorem kind_eq_file : (row_to_inode row).kind = .File ↔ row.kind = 1 := by
  unfold row_to_inode
  split <;> simp_all

@[simp] theorem kind_eq_dir : (row_to_inode row).kind = .Dir ↔ row.kind ≠ 1 := by
  unfold row_to_inode
  split <;> simp_all

/-! ## The lookups -/

theorem row_eq_none : t.row id = none ↔ ∀ row ∈ t.rows, row.id ≠ id := by
  simp [FsInode.row]

theorem Formed.row_eq_some (h : t.Formed) : t.row id = some row ↔ row ∈ t.rows ∧ row.id = id := by
  constructor
  · intro hrow
    exact ⟨List.mem_of_find?_eq_some hrow, by simpa using List.find?_some hrow⟩
  · rintro ⟨hmem, rfl⟩
    cases hfound : t.row row.id with
    | none => exact absurd rfl (row_eq_none.mp hfound row hmem)
    | some other =>
      have hid : other.id = row.id := by simpa using List.find?_some hfound
      rw [h.ids other (List.mem_of_find?_eq_some hfound) row hmem hid]

theorem child_eq_none :
    t.child parent name = none ↔ ∀ row ∈ t.rows, row.parent_id = some parent → row.name ≠ name := by
  simp [FsInode.child]

theorem Formed.child_eq_some (h : t.Formed) : t.child parent name = some row ↔
    row ∈ t.rows ∧ row.parent_id = some parent ∧ row.name = name := by
  constructor
  · intro hrow
    exact ⟨List.mem_of_find?_eq_some hrow, by simpa using List.find?_some hrow⟩
  · rintro ⟨hmem, hparent, rfl⟩
    cases hfound : t.child parent row.name with
    | none => exact absurd rfl (child_eq_none.mp hfound row hmem hparent)
    | some other =>
      have hother : other.parent_id = some parent ∧ other.name = row.name := by
        simpa using List.find?_some hfound
      rw [h.names other (List.mem_of_find?_eq_some hfound) row hmem parent hother.1 hparent
        hother.2]

theorem child_eq_none_of_childless (name : String) (h : ¬ t.HasChild parent) :
    t.child parent name = none := by
  apply child_eq_none.mpr
  intro row hrow hparent
  exact absurd ⟨row, hrow, hparent⟩ h

/-- A row that points to `parent` is under an inode of the table. -/
theorem Formed.row_of_hasChild (h : t.Formed) (hchild : t.HasChild id) :
    ∃ dir, t.row id = some dir := by
  obtain ⟨row, hrow, hparent⟩ := hchild
  obtain ⟨-, dir, hdir, hid⟩ := h.parents row hrow id hparent
  exact ⟨dir, h.row_eq_some.mpr ⟨hdir, hid⟩⟩

theorem Formed.lt_next (h : t.Formed) (hrow : t.row id = some row) : id < t.next := by
  obtain ⟨hmem, rfl⟩ := h.row_eq_some.mp hrow
  exact h.fresh row hmem

/-- The next id has no row, and no row under it. -/
theorem Formed.next_childless (h : t.Formed) : ¬ t.HasChild t.next := by
  intro hchild
  obtain ⟨dir, hdir⟩ := h.row_of_hasChild hchild
  exact absurd (h.lt_next hdir) (lt_irrefl _)

/-! ## A table that lost rows -/

theorem IsFile.mono (hsub : ∀ row ∈ t.rows, row ∈ t'.rows) (h : t.IsFile id) : t'.IsFile id := by
  obtain ⟨row, hrow, hfile⟩ := h
  exact ⟨row, hsub row hrow, hfile⟩

theorem HasChild.mono (hsub : ∀ row ∈ t.rows, row ∈ t'.rows) (h : t.HasChild id) :
    t'.HasChild id := by
  obtain ⟨row, hrow, hparent⟩ := h
  exact ⟨row, hsub row hrow, hparent⟩

theorem OnlyDirs.anti (hsub : ∀ row ∈ t.rows, row ∈ t'.rows) (h : t'.OnlyDirs) : t.OnlyDirs := by
  intro id hchild hfile
  exact h id (hchild.mono hsub) (hfile.mono hsub)

/-! ## A new row -/

theorem formed_empty : empty.Formed := by
  constructor <;> simp [empty]

@[simp] theorem mem_add {parent_id : Option InodeId} : row ∈ (t.add parent_id name kind key).rows ↔
    row ∈ t.rows ∨ row = ⟨t.next, parent_id, name, kind, key, 0⟩ := by
  simp [add]

theorem Formed.add {parent_id : Option InodeId} (h : t.Formed)
    (hparent : ∀ parent, parent_id = some parent →
      (∃ dir, t.row parent = some dir) ∧ t.child parent name = none) :
    (t.add parent_id name kind key).Formed := by
  constructor
  · intro row hrow
    rcases mem_add.mp hrow with hold | rfl
    · exact Nat.lt_succ_of_lt (h.fresh row hold)
    · exact Nat.lt_succ_self t.next
  · intro row hrow other hother hid
    rcases mem_add.mp hrow with hold | rfl <;> rcases mem_add.mp hother with hold' | rfl
    · exact h.ids row hold other hold' hid
    · exact absurd (h.fresh row hold) (by simp [hid])
    · exact absurd (h.fresh other hold') (by simp [← hid])
    · rfl
  · intro row hrow parent hp
    rcases mem_add.mp hrow with hold | rfl
    · obtain ⟨hlt, dir, hdir, hid⟩ := h.parents row hold parent hp
      exact ⟨hlt, dir, mem_add.mpr (.inl hdir), hid⟩
    · obtain ⟨⟨dir, hdir⟩, -⟩ := hparent parent hp
      obtain ⟨hmem, hid⟩ := h.row_eq_some.mp hdir
      exact ⟨h.lt_next hdir, dir, mem_add.mpr (.inl hmem), hid⟩
  · intro row hrow other hother parent hp hp' hname
    rcases mem_add.mp hrow with hold | rfl <;> rcases mem_add.mp hother with hold' | rfl
    · exact h.names row hold other hold' parent hp hp' hname
    · exact absurd hname (child_eq_none.mp (hparent parent hp').2 row hold hp)
    · exact absurd hname.symm (child_eq_none.mp (hparent parent hp).2 other hold' hp')
    · rfl

theorem isFile_add {parent_id : Option InodeId} :
    (t.add parent_id name kind key).IsFile id ↔ t.IsFile id ∨ (id = t.next ∧ kind = 1) := by
  simp only [IsFile, mem_add, kind_eq_file]
  constructor
  · rintro ⟨row, hold | rfl, hid, hkind⟩
    · exact .inl ⟨row, hold, hid, hkind⟩
    · exact .inr ⟨hid.symm, hkind⟩
  · rintro (⟨row, hold, hfile⟩ | ⟨rfl, rfl⟩)
    · exact ⟨row, .inl hold, hfile⟩
    · exact ⟨_, .inr rfl, rfl, rfl⟩

theorem hasChild_add {parent_id : Option InodeId} :
    (t.add parent_id name kind key).HasChild id ↔ t.HasChild id ∨ parent_id = some id := by
  simp only [HasChild, mem_add]
  constructor
  · rintro ⟨row, hold | rfl, hparent⟩
    · exact .inl ⟨row, hold, hparent⟩
    · exact .inr hparent
  · rintro (⟨row, hold, hparent⟩ | rfl)
    · exact ⟨row, .inl hold, hparent⟩
    · exact ⟨_, .inr rfl, rfl⟩

theorem Formed.next_childless_add (h : t.Formed) (hrow : t.row parent = some row) :
    ¬ (t.add (some parent) name kind key).HasChild t.next := by
  intro hchild
  rcases hasChild_add.mp hchild with hold | heq
  · exact h.next_childless hold
  · exact absurd (h.lt_next hrow) (by simp [Option.some.inj heq])

/-- A new row leaves directories only, but under a file. -/
theorem onlyDirs_add (name : String) (kind : Nat) (key : Option String) (h : t.Formed)
    (honly : t.OnlyDirs) (hrow : t.row parent = some row) :
    (t.add (some parent) name kind key).OnlyDirs ↔ ¬ t.IsFile parent := by
  constructor
  · intro honly' hfile
    exact honly' parent (hasChild_add.mpr (.inr rfl)) (isFile_add.mpr (.inl hfile))
  · intro hdir id hchild hfile
    rcases isFile_add.mp hfile with hfile | ⟨rfl, -⟩
    · rcases hasChild_add.mp hchild with hchild | heq
      · exact honly id hchild hfile
      · exact hdir (Option.some.inj heq ▸ hfile)
    · exact h.next_childless_add hrow hchild

/-! ## A file in the place of a row -/

/-- The row `id` as a new file. -/
def overwrite (t : FsInode) (row : Row) (object_key : String) : FsInode :=
  let file : Row := { row with kind := 1, object_key := some object_key, size := 0 }
  { t with rows := t.rows.map fun other => if other.id = row.id then file else other }

/-- The rows that were not overwritten stand as they were. -/
theorem mem_overwrite {object_key : String} {other : Row} (hrow : row ∈ t.rows) :
    other ∈ (t.overwrite row object_key).rows ↔ (other ∈ t.rows ∧ other.id ≠ row.id) ∨
      other = { row with kind := 1, object_key := some object_key, size := 0 } := by
  simp only [overwrite, List.mem_map]
  constructor
  · rintro ⟨old, hold, rfl⟩
    split
    · exact .inr rfl
    · exact .inl ⟨hold, by assumption⟩
  · rintro (⟨hold, hne⟩ | rfl)
    · exact ⟨other, hold, if_neg hne⟩
    · exact ⟨row, hrow, if_pos rfl⟩

theorem Formed.overwrite {object_key : String} (h : t.Formed) (hrow : row ∈ t.rows) :
    (t.overwrite row object_key).Formed := by
  -- a row has its id, its parent and its name from the row in its place
  have hold : ∀ other ∈ (t.overwrite row object_key).rows, ∃ old ∈ t.rows, old.id = other.id ∧
      old.parent_id = other.parent_id ∧ old.name = other.name := by
    intro other hother
    rcases (mem_overwrite hrow).mp hother with ⟨hold, -⟩ | rfl
    · exact ⟨other, hold, rfl, rfl, rfl⟩
    · exact ⟨row, hrow, rfl, rfl, rfl⟩
  have hids : ∀ x ∈ (t.overwrite row object_key).rows, ∀ y ∈ (t.overwrite row object_key).rows,
      x.id = y.id → x = y := by
    intro x hx y hy hid
    rcases (mem_overwrite hrow).mp hx with ⟨hx, hne⟩ | rfl <;>
      rcases (mem_overwrite hrow).mp hy with ⟨hy, hne'⟩ | rfl
    · exact h.ids x hx y hy hid
    · exact absurd hid hne
    · exact absurd hid.symm hne'
    · rfl
  constructor
  · intro other hother
    obtain ⟨old, hmem, hid, -⟩ := hold other hother
    rw [← hid]
    exact h.fresh old hmem
  · exact hids
  · intro other hother parent hparent
    obtain ⟨old, hmem, hid, hp, -⟩ := hold other hother
    obtain ⟨hlt, dir, hdir, hdirid⟩ := h.parents old hmem parent (hp.trans hparent)
    refine ⟨hid ▸ hlt, ?_⟩
    by_cases heq : dir.id = row.id
    · exact ⟨_, (mem_overwrite hrow).mpr (.inr rfl), heq.symm.trans hdirid⟩
    · exact ⟨dir, (mem_overwrite hrow).mpr (.inl ⟨hdir, heq⟩), hdirid⟩
  · intro x hx y hy parent hp hp' hname
    obtain ⟨old, hmem, hid, hparent, hold_name⟩ := hold x hx
    obtain ⟨old', hmem', hid', hparent', hold_name'⟩ := hold y hy
    apply hids x hx y hy
    rw [← hid, ← hid', h.names old hmem old' hmem' parent (hparent.trans hp) (hparent'.trans hp')
      (by rw [hold_name, hold_name', hname])]

theorem isFile_overwrite {object_key : String} (hrow : row ∈ t.rows) :
    (t.overwrite row object_key).IsFile id ↔ t.IsFile id ∨ id = row.id := by
  constructor
  · rintro ⟨other, hother, rfl, hfile⟩
    rcases (mem_overwrite hrow).mp hother with ⟨hold, -⟩ | rfl
    · exact .inl ⟨other, hold, rfl, hfile⟩
    · exact .inr rfl
  · intro h
    by_cases heq : id = row.id
    · exact ⟨_, (mem_overwrite hrow).mpr (.inr rfl), heq.symm, by simp⟩
    · obtain ⟨other, hother, rfl, hfile⟩ := h.resolve_right heq
      exact ⟨other, (mem_overwrite hrow).mpr (.inl ⟨hother, heq⟩), rfl, hfile⟩

theorem hasChild_overwrite {object_key : String} (h : t.Formed) (hrow : row ∈ t.rows) :
    (t.overwrite row object_key).HasChild id ↔ t.HasChild id := by
  constructor
  · rintro ⟨other, hother, hparent⟩
    rcases (mem_overwrite hrow).mp hother with ⟨hold, -⟩ | rfl
    · exact ⟨other, hold, hparent⟩
    · exact ⟨row, hrow, hparent⟩
  · rintro ⟨other, hother, hparent⟩
    by_cases heq : other.id = row.id
    · rw [h.ids other hother row hrow heq] at hparent
      exact ⟨_, (mem_overwrite hrow).mpr (.inr rfl), hparent⟩
    · exact ⟨other, (mem_overwrite hrow).mpr (.inl ⟨hother, heq⟩), hparent⟩

/-- A file in the place of a row leaves directories only where there is nothing in that row. -/
theorem onlyDirs_overwrite {object_key : String} (h : t.Formed) (honly : t.OnlyDirs)
    (hrow : row ∈ t.rows) : (t.overwrite row object_key).OnlyDirs ↔ ¬ t.HasChild row.id := by
  constructor
  · intro honly' hchild
    exact honly' row.id ((hasChild_overwrite h hrow).mpr hchild)
      ((isFile_overwrite hrow).mpr (.inr rfl))
  · intro hnone id hchild hfile
    have hchild := (hasChild_overwrite h hrow).mp hchild
    rcases (isFile_overwrite hrow).mp hfile with hfile | rfl
    · exact honly id hchild hfile
    · exact hnone hchild

/-! ## A cascade -/

/-- The recursive query finds the rows that are below the id. -/
theorem mem_subtree (h : t.Formed) : row ∈ t.subtree id ↔ row ∈ t.rows ∧ t.Below id row.id := by
  have hgrow : ∀ x : Row, ∀ y ∈ t.rows.filter (·.parent_id = some x.id),
      x.id < y.id ∧ y.id < t.next := by
    intro x y hy
    obtain ⟨hmem, hparent⟩ := List.mem_filter.mp hy
    exact ⟨(h.parents y hmem x.id (by simpa using hparent)).1, h.fresh y hmem⟩
  have hlevel : ∀ first ∈ t.rows.filter (·.id = id),
      first.id < t.next ∧ t.next ≤ first.id + t.next := by
    intro first hfirst
    exact ⟨h.fresh first (List.mem_of_mem_filter hfirst), Nat.le_add_left _ _⟩
  rw [subtree, mem_levels Row.id hgrow t.next _ hlevel]
  constructor
  · rintro ⟨first, hfirst, hreach⟩
    obtain ⟨hmem, hid⟩ := List.mem_filter.mp hfirst
    have hid : first.id = id := by simpa using hid
    induction hreach with
    | refl => exact ⟨hmem, hid ▸ .refl⟩
    | tail _ hstep ih =>
      obtain ⟨hrow, hparent⟩ := List.mem_filter.mp hstep
      exact ⟨hrow, ih.2.tail ⟨_, hrow, rfl, by simpa using hparent⟩⟩
  · rintro ⟨hrow, hbelow⟩
    generalize hdesc : row.id = descendant at hbelow
    induction hbelow generalizing row with
    | refl => exact ⟨row, List.mem_filter.mpr ⟨hrow, by simpa using hdesc⟩, .refl⟩
    | tail _ hstep ih =>
      obtain ⟨other, hother, hid, hparent⟩ := hstep
      rw [h.ids row hrow other hother (hdesc.trans hid.symm)]
      -- the parent has a row of its own, which the query found before
      obtain ⟨-, dir, hdir, hdirid⟩ := h.parents other hother _ hparent
      refine Reached.next (ih hdir hdirid) ?_
      exact List.mem_filter.mpr ⟨hother, by simpa [hdirid] using hparent⟩

/-- The table without the rows below the id. -/
def cascade (t : FsInode) (id : InodeId) : FsInode :=
  { t with rows := t.rows.filter (· ∉ t.subtree id) }

theorem mem_cascade (h : t.Formed) :
    row ∈ (t.cascade id).rows ↔ row ∈ t.rows ∧ ¬ t.Below id row.id := by
  simp only [cascade, List.mem_filter, decide_eq_true_eq, mem_subtree h]
  tauto

theorem Formed.cascade (h : t.Formed) : (t.cascade id).Formed := by
  have hsub : ∀ row ∈ (t.cascade id).rows, row ∈ t.rows :=
    fun row hrow => ((mem_cascade h).mp hrow).1
  constructor
  · intro row hrow
    exact h.fresh row (hsub row hrow)
  · intro row hrow other hother
    exact h.ids row (hsub row hrow) other (hsub other hother)
  · intro row hrow parent hparent
    obtain ⟨hmem, hbelow⟩ := (mem_cascade h).mp hrow
    obtain ⟨hlt, dir, hdir, rfl⟩ := h.parents row hmem parent hparent
    refine ⟨hlt, dir, (mem_cascade h).mpr ⟨hdir, ?_⟩, rfl⟩
    intro hdirbelow
    exact hbelow (hdirbelow.tail ⟨row, hmem, rfl, hparent⟩)
  · intro row hrow other hother
    exact h.names row (hsub row hrow) other (hsub other hother)

end FsInode

end marie.persistency
