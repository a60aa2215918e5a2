-- Where a row is: its path from the root of the table. Each row is at one path,
-- and what a statement does to the rows is said of the paths.
import Marie.Lib.PathMap
import Marie.Persistency.InodeCalls

namespace marie.persistency.FsInode

open Program Relation

variable {t t' : FsInode} {id parent : InodeId} {row other dir : Row} {p q : List String}
  {name : String} {kind : Nat} {key : Option String} {segments : List String}

/-- The row is at the path. -/
inductive Place (t : FsInode) : List String → Row → Prop
  | root {row : Row} : row ∈ t.rows → row.parent_id = none → Place t [] row
  | child {p : List String} {dir row : Row} : Place t p dir → row ∈ t.rows →
      row.parent_id = some dir.id → Place t (p ++ [row.name]) row

/-- `fs_inode_root_idx`. -/
def OneRoot (t : FsInode) : Prop :=
  ∀ row ∈ t.rows, ∀ other ∈ t.rows, row.parent_id = none → other.parent_id = none → row = other

theorem Place.mem (h : t.Place p row) : row ∈ t.rows := by
  cases h <;> assumption

theorem place_nil_iff : t.Place [] row ↔ row ∈ t.rows ∧ row.parent_id = none := by
  constructor
  · intro h
    generalize hpath : ([] : List String) = path at h
    cases h with
    | root hmem hnone => exact ⟨hmem, hnone⟩
    | child => simp at hpath
  · rintro ⟨hmem, hnone⟩
    exact .root hmem hnone

theorem place_concat_iff : t.Place (p ++ [name]) row ↔
    ∃ dir, t.Place p dir ∧ row ∈ t.rows ∧ row.parent_id = some dir.id ∧ row.name = name := by
  constructor
  · intro h
    generalize hpath : p ++ [name] = path at h
    cases h with
    | root => simp at hpath
    | child hdir hmem hparent =>
      obtain ⟨rfl, hname⟩ := List.append_inj' hpath rfl
      exact ⟨_, hdir, hmem, hparent, by simpa using hname.symm⟩
  · rintro ⟨dir, hdir, hmem, hparent, rfl⟩
    exact .child hdir hmem hparent

/-- Without a root nothing is at a path. -/
theorem not_place_of_rootless (h : t.root = none) : ¬ t.Place p row := by
  have hrootless : ∀ row ∈ t.rows, row.parent_id ≠ none := by
    simpa [FsInode.root] using h
  intro hplace
  induction hplace with
  | root hmem hnone => exact hrootless _ hmem hnone
  | child _ _ _ ih => exact ih

/-- Every row is at a path, since its parent is older than it is. -/
theorem Formed.placed (h : t.Formed) (hrow : row ∈ t.rows) : ∃ p, t.Place p row := by
  induction hid : row.id using Nat.strongRecOn generalizing row with
  | ind id ih =>
    cases hparent : row.parent_id with
    | none => exact ⟨[], .root hrow hparent⟩
    | some parent =>
      obtain ⟨hlt, dir, hdir, rfl⟩ := h.parents row hrow parent hparent
      obtain ⟨p, hp⟩ := ih dir.id (hid ▸ hlt) hdir rfl
      exact ⟨_, .child hp hrow hparent⟩

/-- A row is at one path. -/
theorem Place.path_eq (h : t.Formed) (hp : t.Place p row) (hq : t.Place q row) : p = q := by
  induction hp generalizing q with
  | root hmem hroot =>
    cases hq with
    | root => rfl
    | child hdir hmem' hparent => simp [hroot] at hparent
  | @child p dir row hdir hmem hparent ih =>
    cases hq with
    | root hmem' hroot => simp [hparent] at hroot
    | @child q dir' _ hdir' hmem' hparent' =>
      have hid : dir.id = dir'.id := Option.some.inj (hparent.symm.trans hparent')
      obtain rfl := h.ids dir hdir.mem dir' hdir'.mem hid
      rw [ih hdir']

/-- At a path there is one row. -/
theorem Place.row_eq (h : t.Formed) (hroot : t.OneRoot) (hp : t.Place p row)
    (hq : t.Place p other) : row = other := by
  induction hp generalizing other with
  | root hmem hnone =>
    obtain ⟨hmem', hnone'⟩ := place_nil_iff.mp hq
    exact hroot _ hmem _ hmem' hnone hnone'
  | child hdir hmem hparent ih =>
    obtain ⟨dir', hdir', hmem', hparent', hname⟩ := place_concat_iff.mp hq
    obtain rfl := ih hdir'
    exact h.names _ hmem _ hmem' _ hparent hparent' hname.symm

/-- The paths above that of a row have rows. -/
theorem Place.placed_above (hq : t.Place q row) (hpq : p <+: q) : ∃ dir, t.Place p dir := by
  induction hq with
  | root hmem hroot =>
    rw [List.prefix_nil.mp hpq]
    exact ⟨_, .root hmem hroot⟩
  | child hdir hmem hparent ih =>
    rcases List.prefix_concat_iff.mp hpq with rfl | hpq
    · exact ⟨_, .child hdir hmem hparent⟩
    · exact ih hpq

/-- A walk from a row goes down the path of the row. -/
theorem Place.deepest_iff (h : t.Formed) (hroot : t.OneRoot) (hdir : t.Place p dir) :
    t.deepest dir.id segments = (id, []) ↔ ∃ row, t.Place (p ++ segments) row ∧ row.id = id := by
  induction segments generalizing p dir with
  | nil =>
    rw [List.append_nil, deepest, Prod.mk.injEq, and_iff_left rfl]
    constructor
    · intro hid
      exact ⟨dir, hdir, hid⟩
    · rintro ⟨row, hrow, hid⟩
      rw [hdir.row_eq h hroot hrow, hid]
  | cons segment segments ih =>
    rw [deepest, List.append_cons]
    cases hchild : t.child dir.id segment with
    | some child =>
      obtain ⟨hmem, hparent, rfl⟩ := h.child_eq_some.mp hchild
      exact ih (.child hdir hmem hparent)
    | none =>
      simp only [Prod.mk.injEq, reduceCtorEq, and_false, false_iff]
      rintro ⟨row, hrow, -⟩
      obtain ⟨child, hplace⟩ := hrow.placed_above (List.prefix_append _ _)
      obtain ⟨dir', hdir', hmem, hparent, hname⟩ := place_concat_iff.mp hplace
      obtain rfl := hdir.row_eq h hroot hdir'
      exact child_eq_none.mp hchild child hmem hparent hname

/-- What is below a row is at a path below that of the row. -/
theorem Place.of_below (h : t.Formed) (hdir : t.Place p dir) (hmem : row ∈ t.rows)
    (hbelow : t.Below dir.id row.id) : ∃ rest, t.Place (p ++ rest) row := by
  suffices hdown : ∃ rest row', t.Place (p ++ rest) row' ∧ row'.id = row.id by
    obtain ⟨rest, row', hplace, hid⟩ := hdown
    obtain rfl := h.ids row' hplace.mem row hmem hid
    exact ⟨rest, hplace⟩
  generalize row.id = descendant at hbelow
  induction hbelow with
  | refl => exact ⟨[], dir, by simpa using hdir, rfl⟩
  | tail _ hstep ih =>
    obtain ⟨rest, above, hplace, rfl⟩ := ih
    obtain ⟨next, hmem, hid, hparent⟩ := hstep
    refine ⟨rest ++ [next.name], next, ?_, hid⟩
    rw [← List.append_assoc]
    exact .child hplace hmem hparent

theorem Place.below_iff (h : t.Formed) (hroot : t.OneRoot) (hdir : t.Place p dir)
    (hrow : t.Place q row) : t.Below dir.id row.id ↔ p <+: q := by
  constructor
  · intro hbelow
    obtain ⟨rest, hplace⟩ := hdir.of_below h hrow.mem hbelow
    exact ⟨rest, hplace.path_eq h hrow⟩
  · intro hbelow
    induction hrow with
    | root hmem hnone =>
      obtain rfl := List.prefix_nil.mp hbelow
      rw [hdir.row_eq h hroot (.root hmem hnone)]
      exact .refl
    | child hdir' hmem hparent ih =>
      rcases List.prefix_concat_iff.mp hbelow with rfl | hbelow
      · rw [hdir.row_eq h hroot (.child hdir' hmem hparent)]
        exact .refl
      · exact (ih hbelow).tail ⟨_, hmem, rfl, hparent⟩

/-! ## What a statement does -/

/-- A new row below a row that has no child of its name. -/
theorem place_add (h : t.Formed) (hdir : t.Place p dir) :
    (t.add (some dir.id) name kind key).Place q row ↔
      t.Place q row ∨ q = p ++ [name] ∧ row = ⟨t.next, some dir.id, name, kind, key, 0⟩ := by
  constructor
  · intro hplace
    induction hplace with
    | root hmem hnone =>
      rcases mem_add.mp hmem with hold | rfl
      · exact .inl (.root hold hnone)
      · simp at hnone
    | @child q above row habove hmem hparent ih =>
      -- nothing is below the new row, so what is above is an old one
      have hold_above : t.Place q above := by
        rcases ih with hold | ⟨-, rfl⟩
        · exact hold
        · exfalso
          rcases mem_add.mp hmem with hold | rfl
          · exact h.next_childless ⟨row, hold, hparent⟩
          · exact absurd (h.fresh dir hdir.mem) (by simp [Option.some.inj hparent])
      rcases mem_add.mp hmem with hold | rfl
      · exact .inl (.child hold_above hold hparent)
      · have hid : dir.id = above.id := Option.some.inj hparent
        obtain rfl := h.ids dir hdir.mem above hold_above.mem hid
        exact .inr ⟨by rw [hdir.path_eq h hold_above], rfl⟩
  · have hmono : ∀ {q row}, t.Place q row → (t.add (some dir.id) name kind key).Place q row := by
      intro q row hplace
      induction hplace with
      | root hmem hnone => exact .root (mem_add.mpr (.inl hmem)) hnone
      | child _ hmem hparent ih => exact .child ih (mem_add.mpr (.inl hmem)) hparent
    rintro (hplace | ⟨rfl, rfl⟩)
    · exact hmono hplace
    · exact .child (hmono hdir) (mem_add.mpr (.inr rfl)) rfl

/-- The root, where there is none. -/
theorem place_add_root (h : t.Formed) (hnone : t.root = none) :
    (t.add none "" 0 none).Place q row ↔ q = [] ∧ row = ⟨t.next, none, "", 0, none, 0⟩ := by
  constructor
  · intro hplace
    induction hplace with
    | root hmem hparent =>
      rcases mem_add.mp hmem with hold | rfl
      · exact absurd (.root hold hparent) (not_place_of_rootless hnone)
      · exact ⟨rfl, rfl⟩
    | @child q above row habove hmem hparent ih =>
      exfalso
      obtain ⟨-, rfl⟩ := ih
      rcases mem_add.mp hmem with hold | rfl
      · exact h.next_childless ⟨row, hold, hparent⟩
      · simp at hparent
  · rintro ⟨rfl, rfl⟩
    exact .root (mem_add.mpr (.inr rfl)) rfl

/-- Rows that are changed in place are where they were. -/
theorem place_map {f : Row → Row} (hf : ∀ row ∈ t.rows, (f row).id = row.id ∧
    (f row).parent_id = row.parent_id ∧ (f row).name = row.name) :
    Place { t with rows := t.rows.map f } q row ↔ ∃ old, t.Place q old ∧ f old = row := by
  constructor
  · intro hplace
    induction hplace with
    | root hmem hnone =>
      obtain ⟨old, hold, rfl⟩ := List.mem_map.mp hmem
      exact ⟨old, .root hold ((hf old hold).2.1.symm.trans hnone), rfl⟩
    | child _ hmem hparent ih =>
      obtain ⟨old, hold, rfl⟩ := List.mem_map.mp hmem
      obtain ⟨above, habove, rfl⟩ := ih
      obtain ⟨-, hparent_id, hname⟩ := hf old hold
      rw [(hf above habove.mem).1, hparent_id] at hparent
      rw [hname]
      exact ⟨old, .child habove hold hparent, rfl⟩
  · rintro ⟨old, hold, rfl⟩
    induction hold with
    | root hmem hnone =>
      exact .root (List.mem_map_of_mem hmem) ((hf _ hmem).2.1.trans hnone)
    | @child q above old habove hmem hparent ih =>
      obtain ⟨-, hparent_id, hname⟩ := hf old hmem
      rw [← hname]
      refine .child ih (List.mem_map_of_mem hmem) ?_
      rw [hparent_id, (hf above habove.mem).1, hparent]

/-- The other rows are where they were, and the new file is in the place of the row. -/
theorem place_overwrite {object_key : String} (h : t.Formed) (hdir : t.Place p dir) :
    (t.overwrite dir object_key).Place q row ↔ ∃ old, t.Place q old ∧
      (if old.id = dir.id then { dir with kind := 1, object_key := some object_key, size := 0 }
        else old) = row := by
  apply place_map
  intro old hold
  by_cases hid : old.id = dir.id
  · rw [if_pos hid, h.ids old hold dir hdir.mem hid]
    exact ⟨rfl, rfl, rfl⟩
  · simp [hid]

/-- The rows at the path and below it are gone. -/
theorem place_cascade (h : t.Formed) (hroot : t.OneRoot) (hdir : t.Place p dir) :
    (t.cascade dir.id).Place q row ↔ t.Place q row ∧ ¬ p <+: q := by
  constructor
  · intro hplace
    have hold : t.Place q row := by
      induction hplace with
      | root hmem hnone => exact .root ((mem_cascade h).mp hmem).1 hnone
      | child _ hmem hparent ih => exact .child ih ((mem_cascade h).mp hmem).1 hparent
    refine ⟨hold, fun hbelow => ?_⟩
    exact ((mem_cascade h).mp hplace.mem).2 ((hdir.below_iff h hroot hold).mpr hbelow)
  · rintro ⟨hplace, hbelow⟩
    have hkept : ∀ {q row}, t.Place q row → ¬ p <+: q → row ∈ (t.cascade dir.id).rows := by
      intro q row hplace hbelow
      exact (mem_cascade h).mpr
        ⟨hplace.mem, fun hunder => hbelow ((hdir.below_iff h hroot hplace).mp hunder)⟩
    induction hplace with
    | root hmem hnone => exact .root (hkept (.root hmem hnone) hbelow) hnone
    | child habove hmem hparent ih =>
      refine .child (ih fun hp => hbelow (hp.trans (List.prefix_append _ _))) ?_ hparent
      exact hkept (.child habove hmem hparent) hbelow

theorem oneRoot_empty : empty.OneRoot := by
  simp [OneRoot, empty]

theorem OneRoot.add (hroot : t.OneRoot) : (t.add (some parent) name kind key).OneRoot := by
  intro row hrow other hother hnone hnone'
  rcases mem_add.mp hrow with hold | rfl <;> rcases mem_add.mp hother with hold' | rfl
  · exact hroot row hold other hold' hnone hnone'
  all_goals simp_all

theorem OneRoot.anti (hsub : ∀ row ∈ t.rows, row ∈ t'.rows) (hroot : t'.OneRoot) : t.OneRoot :=
  fun row hrow other hother => hroot row (hsub row hrow) other (hsub other hother)

theorem oneRoot_add_root (hnone : t.root = none) : (t.add none name kind key).OneRoot := by
  have hrootless : ∀ row ∈ t.rows, row.parent_id ≠ none := by
    simpa [FsInode.root] using hnone
  intro row hrow other hother hnone hnone'
  rcases mem_add.mp hrow with hold | rfl
  · exact absurd hnone (hrootless row hold)
  rcases mem_add.mp hother with hold | rfl
  · exact absurd hnone' (hrootless other hold)
  · rfl

theorem OneRoot.overwrite {object_key : String} (hroot : t.OneRoot) (hrow : row ∈ t.rows) :
    (t.overwrite row object_key).OneRoot := by
  intro x hx y hy hnone hnone'
  rcases (mem_overwrite hrow).mp hx with ⟨hx, hne⟩ | rfl <;>
    rcases (mem_overwrite hrow).mp hy with ⟨hy, hne'⟩ | rfl
  · exact hroot x hx y hy hnone hnone'
  · exact absurd (congrArg Row.id (hroot x hx row hrow hnone hnone')) hne
  · exact absurd (congrArg Row.id (hroot row hrow y hy hnone hnone')).symm hne'
  · rfl

end marie.persistency.FsInode
