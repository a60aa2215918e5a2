-- The aliases of a file system. A path that an alias covers is rewritten, the
-- result again, and so on for a few times; what no alias changes is routed.
import Marie.Lib.Ranking
import Marie.Persistency.Vfs

namespace marie.filesystem

open Texts

/-! ## The table -/

/-- A row of `fs_alias`. -/
structure AliasRow where
  scope : String
  from_path : Path
  to_path : Path

/-- The rows, with their primary key. No order of them is meant. -/
structure FsAlias where
  rows : List AliasRow
  primary_key : rows.Pairwise fun a b => (a.scope, a.from_path) ≠ (b.scope, b.from_path)

inductive AliasOp where
  | set (scope : String) (source target : Path)
  | remove (scope : String) (source : Path)

namespace FsAlias

def new : FsAlias := ⟨[], .nil⟩

def remove (scope : String) (source : Path) (self : FsAlias) : FsAlias :=
  ⟨self.rows.filter fun row => (row.scope, row.from_path) ≠ (scope, source),
    self.primary_key.filter _⟩

/-- `ON CONFLICT (scope, from_path) DO UPDATE SET to_path`. -/
def set (scope : String) (source target : Path) (self : FsAlias) : FsAlias where
  rows := ⟨scope, source, target⟩ :: (self.remove scope source).rows
  primary_key := by
    refine List.pairwise_cons.mpr ⟨?_, (self.remove scope source).primary_key⟩
    intro row hrow heq
    have hne := of_decide_eq_true (List.mem_filter.mp hrow).2
    exact hne heq.symm

def apply (self : FsAlias) : AliasOp → FsAlias
  | .set scope source target => self.set scope source target
  | .remove scope source => self.remove scope source

def run (ops : List AliasOp) : FsAlias := ops.foldl apply new

/-- `SELECT .. WHERE scope = $1`, in one order of the rows. -/
def list (scope : String) (self : FsAlias) : List (Path × Path) :=
  (self.rows.filter fun row => row.scope = scope).map fun row => (row.from_path, row.to_path)

end FsAlias

/-! ## The resolution -/

/-- `resolve_prefix`, of the aliases that `list` gives it. -/
def resolve_prefix (aliases : List (Path × Path)) (path : Path) : Option Path :=
  let best := Ranking.max_by (fun a b => compare (byte_len a.1) (byte_len b.1))
    (aliases.filter fun a => path = a.1 ∨ a.1 ++ ['/'] <+: path)
  best.map fun a => a.2 ++ path.drop a.1.length

def MAX_ALIAS_HOPS : Nat := 8

/-- The loop of `resolve_aliases`. `listed` gives the aliases in the order that the `SELECT` of each
turn has them. -/
def follow : Nat → (Nat → List (Path × Path)) → Path → Path
  | 0, _, current => current
  | hops + 1, listed, current =>
    match resolve_prefix (listed 0) current with
    | some rewritten =>
      if rewritten ≠ current then follow hops (fun turn => listed (turn + 1)) rewritten
      else current
    | none => current

/-- A `VFS`, with the aliases as its calls read them. -/
structure VFS (FS : Type) where
  mounts : Mounts FS
  aliases : Option (Nat → List (Path × Path))

namespace VFS

variable {FS : Type}

def resolve_aliases (path : Path) (self : VFS FS) : Path :=
  match self.aliases with
  | some listed => follow MAX_ALIAS_HOPS listed path
  | none => path

def resolve (path : Path) (self : VFS FS) : Except String (FS × Path) :=
  match resolve_mount (self.resolve_aliases path) self.mounts with
  | some found => .ok found
  | none => .error ("aucun montage ne couvre " ++ String.ofList (self.resolve_aliases path))

end VFS

/-! ## What the aliases are for -/

/-- The target that was set last for a path, unless it was removed since. -/
def last_target (scope : String) (source : Path) (ops : List AliasOp) : Option Path :=
  ops.foldl (fun target op => match op with
    | .set scope' source' target' => if (scope', source') = (scope, source) then some target' else target
    | .remove scope' source' => if (scope', source') = (scope, source) then none else target) none

/-- The alias of the longest path that covers `path` puts its target there. -/
def Rewrites (scope : String) (ops : List AliasOp) (path rewritten : Path) : Prop :=
  ∃ source target rest, last_target scope source ops = some target ∧ Covers source path ∧
    (∀ other, (last_target scope other ops).isSome → Covers other path → Covers other source) ∧
    path = source ++ rest ∧ rewritten = target ++ rest

/-- The second path is the first one after so many rewritings. -/
inductive Rewritten (R : Path → Path → Prop) : Nat → Path → Path → Prop where
  | zero (path : Path) : Rewritten R 0 path path
  | succ {path next last : Path} {k : Nat} :
    R path next → Rewritten R k next last → Rewritten R (k + 1) path last

variable {scope : String} {source target path rewritten : Path} {ops : List AliasOp}
  {aliases : List (Path × Path)}

/-! ## The rows -/

theorem last_target_concat (op : AliasOp) : last_target scope source (ops ++ [op]) = match op with
    | .set scope' source' target' =>
      if (scope', source') = (scope, source) then some target' else last_target scope source ops
    | .remove scope' source' =>
      if (scope', source') = (scope, source) then none else last_target scope source ops := by
  unfold last_target
  rw [List.foldl_append, List.foldl_cons, List.foldl_nil]

theorem run_concat (op : AliasOp) : FsAlias.run (ops ++ [op]) = (FsAlias.run ops).apply op := by
  simp [FsAlias.run]

theorem mem_list {table : FsAlias} :
    (source, target) ∈ table.list scope ↔ ⟨scope, source, target⟩ ∈ table.rows := by
  unfold FsAlias.list
  rw [List.mem_map]
  constructor
  · rintro ⟨⟨scope', source', target'⟩, hmem, heq⟩
    cases heq
    obtain ⟨hmem, hscope⟩ := List.mem_filter.mp hmem
    rwa [← of_decide_eq_true hscope]
  · intro hmem
    exact ⟨_, List.mem_filter.mpr ⟨hmem, by simp⟩, rfl⟩

theorem mem_rows_remove {table : FsAlias} {row : AliasRow} :
    row ∈ (table.remove scope source).rows ↔
      row ∈ table.rows ∧ (row.scope, row.from_path) ≠ (scope, source) := by
  unfold FsAlias.remove
  rw [List.mem_filter, decide_eq_true_eq]

/-- The rows of a scope are its last targets. -/
theorem mem_rows_run : (⟨scope, source, target⟩ : AliasRow) ∈ (FsAlias.run ops).rows ↔
    last_target scope source ops = some target := by
  induction ops using List.reverseRecOn with
  | nil => simp [FsAlias.run, FsAlias.new, last_target]
  | append_singleton ops op ih =>
    rw [run_concat, last_target_concat]
    cases op with
    | set scope' source' target' =>
      simp only [FsAlias.apply, FsAlias.set, List.mem_cons, mem_rows_remove, ih, AliasRow.mk.injEq]
      by_cases hkey : (scope', source') = (scope, source)
      · simp only [Prod.mk.injEq] at hkey
        simp [hkey, eq_comm]
      · have hkey' : (scope, source) ≠ (scope', source') := fun heq => hkey heq.symm
        have hrow : ¬ (scope = scope' ∧ source = source' ∧ target = target') := by
          rintro ⟨rfl, rfl, -⟩
          exact hkey rfl
        simp only [hkey, hkey', hrow, false_or, ne_eq, not_false_eq_true, and_true, if_false]
    | remove scope' source' =>
      simp only [FsAlias.apply, mem_rows_remove, ih]
      by_cases hkey : (scope', source') = (scope, source)
      · simp [hkey]
      · have hkey' : (scope, source) ≠ (scope', source') := fun heq => hkey heq.symm
        simp only [hkey, hkey', ne_eq, not_false_eq_true, and_true, if_false]

theorem mem_listed (h : aliases.Perm ((FsAlias.run ops).list scope)) :
    (source, target) ∈ aliases ↔ last_target scope source ops = some target := by
  rw [h.mem_iff, mem_list, mem_rows_run]

/-! ## One rewriting -/

/-- The two tests on the characters find the aliases whose segments begin the path. -/
theorem covers_iff_tests : (path = source ∨ source ++ ['/'] <+: path) ↔ Covers source path := by
  rw [covers_iff]
  apply or_congr Iff.rfl
  constructor
  · rintro ⟨rest, rfl⟩
    exact ⟨rest, by simp⟩
  · rintro ⟨rest, rfl⟩
    exact ⟨rest, by simp⟩

theorem drop_of_covers (h : Covers source path) : path = source ++ path.drop source.length := by
  rcases covers_iff.mp h with rfl | ⟨rest, rfl⟩
  · simp
  · simp

/-- The rewriting goes to one path. -/
theorem Rewrites.eq {rewritten' : Path} (h : Rewrites scope ops path rewritten)
    (h' : Rewrites scope ops path rewritten') : rewritten = rewritten' := by
  obtain ⟨source, target, rest, hlast, hcovers, hlongest, hpath, rfl⟩ := h
  obtain ⟨source', target', rest', hlast', hcovers', hlongest', hpath', rfl⟩ := h'
  obtain rfl : source = source' := by
    have hle := hlongest' source (Option.isSome_of_eq_some hlast) hcovers
    have hge := hlongest source' (Option.isSome_of_eq_some hlast') hcovers'
    exact hle.eq hge
  rw [hlast] at hlast'
  cases hlast'
  rw [hpath] at hpath'
  rw [List.append_cancel_left hpath']

theorem rewrites_of_resolved (h : aliases.Perm ((FsAlias.run ops).list scope))
    (hresolve : resolve_prefix aliases path = some rewritten) :
    Rewrites scope ops path rewritten := by
  unfold resolve_prefix at hresolve
  obtain ⟨⟨source, target⟩, hbest, rfl⟩ := Option.map_eq_some_iff.mp hresolve
  obtain ⟨hmem, hmax⟩ := Ranking.max_by_spec hbest
  obtain ⟨hmem, htests⟩ := List.mem_filter.mp hmem
  have hcovers : Covers source path := covers_iff_tests.mp (of_decide_eq_true htests)
  refine ⟨source, target, path.drop source.length, (mem_listed h).mp hmem, hcovers, ?_,
    drop_of_covers hcovers, rfl⟩
  intro other hother hpath
  obtain ⟨target', htarget'⟩ := Option.isSome_iff_exists.mp hother
  have hle := hmax (other, target') (List.mem_filter.mpr
    ⟨(mem_listed h).mpr htarget', decide_eq_true (covers_iff_tests.mpr hpath)⟩)
  exact splitOn_prefix_of_prefix hpath hcovers hle

theorem resolve_prefix_eq_none_iff (h : aliases.Perm ((FsAlias.run ops).list scope)) :
    resolve_prefix aliases path = none ↔
      ∀ source, (last_target scope source ops).isSome → ¬ Covers source path := by
  unfold resolve_prefix
  rw [Option.map_eq_none_iff, Ranking.max_by_eq_none, List.filter_eq_nil_iff]
  constructor
  · intro hnone source hsource hcovers
    obtain ⟨target, htarget⟩ := Option.isSome_iff_exists.mp hsource
    apply hnone (source, target) ((mem_listed h).mpr htarget)
    exact decide_eq_true (covers_iff_tests.mpr hcovers)
  · rintro hnone ⟨source, target⟩ hmem htests
    have hlast := (mem_listed h).mp hmem
    apply hnone source (Option.isSome_of_eq_some hlast)
    exact covers_iff_tests.mp (of_decide_eq_true htests)

theorem resolve_prefix_eq_some_iff (h : aliases.Perm ((FsAlias.run ops).list scope)) :
    resolve_prefix aliases path = some rewritten ↔ Rewrites scope ops path rewritten := by
  constructor
  · exact rewrites_of_resolved h
  · intro hrewrites
    cases hresolve : resolve_prefix aliases path with
    | none =>
      obtain ⟨source, target, -, hlast, hcovers, -⟩ := hrewrites
      have hnone := (resolve_prefix_eq_none_iff h).mp hresolve source
      exact absurd hcovers (hnone (Option.isSome_of_eq_some hlast))
    | some rewritten' => rw [hrewrites.eq (rewrites_of_resolved h hresolve)]

/-! ## The loop -/

/-- A path that no alias changes: none covers it, or one puts it in its own place. -/
def Settled (scope : String) (ops : List AliasOp) (path : Path) : Prop :=
  (∀ rewritten, ¬ Rewrites scope ops path rewritten) ∨ Rewrites scope ops path path

variable {listed : Nat → List (Path × Path)}

/-- From a path that is rewritten to itself there is no other. -/
theorem Rewritten.of_self {last : Path} {k : Nat} (h : Rewritten (Rewrites scope ops) k path last)
    (hself : Rewrites scope ops path path) : last = path := by
  induction h with
  | zero path => rfl
  | succ hnext _ ih =>
    obtain rfl := hself.eq hnext
    exact ih hself

theorem follow_of_settled {last : Path} {k hops : Nat}
    (h : ∀ turn, (listed turn).Perm ((FsAlias.run ops).list scope))
    (hrewritten : Rewritten (Rewrites scope ops) k path last) (hle : k ≤ hops)
    (hsettled : Settled scope ops last) : follow hops listed path = last := by
  induction hops generalizing listed path k with
  | zero =>
    cases hrewritten with
    | zero => rfl
    | succ => omega
  | succ hops ih =>
    rw [follow]
    cases hresolve : resolve_prefix (listed 0) path with
    | none =>
      cases hrewritten with
      | zero => simp only
      | succ hnext _ => rw [(resolve_prefix_eq_some_iff (h 0)).mpr hnext] at hresolve; cases hresolve
    | some rewritten =>
      have hrewrites := (resolve_prefix_eq_some_iff (h 0)).mp hresolve
      by_cases heq : rewritten = path
      · subst heq
        simp only [ne_eq, not_true_eq_false, if_false]
        exact (hrewritten.of_self hrewrites).symm
      · simp only [ne_eq, heq, not_false_eq_true, if_true]
        cases hrewritten with
        | zero =>
          -- the path is settled, so it was rewritten to itself
          rcases hsettled with hnone | hself
          · exact absurd hrewrites (hnone rewritten)
          · exact absurd (hrewrites.eq hself) heq
        | succ hnext hlater =>
          obtain rfl := hrewrites.eq hnext
          exact ih (fun turn => h (turn + 1)) hlater (by omega)

/-- The loop ends after a number of rewritings that is bounded. -/
theorem follow_rewritten (hops : Nat) (path : Path)
    (h : ∀ turn, (listed turn).Perm ((FsAlias.run ops).list scope)) :
    ∃ k ≤ hops, Rewritten (Rewrites scope ops) k path (follow hops listed path) := by
  induction hops generalizing listed path with
  | zero => exact ⟨0, Nat.le_refl 0, .zero path⟩
  | succ hops ih =>
    rw [follow]
    cases hresolve : resolve_prefix (listed 0) path with
    | none => exact ⟨0, Nat.zero_le _, .zero path⟩
    | some rewritten =>
      by_cases heq : rewritten = path
      · simp only [heq, ne_eq, not_true_eq_false, if_false]
        exact ⟨0, Nat.zero_le _, .zero path⟩
      · simp only [ne_eq, heq, not_false_eq_true, if_true]
        obtain ⟨k, hk, hlater⟩ := ih rewritten fun turn => h (turn + 1)
        exact ⟨k + 1, by omega, .succ ((resolve_prefix_eq_some_iff (h 0)).mp hresolve) hlater⟩

/-- A path is rewritten by the longest alias that covers it. The resolution ends for every table,
and with the path that is settled if there is one within eight rewritings, which is routed as the
first path is. -/
theorem aliases_are_resolved (scope : String) (ops : List AliasOp)
    (listed : Nat → List (Path × Path))
    (h : ∀ turn, (listed turn).Perm ((FsAlias.run ops).list scope)) :
    (∀ turn path, (∀ rewritten, resolve_prefix (listed turn) path = some rewritten ↔
        Rewrites scope ops path rewritten) ∧
      ( resolve_prefix (listed turn) path = none ↔
        ∀ source, (last_target scope source ops).isSome → ¬ Covers source path)) ∧
    ∀ (FS : Type) (mounts : Mounts FS) (path : Path),
      (∃ k ≤ MAX_ALIAS_HOPS, Rewritten (Rewrites scope ops) k path
        (VFS.resolve_aliases path ⟨mounts, some listed⟩)) ∧
      ∀ k ≤ MAX_ALIAS_HOPS, ∀ last, Rewritten (Rewrites scope ops) k path last →
        Settled scope ops last →
          VFS.resolve_aliases path ⟨mounts, some listed⟩ = last ∧
          ∀ listed' : Nat → List (Path × Path),
            (∀ turn, (listed' turn).Perm ((FsAlias.run ops).list scope)) →
              VFS.resolve path ⟨mounts, some listed⟩ = VFS.resolve last ⟨mounts, some listed'⟩ := by
  refine ⟨fun turn path => ⟨fun rewritten => resolve_prefix_eq_some_iff (h turn),
    resolve_prefix_eq_none_iff (h turn)⟩, ?_⟩
  intro FS mounts path
  refine ⟨follow_rewritten MAX_ALIAS_HOPS path h, ?_⟩
  intro k hk last hrewritten hsettled
  have hlast := follow_of_settled h hrewritten hk hsettled
  refine ⟨hlast, ?_⟩
  intro listed' h'
  have hstays := follow_of_settled h' (.zero last) (Nat.zero_le MAX_ALIAS_HOPS) hsettled
  simp only [VFS.resolve, VFS.resolve_aliases, hlast, hstays]

/-- Two aliases, one below the other. -/
def nestedAliases : List AliasOp :=
  [.set "s" "/current".toList "/files".toList, .set "s" "/current/a".toList "/other".toList]

/-- Of two aliases that cover a path the longer one rewrites it, whatever the order of the rows. -/
theorem the_longer_alias_is_followed :
    VFS.resolve_aliases "/current/a/b".toList
        ⟨[("/files".toList, ()), ("/other".toList, ())], some fun _ =>
          [("/current".toList, "/files".toList), ("/current/a".toList, "/other".toList)]⟩ =
      "/other/b".toList ∧
    VFS.resolve_aliases "/current/a/b".toList
        ⟨[("/files".toList, ()), ("/other".toList, ())], some fun turn =>
          if turn = 0 then
            [("/current/a".toList, "/other".toList), ("/current".toList, "/files".toList)]
          else [("/current".toList, "/files".toList), ("/current/a".toList, "/other".toList)]⟩ =
      "/other/b".toList := by
  have hboth : ∀ listed : Nat → List (Path × Path),
      (∀ turn, (listed turn).Perm ((FsAlias.run nestedAliases).list "s")) →
      VFS.resolve_aliases "/current/a/b".toList
        ⟨[("/files".toList, ()), ("/other".toList, ())], some listed⟩ = "/other/b".toList := by
    intro listed hlisted
    -- the rewriting is read off one listing, and holds for every other
    have hread := fun path rewritten => ((aliases_are_resolved "s" nestedAliases
      (fun _ => (FsAlias.run nestedAliases).list "s") fun _ => .refl _).1 0 path).1 rewritten
    refine (((aliases_are_resolved "s" nestedAliases listed hlisted).2 Unit _ _).2 1 (by decide) _
      ?_ ?_).1
    · exact .succ ((hread _ _).mp (by decide)) (.zero _)
    · refine .inl fun rewritten hrewrites => ?_
      have hnone : resolve_prefix ((FsAlias.run nestedAliases).list "s") "/other/b".toList = none := by
        decide
      rw [(hread _ rewritten).mpr hrewrites] at hnone
      cases hnone
  refine ⟨hboth _ fun _ => by decide, hboth _ fun turn => ?_⟩
  split
  · decide
  · decide

end marie.filesystem
