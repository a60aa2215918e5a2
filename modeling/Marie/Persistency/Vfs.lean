-- The file systems that are mounted under a path. A path goes to the longest mount
-- that covers it; the mounts are kept in the order of their lengths, so that the
-- first one that matches is that one.
import Mathlib.Data.List.Induction
import Mathlib.Data.List.Sort
import Marie.Lib.Texts

namespace marie.filesystem

open Texts

abbrev Path := List Char

variable {FS : Type}

/-- `mounts` of a `VFS`: the path of each mount, and what is mounted there. -/
abbrev Mounts (FS : Type) := List (Path × FS)

/-- What was mounted at that very path is replaced. The sort is stable. -/
def mount (point : Path) (fs : FS) (mounts : Mounts FS) : Mounts FS :=
  ((mounts.filter fun m => m.1 ≠ point) ++ [(point, fs)]).mergeSort fun a b =>
    decide (byte_len b.1 ≤ byte_len a.1)

def resolve_mount (path : Path) : Mounts FS → Option (FS × Path)
  | [] => none
  | (point, fs) :: mounts =>
    match List.isPrefixOf? point path with
    | none => resolve_mount path mounts
    | some rest =>
      if rest.isEmpty || rest.head? == some '/' then
        some (fs, if rest.isEmpty then ['/'] else rest)
      else resolve_mount path mounts

/-- The mounts of a new `VFS`, after those of the history. -/
def mounted (history : List (Path × FS)) : Mounts FS :=
  history.foldl (fun mounts m => mount m.1 m.2 mounts) []

/-! ## What the mounts are for -/

/-- The segments of the first path are the first ones of the other. -/
def Covers (point path : Path) : Prop := point.splitOn '/' <+: path.splitOn '/'

/-- The file system that was mounted last at a path. -/
def last_mount (point : Path) (history : List (Path × FS)) : Option FS :=
  (history.reverse.find? fun m => m.1 = point).map Prod.snd

/-- Where a path goes: to the last mount at the longest path that covers it. -/
structure Routes (history : List (Path × FS)) (path point : Path) (fs : FS) (sub : Path) :
    Prop where
  mounted : last_mount point history = some fs
  covers : Covers point path
  longest : ∀ other, (last_mount other history).isSome → Covers other path → Covers other point
  sub_path : path = point ∧ sub = ['/'] ∨ path = point ++ sub ∧ sub.head? = some '/'

/-- A path of these segments, each after a slash. -/
def absolute (segments : List (List Char)) : Path := ['/'].intercalate ([] :: segments)

/-! ## Covering -/

variable {point other path sub : Path} {fs fs' : FS} {history : List (Path × FS)}

theorem covers_iff : Covers point path ↔ path = point ∨ ∃ rest, path = point ++ '/' :: rest :=
  splitOn_prefix_iff

/-- Between paths of segments, the one covers the other by its segments. -/
theorem covers_absolute_iff {xs ys : List (List Char)} (hx : ∀ x ∈ xs, '/' ∉ x)
    (hy : ∀ y ∈ ys, '/' ∉ y) : Covers (absolute xs) (absolute ys) ↔ xs <+: ys := by
  have hparts : ∀ zs : List (List Char), (∀ z ∈ zs, '/' ∉ z) →
      (absolute zs).splitOn '/' = [] :: zs := by
    intro zs hz
    apply List.splitOn_intercalate '/' _ (by simp)
    intro z hmem
    rcases List.mem_cons.mp hmem with rfl | hmem
    · simp
    · exact hz z hmem
  unfold Covers
  rw [hparts xs hx, hparts ys hy, List.cons_prefix_cons, and_iff_right rfl]

theorem Covers.eq (h : Covers point other) (h' : Covers other point) : point = other :=
  splitOn_prefix_antisymm h h'

/-- A longer name does not begin with a segment. -/
theorem not_covers_append {text : List Char} (hne : text ≠ []) (hhead : text.head? ≠ some '/') :
    ¬ Covers point (point ++ text) := by
  rw [covers_iff]
  rintro (h | ⟨rest, h⟩)
  · exact hne (by simpa using h)
  · rw [List.append_cancel_left h] at hhead
    simp at hhead

/-- What is left of a path after a mount that covers it. -/
def below (point path : Path) : Path :=
  if path = point then ['/'] else path.drop point.length

theorem below_spec (h : Covers point path) :
    path = point ∧ below point path = ['/'] ∨
      path = point ++ below point path ∧ (below point path).head? = some '/' := by
  unfold below
  by_cases heq : path = point
  · simp [heq]
  · rcases covers_iff.mp h with rfl | ⟨rest, rfl⟩
    · exact absurd rfl heq
    · simp

theorem Routes.sub_eq (h : Routes history path point fs sub) : sub = below point path := by
  unfold below
  rcases h.sub_path with ⟨heq, hsub⟩ | ⟨heq, hhead⟩
  · rw [if_pos heq, hsub]
  · have hne : path ≠ point := by
      intro hpath
      have hnil : sub = [] := by simpa [hpath] using heq
      simp [hnil] at hhead
    rw [if_neg hne, heq, List.drop_left]

/-- Only one file system is where a path goes. -/
theorem Routes.eq {sub' : Path} (h : Routes history path point fs sub)
    (h' : Routes history path other fs' sub') : fs = fs' ∧ sub = sub' := by
  have hcovers := h.longest other (by simp [h'.mounted]) h'.covers
  have hcovers' := h'.longest point (by simp [h.mounted]) h.covers
  obtain rfl := hcovers.eq hcovers'
  refine ⟨?_, by rw [h.sub_eq, h'.sub_eq]⟩
  have hmounted := h.mounted
  rw [h'.mounted] at hmounted
  exact (Option.some.inj hmounted).symm

/-! ## The first mount that covers a path -/

instance : Decidable (Covers point path) :=
  inferInstanceAs (Decidable (point.splitOn '/' <+: path.splitOn '/'))

/-- The test on the rest of the path finds the mounts that cover it. -/
theorem resolve_mount_eq (path : Path) (mounts : Mounts FS) :
    resolve_mount path mounts =
      (mounts.find? fun m => Covers m.1 path).map fun m => (m.2, below m.1 path) := by
  induction mounts with
  | nil => simp [resolve_mount]
  | cons m mounts ih =>
    obtain ⟨point, fs⟩ := m
    rw [resolve_mount, List.find?_cons, ih]
    by_cases hcovers : Covers point path
    · simp only [hcovers, decide_true, Option.map_some]
      rcases covers_iff.mp hcovers with rfl | ⟨rest, rfl⟩
      · have hrest : List.isPrefixOf? path path = some [] :=
          List.isPrefixOf?_eq_some_iff_append_eq.mpr (by simp)
        simp [hrest, below]
      · have hrest : List.isPrefixOf? point (point ++ '/' :: rest) = some ('/' :: rest) :=
          List.isPrefixOf?_eq_some_iff_append_eq.mpr (by simp)
        simp [hrest, below]
    · simp only [hcovers, decide_false]
      cases hrest : List.isPrefixOf? point path with
      | none => simp only
      | some rest =>
        have happend := List.isPrefixOf?_eq_some_iff_append_eq.mp hrest
        have hne : rest ≠ [] := by
          rintro rfl
          rw [List.append_nil] at happend
          exact hcovers (covers_iff.mpr (.inl happend.symm))
        have hhead : rest.head? ≠ some '/' := by
          intro hhead
          obtain ⟨tail, rfl⟩ := List.head?_eq_some_iff.mp hhead
          exact hcovers (covers_iff.mpr (.inr ⟨tail, happend.symm⟩))
        simp [hne, hhead]

/-! ## The mounts of a history -/

/-- The mounts are the last ones of the history, the longest first. -/
structure Formed (history : List (Path × FS)) (mounts : Mounts FS) : Prop where
  sorted : mounts.Pairwise fun a b => byte_len b.1 ≤ byte_len a.1
  mem_iff : ∀ point fs, (point, fs) ∈ mounts ↔ last_mount point history = some fs

theorem last_mount_concat (m : Path × FS) : last_mount point (history ++ [m]) =
    if m.1 = point then some m.2 else last_mount point history := by
  unfold last_mount
  rw [List.reverse_append, List.reverse_singleton, List.singleton_append, List.find?_cons]
  by_cases heq : m.1 = point
  · simp [heq]
  · simp [heq]

theorem formed_mount {mounts : Mounts FS} (h : Formed history mounts) (m : Path × FS) :
    Formed (history ++ [m]) (mount m.1 m.2 mounts) := by
  constructor
  · exact List.pairwise_mergeSort' (Order.Preimage (fun m' : Path × FS => byte_len m'.1) (· ≥ ·)) _
  · intro point fs
    unfold mount
    rw [List.mem_mergeSort, List.mem_append, List.mem_filter, last_mount_concat, h.mem_iff]
    by_cases heq : m.1 = point
    · simp [heq, eq_comm]
    · have hne : ¬ point = m.1 := fun h => heq h.symm
      simp only [hne, ne_eq, not_false_eq_true, decide_true, and_true, heq, if_false,
        List.mem_singleton, or_iff_left_iff_imp]
      rintro ⟨⟩
      exact absurd rfl heq

theorem formed_mounted (history : List (Path × FS)) : Formed history (mounted history) := by
  induction history using List.reverseRecOn with
  | nil =>
    constructor
    · exact List.Pairwise.nil
    · simp [mounted, last_mount]
  | append_singleton history m ih =>
    have hstep : mounted (history ++ [m]) = mount m.1 m.2 (mounted history) := by
      simp [mounted]
    rw [hstep]
    exact formed_mount ih m

theorem last_mount_isSome : (last_mount point history).isSome ↔ ∃ m ∈ history, m.1 = point := by
  unfold last_mount
  rw [Option.isSome_map, List.find?_isSome]
  simp

/-- The first mount that covers a path is the longest one. -/
theorem routes_of_find {m : Path × FS}
    (h : (mounted history).find? (fun m => Covers m.1 path) = some m) :
    Routes history path m.1 m.2 (below m.1 path) := by
  have hformed := formed_mounted history
  obtain ⟨hcovers, before, after, hmounts, hbefore⟩ := List.find?_eq_some_iff_append.mp h
  have hcovers : Covers m.1 path := of_decide_eq_true hcovers
  constructor
  · apply (hformed.mem_iff m.1 m.2).mp
    rw [hmounts]
    simp
  · exact hcovers
  · intro other hother hpath
    obtain ⟨fs, hfs⟩ := Option.isSome_iff_exists.mp hother
    have hmem := (hformed.mem_iff other fs).mpr hfs
    have hsorted := hformed.sorted
    rw [hmounts] at hmem hsorted
    rcases List.mem_append.mp hmem with hmem | hmem
    · have hnot := hbefore _ hmem
      simp [hpath] at hnot
    · rcases List.mem_cons.mp hmem with rfl | hmem
      · exact List.prefix_refl _
      · have hle := (List.pairwise_cons.mp (List.pairwise_append.mp hsorted).2.1).1 _ hmem
        exact splitOn_prefix_of_prefix hpath hcovers hle
  · exact below_spec hcovers

/-! ## The routing -/

theorem resolve_mount_eq_some_iff : resolve_mount path (mounted history) = some (fs, sub) ↔
    ∃ point, Routes history path point fs sub := by
  rw [resolve_mount_eq]
  constructor
  · intro h
    obtain ⟨m, hm, heq⟩ := Option.map_eq_some_iff.mp h
    cases heq
    exact ⟨m.1, routes_of_find hm⟩
  · rintro ⟨point, hroutes⟩
    cases hfind : (mounted history).find? (fun m => Covers m.1 path) with
    | none =>
      have hmem := ((formed_mounted history).mem_iff point fs).mpr hroutes.mounted
      have hnot := List.find?_eq_none.mp hfind _ hmem
      simp [hroutes.covers] at hnot
    | some m =>
      obtain ⟨hfs, hsub⟩ := hroutes.eq (routes_of_find hfind)
      simp [hfs, hsub]

theorem resolve_mount_eq_none_iff : resolve_mount path (mounted history) = none ↔
    ∀ m ∈ history, ¬ Covers m.1 path := by
  rw [resolve_mount_eq, Option.map_eq_none_iff, List.find?_eq_none]
  constructor
  · intro h m hm hcovers
    obtain ⟨fs, hfs⟩ := Option.isSome_iff_exists.mp (last_mount_isSome.mpr ⟨m, hm, rfl⟩)
    have hnot := h _ (((formed_mounted history).mem_iff m.1 fs).mpr hfs)
    simp [hcovers] at hnot
  · intro h m hm hcovers
    have hlast := ((formed_mounted history).mem_iff m.1 m.2).mp hm
    obtain ⟨m', hm', heq⟩ := last_mount_isSome.mp (Option.isSome_of_eq_some hlast)
    apply h m' hm'
    rw [heq]
    exact of_decide_eq_true hcovers

/-- The last mounts are all that the routing depends on. -/
theorem routes_congr {history' : List (Path × FS)}
    (h : ∀ point, last_mount point history' = last_mount point history) :
    Routes history' path point fs sub ↔ Routes history path point fs sub := by
  constructor
  · rintro ⟨hmounted, hcovers, hlongest, hsub⟩
    simp only [h] at hmounted hlongest
    exact ⟨hmounted, hcovers, hlongest, hsub⟩
  · rintro ⟨hmounted, hcovers, hlongest, hsub⟩
    simp only [← h] at hmounted hlongest
    exact ⟨hmounted, hcovers, hlongest, hsub⟩

/-- A path goes to what was mounted last on the longest mount that covers it by its segments, and
nowhere if none does. The order of the mounts does not matter, and a longer name is not taken for a
segment. -/
theorem paths_are_routed (history : List (Path × FS)) (path : Path) :
    (∀ fs sub, resolve_mount path (mounted history) = some (fs, sub) ↔
      ∃ point, Routes history path point fs sub) ∧
    (resolve_mount path (mounted history) = none ↔ ∀ m ∈ history, ¬ Covers m.1 path) ∧
    (∀ history' : List (Path × FS),
      (∀ point, last_mount point history' = last_mount point history) →
        resolve_mount path (mounted history') = resolve_mount path (mounted history)) ∧
    (∀ point text fs sub, path = point ++ text → text ≠ [] → text.head? ≠ some '/' →
      ¬ Routes history path point fs sub) ∧
    ∀ xs ys : List (List Char), (∀ x ∈ xs, '/' ∉ x) → (∀ y ∈ ys, '/' ∉ y) →
      (Covers (absolute xs) (absolute ys) ↔ xs <+: ys) := by
  refine ⟨fun fs sub => resolve_mount_eq_some_iff, resolve_mount_eq_none_iff, ?_, ?_,
    fun xs ys => covers_absolute_iff⟩
  · intro history' h
    apply Option.ext
    rintro ⟨fs, sub⟩
    rw [resolve_mount_eq_some_iff, resolve_mount_eq_some_iff]
    simp only [routes_congr h]
  · rintro point text fs sub rfl hne hhead hroutes
    exact not_covers_append hne hhead hroutes.covers

end marie.filesystem
