-- Runs of the files: what is read in them, and which objects are left.
import Marie.Lib.Runs
import Marie.Persistency.FileContents

namespace marie.persistency

open Program FsInode PathMap Runs

variable {σ : Type} {store : ObjectStore σ}

/-! ## Runs -/

/-- The keys that are drawn in a run. -/
def object_keys (operations : List FileOperation) : List String :=
  operations.filterMap FileOperation.object_key

theorem contents_empty (store : ObjectStore σ) :
    Contents store {key | key ∈ object_keys []} ⟨⟨.empty, store.empty⟩, [], []⟩
      ⟨fun _ => none, [], []⟩ fun _ => none where
  shows := refines_empty
  nodes := rfl
  plain := by simp
  one_key := by simp
  handles := .nil
  objects := by simp [store.get_empty]

theorem object_keys_concat (operations : List FileOperation) (operation : FileOperation) :
    object_keys (operations ++ [operation]) =
      object_keys operations ++ operation.object_key.toList := by
  rw [object_keys, List.filterMap_append]
  cases h : operation.object_key <;> simp [object_keys, h]

/-- The contents after one more operation, whose key was not drawn before. -/
theorem contents_concat {operations : List FileOperation} {operation : FileOperation} {m : Tree}
    (hkeys : (object_keys (operations ++ [operation])).Nodup)
    (h : Contents store {key | key ∈ object_keys operations} (Files.run store operations)
      (FileTree.run operations) m) :
    ∃ m', Contents store {key | key ∈ object_keys (operations ++ [operation])}
      (Files.run store (operations ++ [operation])) (FileTree.run (operations ++ [operation])) m' ∧
      (Tidy store (Files.run store operations).disk.objects m →
        (Tidy store (Files.run store (operations ++ [operation])).disk.objects m' ↔
          Timely (Files.run store operations) m operation ∧
            Empties store (Files.run store operations) operation)) := by
  rw [object_keys_concat] at hkeys ⊢
  obtain ⟨-, -, hnew⟩ := List.nodup_append.mp hkeys
  obtain ⟨m', hstep, htidy⟩ := h.step operation fun key hkey hold =>
    hnew key hold key (by simpa using hkey) rfl
  refine ⟨m', ?_, by simpa [Files.run] using htidy⟩
  simp only [Files.run, FileTree.run, List.foldl_append, List.foldl_cons, List.foldl_nil] at hstep ⊢
  apply hstep.mono
  rintro key (hkey | hkey)
  · exact List.mem_append_right _ (by simpa using hkey)
  · exact List.mem_append_left _ hkey

theorem nodup_before {operations before : List FileOperation}
    (hkeys : (object_keys operations).Nodup) (hearlier : before <+: operations) :
    (object_keys before).Nodup :=
  hkeys.sublist (hearlier.sublist.filterMap _)

theorem contents_run (store : ObjectStore σ) (operations : List FileOperation)
    (hkeys : (object_keys operations).Nodup) :
    ∃ m, Contents store {key | key ∈ object_keys operations} (Files.run store operations)
      (FileTree.run operations) m := by
  induction operations using List.reverseRecOn with
  | nil => exact ⟨_, contents_empty store⟩
  | append_singleton operations operation ih =>
    obtain ⟨m, hcontents⟩ := ih (nodup_before hkeys (List.prefix_append _ _))
    obtain ⟨m', hnext, -⟩ := contents_concat hkeys hcontents
    exact ⟨m', hnext⟩

/-- Where no key is drawn twice, a file of a run holds what the store took last from a writer that
was opened for it, and is read as that, and a directory is listed with the names that are in it. -/
theorem files_hold_what_was_stored (store : ObjectStore σ) (operations : List FileOperation)
    (hkeys : (object_keys operations).Nodup) (scope : Nat) (path : String) :
    (Files.run store operations).read store scope path =
        (FileTree.run operations).read scope path ∧
      (Files.run store operations).ls scope path = (FileTree.run operations).ls scope path := by
  obtain ⟨m, hcontents⟩ := contents_run store operations hkeys
  exact ⟨hcontents.read_eq scope path, hcontents.ls_eq scope path⟩

/-- A file is written and read. -/
theorem a_file_is_read : (Files.run in_memory
      [.for_workspace ⟨0⟩, .open_file 0 "a" { write := true, create := true } 0, .write 0 [1],
        .shutdown 0 true]).read in_memory 0 "a" = some (.ok [1]) := by
  rw [(files_hold_what_was_stored in_memory _ (by exact List.nodup_singleton (new_key 0)) 0 "a").1]
  decide +kernel

/-! ## The objects that are left -/

/-- Every object is that of a row. -/
def NoOrphans (store : ObjectStore σ) (s : Files σ) : Prop :=
  ∀ key, store.get key s.disk.objects ≠ none → ∃ row ∈ s.disk.table.rows, row.object_key = some key

/-- What the store takes from a writer is of a file that is there: none is shut down after its file
was removed. -/
def InTime (s : Files σ) (operation : FileOperation) : Prop :=
  ∀ descriptor key buffer, operation = .shutdown descriptor true →
    s.descriptors[descriptor]? = some (some (.Write key buffer)) →
      ∃ row ∈ s.disk.table.rows, row.object_key = some key

variable {drawn : Set String} {s : Files σ} {a : FileTree} {m : Tree} {key : String}

/-- The keys of the rows are those of the files. -/
theorem Contents.row_iff (h : Contents store drawn s a m) :
    (∃ row ∈ s.disk.table.rows, row.object_key = some key) ↔ ∃ p, m p = some (.file key) := by
  constructor
  · rintro ⟨row, hrow, hkey⟩
    obtain ⟨p, hp⟩ := h.inodes.formed.placed hrow
    have hentry := h.inodes.at_place hp
    rcases h.plain p _ hentry with hdir | ⟨other, -, hfile⟩
    · have hnone : row.object_key = none := congrArg Entry.object_key hdir
      simp [hkey] at hnone
    · have hother : row.object_key = some other := congrArg Entry.object_key hfile
      obtain rfl : key = other := Option.some.inj (hkey.symm.trans hother)
      exact ⟨p, hentry.trans (congrArg some hfile)⟩
  · rintro ⟨p, hp⟩
    obtain ⟨row, hrow, hentry⟩ := (h.inodes.entries p _).mp hp
    exact ⟨row, hrow.mem, congrArg Entry.object_key hentry⟩

theorem Contents.noOrphans_iff (h : Contents store drawn s a m) :
    NoOrphans store s ↔ Tidy store s.disk.objects m := by
  simp only [NoOrphans, Tidy, h.row_iff]

theorem Contents.inTime_iff (h : Contents store drawn s a m) (operation : FileOperation) :
    InTime s operation ↔ Timely s m operation := by
  simp only [InTime, Timely, h.row_iff]

/-- At every moment of a run all objects are those of files, in exactly those runs in which no
writer stores after its file was removed, and the store deletes every object of a file that is
removed. -/
theorem no_orphans_iff (store : ObjectStore σ) (operations : List FileOperation)
    (hkeys : (object_keys operations).Nodup) :
    EveryState (fun before => NoOrphans store (Files.run store before)) operations ↔
      EveryStep (fun before operation => InTime (Files.run store before) operation ∧
        Empties store (Files.run store before) operation) operations := by
  apply everyState_iff_everyStep (I := fun _ => True) trivial
  · intro key hkey
    exact absurd (store.get_empty key) hkey
  · intro before operation hearlier _ hbefore
    have hnodup := nodup_before hkeys hearlier
    obtain ⟨m, hcontents⟩ := contents_run store before
      (nodup_before hnodup (List.prefix_append _ _))
    obtain ⟨m', hnext, hiff⟩ := contents_concat hnodup hcontents
    rw [hnext.noOrphans_iff, hcontents.inTime_iff]
    exact ⟨hiff (hcontents.noOrphans_iff.mp hbefore), fun _ => trivial⟩

/-- A file is removed under its writer; a file is removed, and the store refuses to delete what was
stored in it. -/
theorem objects_are_left_behind :
    ¬ EveryState (fun before => NoOrphans in_memory (Files.run in_memory before))
        [.for_workspace ⟨0⟩, .open_file 0 "a" { write := true, create := true } 0,
          .remove 0 "a" none, .shutdown 0 true] ∧
      ¬ EveryState (fun before => NoOrphans in_memory (Files.run in_memory before))
        [.for_workspace ⟨0⟩, .open_file 0 "a" { write := true, create := true } 0,
          .shutdown 0 true, .remove 0 "a" (some 0)] := by
  constructor
  · rw [no_orphans_iff in_memory _ (by exact List.nodup_singleton (new_key 0))]
    intro h
    have hlast := (h [_, _, _] _ [] rfl).1 0 ("fs/" ++ display_id 0) [] rfl (by decide +kernel)
    revert hlast
    decide +kernel
  · rw [no_orphans_iff in_memory _ (by exact List.nodup_singleton (new_key 0))]
    intro h
    have hlast := (h [_, _, _] _ [] rfl).2 ("fs/" ++ display_id 0)
    revert hlast
    decide +kernel

end marie.persistency
