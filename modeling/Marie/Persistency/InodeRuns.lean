-- Catalogs that share one table. An upsert takes a name as it finds it, file or
-- directory, so an inode can come to lie in a file.
import Marie.Lib.Runs
import Marie.Persistency.InodeCalls

namespace marie.persistency

open Program FsInode Runs

/-- The calls of a run: a catalog is opened for a workspace or a session, and an opened one is
named by its place among them. `key` is what `create_file` draws. -/
inductive Operation
  | for_workspace (workspace_id : WorkspaceId)
  | for_session (workspace_id : WorkspaceId) (session_id : SessionId)
  | mkdir (scope : Nat) (path : String)
  | create_file (scope : Nat) (path : String) (key : Nat)
  | remove (scope : Nat) (path : String)

/-- The table, and the catalogs that were opened on it. -/
structure Database where
  table : FsInode
  catalogs : List PostgresInodeCatalog

namespace Database

def open_catalog (s : Database) (open_it : Sql PostgresInodeCatalog) : Database :=
  match exec open_it s.table with
  | (.ok catalog, table) => { table, catalogs := s.catalogs ++ [catalog] }
  | (.error _, table) => { s with table }

def call {α : Type} (s : Database) (scope : Nat) (f : PostgresInodeCatalog → Sql α) : Database :=
  match s.catalogs[scope]? with
  | some catalog => { s with table := (exec (f catalog) s.table).2 }
  | none => s

def step (s : Database) : Operation → Database
  | .for_workspace workspace_id => s.open_catalog (PostgresInodeCatalog.for_workspace workspace_id)
  | .for_session workspace_id session_id =>
    s.open_catalog (PostgresInodeCatalog.for_session workspace_id session_id)
  | .mkdir scope path => s.call scope (·.mkdir path)
  | .create_file scope path key => s.call scope (·.create_file path key)
  | .remove scope path => s.call scope (·.remove path)

def run (operations : List Operation) : Database := operations.foldl step ⟨.empty, []⟩

/-- The operation does what its doc says: `mkdir` returns a directory, `create_file` makes no
file of a directory that is not empty, and `remove` removes the path. -/
def Honest (s : Database) : Operation → Prop
  | .mkdir scope path => ∀ catalog ∈ s.catalogs[scope]?, ∀ inode,
    (exec (catalog.mkdir path) s.table).1 = .ok inode → inode.kind = .Dir
  | .create_file scope path key => ∀ catalog ∈ s.catalogs[scope]?,
    KeepsDirs s.table (exec (catalog.create_file path key) s.table).2
  | .remove scope path => ∀ catalog ∈ s.catalogs[scope]?, ∀ keys,
    (exec (catalog.remove path) s.table).1 = .ok keys →
      Removed catalog path s.table (exec (catalog.remove path) s.table).2 keys
  | _ => True

/-- No file is in the way of the operation, and no directory in the way of a file. -/
def Unobstructed (s : Database) : Operation → Prop
  | .for_workspace workspace_id => s.table.RootClear ["workspaces", display_id workspace_id.id]
  | .for_session workspace_id session_id => s.table.RootClear
    ["workspaces", display_id workspace_id.id, "sessions", display_id session_id.id]
  | .mkdir scope path => ∀ catalog ∈ s.catalogs[scope]?, split_path path ≠ [] →
    ¬ s.table.IsFile (s.table.reached catalog.root_id (split_path path))
  | .create_file scope path _ => ∀ catalog ∈ s.catalogs[scope]?, split_path path ≠ [] →
    s.table.Clear catalog.root_id (split_path path) ∧
      (s.table.Found catalog.root_id (split_path path) →
        ¬ s.table.HasChild (s.table.reached catalog.root_id (split_path path)))
  | .remove _ _ => True

variable {s : Database} {operation : Operation}

/-- A catalog that is opened. -/
theorem open_meets (segments : List String) (h : s.table.Formed) (honly : s.table.OnlyDirs) :
    ((s.open_catalog (open_at segments)).table.OnlyDirs ↔ s.table.RootClear segments) ∧
      (s.open_catalog (open_at segments)).table.Formed := by
  have htable : (s.open_catalog (open_at segments)).table = (exec (open_at segments) s.table).2 := by
    unfold open_catalog
    split <;> simp_all
  rw [htable]
  exact ⟨onlyDirs_open_at h honly, formed_open_at h⟩

/-- One operation: the constraints hold on, and the tree is as it must be where nothing is in the
way. -/
theorem step_meets (h : s.table.Formed) (honly : s.table.OnlyDirs) :
    ((s.step operation).table.OnlyDirs ∧ Honest s operation ↔ Unobstructed s operation) ∧
      (s.step operation).table.Formed := by
  cases operation with
  | for_workspace workspace_id =>
    simp only [Honest, and_true]
    exact open_meets _ h honly
  | for_session workspace_id session_id =>
    simp only [Honest, and_true]
    exact open_meets _ h honly
  | mkdir scope path =>
    simp only [step, call, Honest, Unobstructed]
    cases s.catalogs[scope]? with
    | none => simp [h, honly]
    | some catalog => simpa using ⟨mkdir_meets h honly, formed_mkdir h⟩
  | create_file scope path key =>
    simp only [step, call, Honest, Unobstructed]
    cases s.catalogs[scope]? with
    | none => simp [h, honly]
    | some catalog => simpa using ⟨create_file_meets h honly, formed_create_file h⟩
  | remove scope path =>
    simp only [step, call, Honest, Unobstructed]
    cases s.catalogs[scope]? with
    | none => simp [h, honly]
    | some catalog =>
      have hremoved : ∀ keys, (exec (catalog.remove path) s.table).1 = .ok keys →
          Removed catalog path s.table (exec (catalog.remove path) s.table).2 keys :=
        fun _ => remove_meets h
      simpa [onlyDirs_remove h honly, formed_remove h] using hremoved

theorem run_concat (before : List Operation) :
    run (before ++ [operation]) = (run before).step operation := by
  simp [run]

/-- The tree is as it must be: at every moment only directories have children, and every operation
does what its doc says. -/
def WellFormed (operations : List Operation) : Prop :=
  EveryState (fun before => (run before).table.OnlyDirs) operations ∧
    EveryStep (fun before operation => Honest (run before) operation) operations

/-- The tree is as it must be in exactly those runs in which no file is in the way of an
operation. -/
theorem inode_tree_well_formed_iff (operations : List Operation) : WellFormed operations ↔
    EveryStep (fun before operation => Unobstructed (run before) operation) operations := by
  apply everyState_and_everyStep_iff (I := fun before => (run before).table.Formed) formed_empty
  · intro id hchild
    obtain ⟨row, hrow, -⟩ := hchild
    simp [run, FsInode.empty] at hrow
  · intro before operation _ hformed honly
    rw [run_concat]
    obtain ⟨hiff, hnext⟩ := step_meets hformed honly
    exact ⟨hiff, fun _ => hnext⟩

/-- A directory is made in a file. -/
theorem a_file_gets_a_child : ¬ WellFormed
    [.for_workspace ⟨0⟩, .create_file 0 "a" 0, .mkdir 0 "a/b"] := by
  rintro ⟨hstates, -⟩
  apply hstates _ (List.prefix_refl _) 4
  · exact ⟨⟨5, some 4, "b", 0, none, 0⟩, by decide +kernel, rfl⟩
  · exact ⟨⟨4, some 3, "a", 1, some ("fs/" ++ display_id 0), 0⟩, by decide +kernel, rfl, rfl⟩

end Database

end marie.persistency
