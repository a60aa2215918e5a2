-- What the files are for: one tree of contents. A file holds what the last writer
-- stored that was shut down while the file was there.
import Marie.Persistency.ObjectFiles

namespace marie.persistency

open Program FsInode PathMap marie.var

/-! ## The tree of contents -/

/-- A file holds what was last stored in it, or nothing yet. -/
inductive Node
  | Dir
  | File (content : Option Bytes)

/-- A writer is at the path of its file, or its file was removed. -/
inductive Handle
  | reader
  | writer (path : Option (List String)) (buffer : Bytes)
  | closed

def Handle.detach (p : List String) : Handle → Handle
  | .writer path buffer => .writer (path.filter fun q => ¬ p <+: q) buffer
  | handle => handle

def Handle.write (buf : Bytes) : Handle → Handle
  | .writer path buffer => .writer path (buffer ++ buf)
  | handle => handle

/-- The options ask for a descriptor to write with. -/
def OpenOptions.writes (options : OpenOptions) : Bool :=
  options.write || options.append || options.truncate

/-- The key of a new file. -/
def new_key (key : Nat) : String := "fs/" ++ display_id key

/-- The key that an operation draws. -/
def FileOperation.object_key : FileOperation → Option String
  | .open_file _ _ _ key => some (new_key key)
  | _ => none

structure FileTree where
  tree : PathMap String Node
  scopes : List (Option (List String))
  handles : List Handle

namespace FileTree

def push (s : FileTree) (handle : Handle) : FileTree :=
  { s with handles := s.handles ++ [handle] }

def mount (s : FileTree) (p : List String) : FileTree :=
  { s with tree := s.tree.fill p .Dir, scopes := s.scopes ++ [some p] }

def open_at (s : FileTree) (q : List String) (options : OpenOptions) : FileTree :=
  match s.tree q with
  | some .Dir => s
  | some (.File content) =>
    if OpenOptions.writes options then s.push (.writer (some q) [])
    else if content.isSome then s.push .reader else s
  | none =>
    if options.create || options.create_new then
      let made := { s with tree := (s.tree.fill q.dropLast .Dir).put q (.File none) }
      if OpenOptions.writes options then made.push (.writer (some q) []) else made
    else s

/-- What is at the path and below it is removed, and the files are taken from their writers. -/
def drop (s : FileTree) (p : List String) : FileTree :=
  { tree := s.tree.prune p
    scopes := s.scopes.map fun root => root.filter fun q => ¬ p <+: q
    handles := s.handles.map (·.detach p) }

/-- A change at the path of a file system, if it still has one. -/
def change (s : FileTree) (scope : Nat) (f : List String → FileTree) : FileTree :=
  match s.scopes[scope]? with
  | some (some p) => f p
  | _ => s

def step (s : FileTree) : FileOperation → FileTree
  | .for_workspace workspace_id => s.mount (workspace_path workspace_id)
  | .for_session workspace_id session_id => s.mount (session_path workspace_id session_id)
  | .mkdir scope path => s.change scope fun p =>
    { s with tree := s.tree.fill (p ++ split_path path) .Dir }
  | .open_file scope path options _ =>
    s.change scope fun p => s.open_at (p ++ split_path path) options
  | .write descriptor buf => { s with handles := s.handles.modify descriptor (·.write buf) }
  | .shutdown descriptor taken =>
    match s.handles[descriptor]? with
    | some (.writer (some q) buffer) =>
      { s with
        tree := if taken then s.tree.put q (.File (some buffer)) else s.tree
        handles := s.handles.set descriptor .closed }
    | some (.writer none _) | some .reader =>
      { s with handles := s.handles.set descriptor .closed }
    | _ => s
  | .remove scope path _ => s.change scope fun p => s.drop (p ++ split_path path)
  | .delete_session_files workspace_id session_id _ =>
    { s with tree := s.tree.fill (session_path workspace_id session_id) .Dir }.drop
      (session_path workspace_id session_id)

def run (operations : List FileOperation) : FileTree :=
  operations.foldl step ⟨fun _ => none, [], []⟩

/-- What is read at a path of a file system. -/
def read (s : FileTree) (scope : Nat) (path : String) : Option (Except FileError Bytes) :=
  s.scopes[scope]?.map fun root =>
    match root with
    | none =>
      if split_path path = [] then .error (.Catalog .RowNotFound)
      else .error (.Catalog (.Bail ("fichier introuvable : " ++ path)))
    | some p =>
      match s.tree (p ++ split_path path) with
      | none => .error (.Catalog (.Bail ("fichier introuvable : " ++ path)))
      | some .Dir => .error (.Catalog (.Bail (path ++ " est un dossier")))
      | some (.File none) => .error .NotFound
      | some (.File (some bytes)) => .ok bytes

/-- What is listed at a path of a file system: the names below a directory, and none below a
file. -/
def ls (s : FileTree) (scope : Nat) (path : String) : Option (Except FileError (Set String)) :=
  s.scopes[scope]?.map fun root =>
    match root with
    | none =>
      if split_path path = [] then .ok ∅
      else .error (.Catalog (.Bail ("dossier introuvable : " ++ path)))
    | some p =>
      match s.tree (p ++ split_path path) with
      | none => .error (.Catalog (.Bail ("dossier introuvable : " ++ path)))
      | some _ => .ok {name | (s.tree (p ++ split_path path ++ [name])).isSome}

end FileTree

/-! ## The objects -/

variable {σ : Type} {store : ObjectStore σ}

@[simp] theorem exec_sql {α : Type} (m : Sql α) (disk : Disk σ) : exec (sql m) disk =
    ((exec m disk.table).1.mapError .Catalog, { disk with table := (exec m disk.table).2 }) := rfl

theorem exec_sql_ok {α β : Type} {m : Sql α} {f : α → Program FileError (Disk σ) β}
    {disk : Disk σ} {table : FsInode} {x : α} (h : exec m disk.table = (.ok x, table)) :
    exec (sql m >>= f) disk = exec (f x) { disk with table } := by
  rw [exec_bind, exec_sql, h]
  rfl

theorem exec_sql_error {α β : Type} {m : Sql α} {f : α → Program FileError (Disk σ) β}
    {disk : Disk σ} {table : FsInode} {e : Error} (h : exec m disk.table = (.error e, table)) :
    exec (sql m >>= f) disk = (.error (.Catalog e), { disk with table }) := by
  rw [exec_bind, exec_sql, h]
  rfl

/-- The objects that are left without those of the keys. -/
def without (store : ObjectStore σ) (keys : List String) (objects : σ) : σ :=
  keys.foldl (fun objects key => store.delete key objects) objects

theorem get_without (keys : List String) (objects : σ) (key : String) :
    store.get key (without store keys objects) =
      if key ∈ keys then none else store.get key objects := by
  induction keys generalizing objects with
  | nil => rfl
  | cons first keys ih =>
    rw [without, List.foldl_cons, ← without, ih, store.get_delete]
    by_cases hfirst : key = first <;> by_cases hmem : key ∈ keys <;> simp [hfirst, hmem]

/-- The keys whose objects are deleted, before one is refused. -/
def deleted (keys : List String) (refused : Option Nat) : List String :=
  keys.take (refused.getD keys.length)

theorem deleted_subset {keys : List String} {refused : Option Nat} {key : String}
    (h : key ∈ deleted keys refused) : key ∈ keys := List.mem_of_mem_take h

theorem exec_delete_all (keys : List String) (refused : Option Nat) (disk : Disk σ) :
    (exec (ObjectFileSystem.delete_all store keys refused) disk).2 =
      { disk with objects := without store (deleted keys refused) disk.objects } := by
  induction keys generalizing disk refused with
  | nil =>
    have hnone : deleted [] refused = [] := List.take_nil
    rw [hnone]
    rfl
  | cons key keys ih =>
    have hnext : ∀ rest, exec (modify (fun disk : Disk σ =>
          { disk with objects := store.delete key disk.objects }) >>= fun _ =>
        ObjectFileSystem.delete_all store keys rest) disk =
      exec (ObjectFileSystem.delete_all store keys rest)
        { disk with objects := store.delete key disk.objects } :=
      fun _ => exec_bind_ok (exec_modify _ disk)
    match refused with
    | none =>
      refine (congrArg Prod.snd (hnext none)).trans ((ih none _).trans ?_)
      simp [deleted, without]
    | some 0 => rfl
    | some (n + 1) =>
      refine (congrArg Prod.snd (hnext (some n))).trans ((ih (some n) _).trans ?_)
      simp [deleted, without]

/-! ## What a removal leaves -/

/-- The keys of the files that an operation removes. -/
def Files.freed (s : Files σ) : FileOperation → List String
  | .remove scope path _ =>
    match s.catalogs[scope]? with
    | some catalog => ((exec (catalog.remove path) s.disk.table).1.toOption).getD []
    | none => []
  | .delete_session_files workspace_id session_id _ =>
    let emptied : Sql (List String) := do
      let catalog ← PostgresInodeCatalog.for_session workspace_id session_id
      catalog.remove "/"
    ((exec emptied s.disk.table).1.toOption).getD []
  | _ => []

/-- After how many deletes the store refuses one. -/
def FileOperation.refused : FileOperation → Option Nat
  | .remove _ _ refused | .delete_session_files _ _ refused => refused
  | _ => none

/-- No object of a file that the operation removes is left: each is deleted, or the file was never
stored. -/
def Empties (store : ObjectStore σ) (s : Files σ) (operation : FileOperation) : Prop :=
  ∀ key ∈ s.freed operation, key ∉ deleted (s.freed operation) operation.refused →
    store.get key s.disk.objects = none

/-! ## Opening -/

section Opening

variable (catalog : PostgresInodeCatalog) {path : String} {options : OpenOptions} {key : Nat}
  {disk : Disk σ} {inode : Inode} {object_key : String}

/-- What is made of the key of a file. -/
def descriptor_of (store : ObjectStore σ) (options : OpenOptions) (object_key : String)
    (objects : σ) : Except FileError ObjectDescriptor :=
  if OpenOptions.writes options then .ok (.Write object_key [])
  else if (store.get object_key objects).isSome then .ok (.Read object_key)
  else .error .NotFound

theorem exec_open_file (hkind : inode.kind = .File) (hkey : inode.object_key = some object_key)
    (hresolve : exec (catalog.resolve path) disk.table = (.ok (some inode), disk.table)) :
    exec (ObjectFileSystem.open_file store ⟨catalog⟩ path options key) disk =
      (descriptor_of store options object_key disk.objects, disk) := by
  unfold ObjectFileSystem.open_file descriptor_of OpenOptions.writes
  rw [exec_sql_ok hresolve]
  simp only [hkind, if_true, exec_bind, exec_pure, hkey]
  split
  · rfl
  · cases h : store.get object_key disk.objects <;> simp [h, exec_bind]

theorem exec_open_dir (hkind : inode.kind = .Dir)
    (hresolve : exec (catalog.resolve path) disk.table = (.ok (some inode), disk.table)) :
    exec (ObjectFileSystem.open_file store ⟨catalog⟩ path options key) disk =
      (.error (.Catalog (.Bail (path ++ " est un dossier"))), disk) := by
  unfold ObjectFileSystem.open_file
  rw [exec_sql_ok hresolve]
  simp only [hkind, reduceCtorEq, if_false, exec_bind, exec_throw]

theorem exec_open_missing (hcreate : (options.create || options.create_new) = false)
    (hresolve : exec (catalog.resolve path) disk.table = (.ok none, disk.table)) :
    exec (ObjectFileSystem.open_file store ⟨catalog⟩ path options key) disk =
      (.error (.Catalog (.Bail ("fichier introuvable : " ++ path))), disk) := by
  unfold ObjectFileSystem.open_file
  rw [exec_sql_ok hresolve]
  simp only [hcreate, Bool.false_eq_true, if_false, exec_bind, exec_throw]

theorem exec_open_new {table : FsInode} (hcreate : (options.create || options.create_new) = true)
    (hkey : inode.object_key = some object_key)
    (hresolve : exec (catalog.resolve path) disk.table = (.ok none, disk.table))
    (hmade : exec (catalog.create_file path key) disk.table = (.ok inode, table)) :
    exec (ObjectFileSystem.open_file store ⟨catalog⟩ path options key) disk =
      (descriptor_of store options object_key disk.objects, { disk with table }) := by
  unfold ObjectFileSystem.open_file descriptor_of OpenOptions.writes
  rw [exec_sql_ok hresolve]
  simp only [hcreate, if_true, exec_bind, exec_sql, hmade, Except.mapError, hkey]
  split
  · rfl
  · cases h : store.get object_key disk.objects <;> simp [h, exec_bind]

theorem exec_open_error {e : Error}
    (hresolve : exec (catalog.resolve path) disk.table = (.error e, disk.table)) :
    exec (ObjectFileSystem.open_file store ⟨catalog⟩ path options key) disk =
      (.error (.Catalog e), disk) := by
  unfold ObjectFileSystem.open_file
  exact exec_sql_error hresolve

/-- A file system whose root is gone resolves nothing. -/
theorem exec_resolve_gone (path : String) (h : disk.table.Formed)
    (hgone : disk.table.row catalog.root_id = none) :
    exec (catalog.resolve path) disk.table =
      (if split_path path = [] then .error .RowNotFound else .ok none, disk.table) := by
  rw [exec_resolve, deepest_gone h hgone]
  cases split_path path <;> simp [hgone]

/-- Nothing is opened in it. -/
theorem exec_open_gone (store : ObjectStore σ) (path : String) (options : OpenOptions) (key : Nat)
    (h : disk.table.Formed) (hgone : disk.table.row catalog.root_id = none) :
    ∃ e, exec (ObjectFileSystem.open_file store ⟨catalog⟩ path options key) disk =
      (.error e, disk) := by
  have hresolve := exec_resolve_gone catalog path h hgone
  by_cases hpath : split_path path = []
  · rw [if_pos hpath] at hresolve
    exact ⟨_, exec_open_error catalog hresolve⟩
  · rw [if_neg hpath] at hresolve
    cases hcreate : options.create || options.create_new with
    | false => exact ⟨_, exec_open_missing catalog hcreate hresolve⟩
    | true =>
      refine ⟨.Catalog .ForeignKeyViolation, ?_⟩
      unfold ObjectFileSystem.open_file
      rw [exec_sql_ok hresolve]
      simp only [hcreate, if_true, exec_bind, exec_sql, exec_create_file_gone h hgone key hpath,
        Except.mapError]

end Opening

end marie.persistency
