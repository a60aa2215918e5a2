-- The files of the workspaces and of their sessions. Their tree is the table of the
-- inodes, and what they contain is kept in a store of objects, under the keys of the
-- inodes. A file is written as a whole, when its descriptor is shut down.
import Marie.Persistency.InodeNamespace
import Marie.Persistency.Var

namespace marie.persistency

open Program marie.var

abbrev Bytes := List UInt8

/-- `object_store::ObjectStore`, as far as the files use it: what a call leaves that the store takes.
To delete an object that is missing is no error. A call that the store refuses leaves the objects as
they are. -/
structure ObjectStore (σ : Type) where
  empty : σ
  get : String → σ → Option Bytes
  put : String → Bytes → σ → σ
  delete : String → σ → σ
  get_empty : ∀ key, get key empty = none
  get_put : ∀ key bytes objects other,
    get other (put key bytes objects) = if other = key then some bytes else get other objects
  get_delete : ∀ key objects other,
    get other (delete key objects) = if other = key then none else get other objects

/-- `InMemory`. -/
def in_memory : ObjectStore (String → Option Bytes) where
  empty := fun _ => none
  get key objects := objects key
  put key bytes objects := Function.update objects key (some bytes)
  delete key objects := Function.update objects key none
  get_empty _ := rfl
  get_put key bytes objects other := by
    by_cases h : other = key <;> simp [h]
  get_delete key objects other := by
    by_cases h : other = key <;> simp [h]

inductive FileError
  | Catalog (error : Error)
  /-- `head`, where there is no object. -/
  | NotFound
  /-- `expect`, where a file has no key. -/
  | Panic
  | Unsupported (message : String)
  /-- A call that the store refuses. -/
  | Store
deriving DecidableEq

/-- The table and the objects. -/
structure Disk (σ : Type) where
  table : FsInode
  objects : σ

/-- A `BufWriter` keeps what it is given until it is shut down. Of the parts that it sends before, once
it holds more than its capacity, nothing is seen until then. -/
inductive ObjectDescriptor
  | Read (object_key : String)
  | Write (object_key : String) (buffer : Bytes)
deriving DecidableEq

variable {σ : Type} (store : ObjectStore σ)

/-- The statements of a catalog, on the table of the disk. -/
def sql {α : Type} (m : Sql α) : Program FileError (Disk σ) α := ExceptT.mk fun s =>
  let r := exec m s.table
  (r.1.mapError .Catalog, { s with table := r.2 })

/-! ## A file system -/

structure ObjectFileSystem where
  catalog : PostgresInodeCatalog

namespace ObjectFileSystem

variable (self : ObjectFileSystem)

def mkdir (path : String) : Program FileError (Disk σ) Unit := do
  let _ ← sql (self.catalog.mkdir path)

def ls (path : String) : Program FileError (Disk σ) (List String) := do
  return (← sql (self.catalog.children path)).map (·.1)

/-- `key` is what `create_file` draws, where it is called. -/
def open_file (path : String) (options : OpenOptions) (key : Nat) :
    Program FileError (Disk σ) ObjectDescriptor := do
  let existing ← sql (self.catalog.resolve path)
  let inode ← match existing with
    | some inode =>
      if inode.kind = .File then pure inode
      else throw (.Catalog (.Bail (path ++ " est un dossier")))
    | none =>
      if options.create || options.create_new then sql (self.catalog.create_file path key)
      else throw (.Catalog (.Bail ("fichier introuvable : " ++ path)))
  match inode.object_key with
  | none => throw .Panic
  | some object_key =>
    if options.write || options.append || options.truncate then pure (.Write object_key [])
    else
      match ← Program.asks fun disk : Disk σ => store.get object_key disk.objects with
      | some _ => pure (.Read object_key)
      | none => throw .NotFound

/-- The objects of the keys, one after the other. `refused` is how many of them the store deletes
before it refuses one, and the loop ends. -/
def delete_all : List String → Option Nat → Program FileError (Disk σ) Unit
  | [], _ => pure ()
  | _ :: _, some 0 => throw .Store
  | key :: object_keys, refused => do
    modify fun disk => { disk with objects := store.delete key disk.objects }
    delete_all object_keys (refused.map (· - 1))

/-- The rows are gone before the first object is deleted. -/
def remove (path : String) (refused : Option Nat) : Program FileError (Disk σ) Unit := do
  let object_keys ← sql (self.catalog.remove path)
  delete_all store object_keys refused

end ObjectFileSystem

/-- Of `WorkspaceVfs`. -/
def delete_session_files (workspace_id : WorkspaceId) (session_id : SessionId)
    (refused : Option Nat) : Program FileError (Disk σ) Unit := do
  let catalog ← sql (PostgresInodeCatalog.for_session workspace_id session_id)
  let object_keys ← sql (catalog.remove "/")
  ObjectFileSystem.delete_all store object_keys refused

namespace ObjectDescriptor

def read_to_end : ObjectDescriptor → Program FileError (Disk σ) Bytes
  | .Read object_key => do
    match ← Program.asks fun disk : Disk σ => store.get object_key disk.objects with
    | some bytes => pure bytes
    | none => throw .NotFound
  | .Write _ _ =>
    throw (.Unsupported "lecture non supportée sur un descripteur ouvert en écriture")

def poll_write (buf : Bytes) : ObjectDescriptor → Except FileError ObjectDescriptor
  | .Write object_key buffer => .ok (.Write object_key (buffer ++ buf))
  | .Read _ =>
    .error (.Unsupported "écriture non supportée sur un descripteur ouvert en lecture")

/-- `taken` says if the store takes what is written. -/
def poll_shutdown (taken : Bool) (objects : σ) : ObjectDescriptor → Except FileError Unit × σ
  | .Write object_key buffer =>
    if taken then (.ok (), store.put object_key buffer objects) else (.error .Store, objects)
  | .Read _ => (.ok (), objects)

end ObjectDescriptor

/-- A file is opened for reading, and read to its end, by a store that answers. -/
def read_file (self : ObjectFileSystem) (path : String) : Program FileError (Disk σ) Bytes := do
  (← self.open_file store path { read := true } 0).read_to_end store

/-! ## Runs -/

/-- The file systems are named by their places, in the order they were mounted in, and the
descriptors by theirs. The operations come one after the other: no file is made between the
`resolve` and the `create_file` of an `open_file`. -/
inductive FileOperation
  | for_workspace (workspace_id : WorkspaceId)
  | for_session (workspace_id : WorkspaceId) (session_id : SessionId)
  | mkdir (scope : Nat) (path : String)
  | open_file (scope : Nat) (path : String) (options : OpenOptions) (key : Nat)
  | write (descriptor : Nat) (buf : Bytes)
  | shutdown (descriptor : Nat) (taken : Bool)
  | remove (scope : Nat) (path : String) (refused : Option Nat)
  | delete_session_files (workspace_id : WorkspaceId) (session_id : SessionId)
    (refused : Option Nat)

/-- A descriptor is nothing after it was shut down. -/
structure Files (σ : Type) where
  disk : Disk σ
  catalogs : List PostgresInodeCatalog
  descriptors : List (Option ObjectDescriptor)

namespace Files

def mount (s : Files σ) (open_it : Sql PostgresInodeCatalog) : Files σ :=
  match exec (sql open_it) s.disk with
  | (.ok catalog, disk) => { s with disk, catalogs := s.catalogs ++ [catalog] }
  | (.error _, disk) => { s with disk }

def call {α : Type} (s : Files σ) (scope : Nat)
    (f : ObjectFileSystem → Program FileError (Disk σ) α) : Files σ :=
  match s.catalogs[scope]? with
  | some catalog => { s with disk := (exec (f ⟨catalog⟩) s.disk).2 }
  | none => s

def step (s : Files σ) : FileOperation → Files σ
  | .for_workspace workspace_id => s.mount (PostgresInodeCatalog.for_workspace workspace_id)
  | .for_session workspace_id session_id =>
    s.mount (PostgresInodeCatalog.for_session workspace_id session_id)
  | .mkdir scope path => s.call scope (·.mkdir path)
  | .open_file scope path options key =>
    match s.catalogs[scope]? with
    | some catalog =>
      match exec (ObjectFileSystem.open_file store ⟨catalog⟩ path options key) s.disk with
      | (.ok descriptor, disk) =>
        { s with disk, descriptors := s.descriptors ++ [some descriptor] }
      | (.error _, disk) => { s with disk }
    | none => s
  | .write descriptor buf =>
    { s with
      descriptors := s.descriptors.modify descriptor (Option.map fun open_one =>
        match open_one.poll_write buf with
        | .ok written => written
        | .error _ => open_one) }
  | .shutdown descriptor taken =>
    match s.descriptors[descriptor]? with
    | some (some open_one) =>
      { s with
        disk := { s.disk with objects := (open_one.poll_shutdown store taken s.disk.objects).2 }
        descriptors := s.descriptors.set descriptor none }
    | _ => s
  | .remove scope path refused => s.call scope (·.remove store path refused)
  | .delete_session_files workspace_id session_id refused =>
    { s with disk := (exec (delete_session_files store workspace_id session_id refused) s.disk).2 }

def run (operations : List FileOperation) : Files σ :=
  operations.foldl (step store) ⟨⟨.empty, store.empty⟩, [], []⟩

/-- What is read at a path of a file system. -/
def read (s : Files σ) (scope : Nat) (path : String) : Option (Except FileError Bytes) :=
  s.catalogs[scope]?.map fun catalog =>
    (exec (read_file store ⟨catalog⟩ path) s.disk).1

/-- What is listed at a path of a file system, in no order. -/
def ls (s : Files σ) (scope : Nat) (path : String) : Option (Except FileError (Set String)) :=
  s.catalogs[scope]?.map fun catalog =>
    (exec (ObjectFileSystem.ls ⟨catalog⟩ path) s.disk).1.map fun names => {name | name ∈ names}

end Files

end marie.persistency
