-- The inodes of the virtual file system: one table `fs_inode`, and the catalogs
-- that read and write it, each below a root of its own.
import Marie.Basic
import Marie.Lib.Levels
import Marie.Lib.Program

namespace marie.persistency

/-- A value of the column `id`, a serial: the table never gives one out twice. -/
abbrev InodeId := Nat

inductive InodeKind
  | Dir
  | File
deriving DecidableEq

structure Inode where
  id : InodeId
  kind : InodeKind
  object_key : Option String
  size : Nat
deriving DecidableEq

inductive Error
  | Bail (text : String)
  /-- `fetch_one`, where there is no row. -/
  | RowNotFound
  /-- An insert whose `parent_id` is the id of no row. -/
  | ForeignKeyViolation
deriving DecidableEq

/-! ## The table -/

structure Row where
  id : InodeId
  parent_id : Option InodeId
  name : String
  kind : Nat
  object_key : Option String
  size : Nat
deriving DecidableEq

/-- The rows, in no order that means something, and the next value of the serial. The repository does
not have the file that makes the table: its columns and keys are those of the queries. A name with
U+0000 is not refused, as a column of type `TEXT` would do. -/
structure FsInode where
  rows : List Row
  next : InodeId

abbrev Sql := Program Error FsInode

namespace FsInode

def empty : FsInode := ⟨[], 1⟩

/-- `SELECT .. WHERE id = $1`. -/
def row (t : FsInode) (id : InodeId) : Option Row := t.rows.find? (·.id = id)

/-- `SELECT .. WHERE parent_id = $1 AND name = $2`. -/
def child (t : FsInode) (parent : InodeId) (name : String) : Option Row :=
  t.rows.find? fun row => row.parent_id = some parent ∧ row.name = name

/-- `SELECT .. WHERE parent_id IS NULL`. -/
def root (t : FsInode) : Option Row := t.rows.find? (·.parent_id = none)

/-- A new row at the end. -/
def add (t : FsInode) (parent_id : Option InodeId) (name : String) (kind : Nat)
    (object_key : Option String) : FsInode :=
  { rows := t.rows ++ [⟨t.next, parent_id, name, kind, object_key, 0⟩], next := t.next + 1 }

/-- The rows with the id and those below them: `WITH RECURSIVE subtree`. It stops after as many
levels as there were ids, since a row is newer than its parent. -/
def subtree (t : FsInode) (id : InodeId) : List Row :=
  Levels.levels (fun row => t.rows.filter (·.parent_id = some row.id)) t.next
    (t.rows.filter (·.id = id))

end FsInode

/-! ## The statements -/

/-- `INSERT .. ON CONFLICT (parent_id, name) DO NOTHING RETURNING id`, of a directory. -/
def insert_dir (parent : InodeId) (name : String) : Sql (Option InodeId) := ExceptT.mk fun t =>
  match t.child parent name with
  | some _ => (.ok none, t)
  | none =>
    match t.row parent with
    | none => (.error .ForeignKeyViolation, t)
    | some _ => (.ok (some t.next), t.add (some parent) name 0 none)

/-- `INSERT .. ON CONFLICT (parent_id, name) DO UPDATE .. RETURNING ..`, of a file. -/
def upsert_file (parent : InodeId) (name object_key : String) : Sql Row := ExceptT.mk fun t =>
  match t.child parent name with
  | some row =>
    let file : Row := { row with kind := 1, object_key := some object_key, size := 0 }
    (.ok file, { t with rows := t.rows.map fun other => if other.id = row.id then file else other })
  | none =>
    match t.row parent with
    | none => (.error .ForeignKeyViolation, t)
    | some _ => (.ok ⟨t.next, some parent, name, 1, some object_key, 0⟩,
        t.add (some parent) name 1 (some object_key))

/-- `INSERT .. ON CONFLICT ((1)) WHERE parent_id IS NULL DO NOTHING RETURNING id`. -/
def insert_root : Sql (Option InodeId) := ExceptT.mk fun t =>
  match t.root with
  | some _ => (.ok none, t)
  | none => (.ok (some t.next), t.add none "" 0 none)

/-- `DELETE .. WHERE id = $1`, where `parent_id` is `ON DELETE CASCADE`. -/
def delete (id : InodeId) : Sql Unit :=
  modify fun t => { t with rows := t.rows.filter (· ∉ t.subtree id) }

/-! ## The helpers -/

/-- The names between the slashes; the empty ones are dropped. -/
def split_path (path : String) : List String :=
  ((path.toList.splitOn '/').filter (· ≠ [])).map String.ofList

def row_to_inode (row : Row) : Inode :=
  { id := row.id, kind := if row.kind = 1 then .File else .Dir, object_key := row.object_key,
    size := row.size }

/-- `fetch_one`. -/
def fetch_one (query : FsInode → Option Row) : Sql Row := do
  match ← Program.asks query with
  | some row => pure row
  | none => throw .RowNotFound

def ensure_global_root : Sql InodeId := do
  match ← Program.asks FsInode.root with
  | some row => pure row.id
  | none =>
    match ← insert_root with
    | some id => pure id
    | none => return (← fetch_one FsInode.root).id

def ensure_child_dir (parent : InodeId) (name : String) : Sql InodeId := do
  match ← insert_dir parent name with
  | some id => pure id
  | none => return (← fetch_one (·.child parent name)).id

def ensure_path (root : InodeId) (segments : List String) : Sql InodeId :=
  segments.foldlM ensure_child_dir root

/-! ## A catalog -/

structure PostgresInodeCatalog where
  root_id : InodeId
deriving DecidableEq

namespace PostgresInodeCatalog

def for_workspace (workspace_id : WorkspaceId) : Sql PostgresInodeCatalog := do
  let global_root ← ensure_global_root
  let root_id ← ensure_path global_root ["workspaces", display_id workspace_id.id]
  pure { root_id }

def for_session (workspace_id : WorkspaceId) (session_id : SessionId) :
    Sql PostgresInodeCatalog := do
  let global_root ← ensure_global_root
  let root_id ← ensure_path global_root
    ["workspaces", display_id workspace_id.id, "sessions", display_id session_id.id]
  pure { root_id }

variable (self : PostgresInodeCatalog)

/-- The loop of `walk`: one `SELECT` for each segment. -/
def walk_from (current : InodeId) : List String → Sql (Option InodeId)
  | [] => pure (some current)
  | segment :: segments => do
    match ← Program.asks (·.child current segment) with
    | some row => walk_from row.id segments
    | none => pure none

def walk (path : String) : Sql (Option InodeId) := walk_from self.root_id (split_path path)

def load (id : InodeId) : Sql Inode := do return row_to_inode (← fetch_one (·.row id))

def resolve_parent (path : String) : Sql (InodeId × String) := do
  let segments := split_path path
  match segments.getLast? with
  | none => throw (.Bail "chemin vide : la racine du scope existe déjà")
  | some leaf =>
    let current ← segments.dropLast.foldlM ensure_child_dir self.root_id
    pure (current, leaf)

def resolve (path : String) : Sql (Option Inode) := do
  match ← self.walk path with
  | some id => return some (← load id)
  | none => pure none

def children (path : String) : Sql (List (String × Inode)) := do
  match ← self.walk path with
  | none => throw (.Bail ("dossier introuvable : " ++ path))
  | some id =>
    let rows ← Program.asks fun t => t.rows.filter (·.parent_id = some id)
    pure (rows.map fun row => (row.name, row_to_inode row))

def mkdir (path : String) : Sql Inode := do
  let (parent, leaf) ← self.resolve_parent path
  let id ← ensure_child_dir parent leaf
  load id

/-- `key` is what `ids.next_id` gives. -/
def create_file (path : String) (key : Nat) : Sql Inode := do
  let (parent, leaf) ← self.resolve_parent path
  let object_key := "fs/" ++ display_id key
  return row_to_inode (← upsert_file parent leaf object_key)

def remove (path : String) : Sql (List String) := do
  match ← self.walk path with
  | none => pure []
  | some id =>
    let rows ← Program.asks fun t =>
      (t.subtree id).filter fun row => row.kind = 1 ∧ row.object_key ≠ none
    delete id
    pure (rows.filterMap (·.object_key))

end PostgresInodeCatalog

end marie.persistency
