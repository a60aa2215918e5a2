-- The variables as files. A store of values under flat keys is shown as a tree: the
-- segments of a path are joined with dots, and a file is the text of its value.
import Mathlib.Data.Char
import Mathlib.Data.List.Destutter
import Mathlib.Data.List.Lex
import Marie.Basic
import Marie.Lib.Entries
import Marie.Lib.Texts
import Marie.Lib.Utf8

namespace marie.var

open Maps Texts Utf8

abbrev Path := List Char

abbrev Key := List Char

/-- The store behind a `VarStore`, its values in the order of an iteration. -/
abbrev VarStore := Entries Key Value

/-- `serde_json`, on the texts that it reads and writes. -/
structure Json where
  to_vec : Value → Option (List Char)
  from_str : List Char → Option Value

/-! ## Keys -/

def path_to_key (path : Path) : Key :=
  ['.'].intercalate ((path.splitOn '/').filter fun segment => !segment.isEmpty)

def child_name (point key : Key) : Option (List Char) :=
  let rest := if point.isEmpty then some key
    else (List.isPrefixOf? point key).bind (List.isPrefixOf? ['.'])
  match rest with
  | none => none
  | some rest => if rest.isEmpty then none else some ((rest.splitOn '.').head?.getD rest)

/-! ## Values -/

section Values

variable (json : Json)

def decode_value (bytes : List UInt8) : Value :=
  let text := from_utf8_lossy bytes
  (json.from_str (trim text)).getD (.String (String.ofList text))

/-- `unwrap_or_default`. -/
def encode_value : Value → List UInt8
  | .String text => utf8 text.toList
  | other => utf8 ((json.to_vec other).getD [])

end Values

/-! ## The file system -/

structure OpenOptions where
  read : Bool := false
  write : Bool := false
  append : Bool := false
  truncate : Bool := false
  create : Bool := false
  create_new : Bool := false

/-- `data` and `position` are the cursor. The file is flushed to the store when it is shut down. -/
structure VarDescriptor where
  data : List UInt8
  position : Nat
  write : Bool
  key : Key

def mkdir (path : Path) (store : VarStore) : VarStore :=
  let key := path_to_key path
  if (store.find key).isNone then store.insert (key, .Object []) else store

/-- `sort` orders texts by their bytes, as their characters are ordered. -/
def ls (path : Path) (store : VarStore) : List (List Char) :=
  let point := path_to_key path
  let children := (store.entries.map Prod.fst).filterMap (child_name point)
  (children.mergeSort fun a b => decide (a ≤ b)).destutter (· ≠ ·)

def remove (path : Path) (store : VarStore) : VarStore :=
  let key := path_to_key path
  (store.entries.map Prod.fst).foldl
    (fun store existing =>
      if existing = key ∨ key ++ ['.'] <+: existing then store.erase existing else store)
    store

section Files

variable (json : Json)

def open_file (path : Path) (options : OpenOptions) (store : VarStore) :
    Except String VarDescriptor :=
  let key := path_to_key path
  let existing := store.find key
  if existing.isNone && !(options.create || options.create_new || options.write) then
    .error ("variable introuvable : " ++ String.ofList path)
  else
    .ok
      { data := (existing.map (encode_value json)).getD []
        position := 0
        write := options.write || options.append || options.create || options.create_new
        key }

namespace VarDescriptor

/-- A cursor writes over what is there, and fills a gap before its position with zeros. -/
def poll_write (buf : List UInt8) (self : VarDescriptor) : Except String VarDescriptor :=
  if !self.write then .error "écriture non supportée sur un descripteur ouvert en lecture"
  else
    let filled := self.data ++ List.replicate (self.position - self.data.length) 0
    .ok
      { self with
        data := filled.take self.position ++ buf ++ filled.drop (self.position + buf.length)
        position := self.position + buf.length }

def poll_shutdown (self : VarDescriptor) (store : VarStore) : VarStore :=
  if !self.write then store else store.insert (self.key, decode_value json self.data)

end VarDescriptor

/-- A file is opened, written to in these chunks and shut down. -/
def edit (path : Path) (options : OpenOptions) (chunks : List (List UInt8)) (store : VarStore) :
    Except String VarStore := do
  let descriptor ← open_file json path options store
  let descriptor ← chunks.foldlM (fun descriptor buf => descriptor.poll_write buf) descriptor
  .ok (descriptor.poll_shutdown json store)

end Files

end marie.var
