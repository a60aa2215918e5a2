-- The inodes, their objects and the descriptors show the tree of contents, whatever
-- is done. An object is that of a file, but where a writer stores too late, and where
-- the store does not delete it.
import Marie.Persistency.FileTree

namespace marie.persistency

open Program FsInode PathMap marie.var

variable {σ : Type} {store : ObjectStore σ}

/-- What an inode is as a node: a file has the content of its object. -/
def Entry.node (store : ObjectStore σ) (objects : σ) (entry : Entry) : Node :=
  match entry.kind with
  | .Dir => .Dir
  | .File => .File (entry.object_key.bind fun key => store.get key objects)

/-- A writer has the key of the file that is at its path, and of no other. -/
def Follows (drawn : Set String) (m : Tree) : Option ObjectDescriptor → Handle → Prop
  | none, .closed => True
  | some (.Read _), .reader => True
  | some (.Write key buffer), .writer path buffer' =>
    key ∈ drawn ∧ buffer = buffer' ∧ ∀ p, m p = some (.file key) ↔ path = some p
  | _, _ => False

/-- The inodes, their objects and the descriptors show the tree of contents. No two files have one
key, and every key that is used was drawn. -/
structure Contents (store : ObjectStore σ) (drawn : Set String) (s : Files σ) (a : FileTree)
    (m : Tree) : Prop where
  shows : Refines ⟨s.disk.table, s.catalogs⟩ ⟨m, a.scopes⟩
  nodes : a.tree = m.map (Entry.node store s.disk.objects)
  plain : ∀ p entry, m p = some entry → entry = .dir ∨ ∃ key ∈ drawn, entry = .file key
  one_key : ∀ p q key, m p = some (.file key) → m q = some (.file key) → p = q
  handles : List.Forall₂ (Follows drawn m) s.descriptors a.handles
  objects : ∀ key, store.get key s.disk.objects ≠ none → key ∈ drawn

/-- Every object is that of a file. -/
def Tidy (store : ObjectStore σ) (objects : σ) (m : Tree) : Prop :=
  ∀ key, store.get key objects ≠ none → ∃ p, m p = some (.file key)

/-- The tree of contents goes on, and no object loses its file. -/
def Leads (store : ObjectStore σ) (drawn : Set String) (s : Files σ) (m : Tree) (s' : Files σ)
    (a' : FileTree) : Prop :=
  ∃ m', Contents store drawn s' a' m' ∧
    (Tidy store s.disk.objects m → Tidy store s'.disk.objects m')

/-- What an operation stores is of a file that is there. -/
def Timely (s : Files σ) (m : Tree) (operation : FileOperation) : Prop :=
  ∀ descriptor key buffer, operation = .shutdown descriptor true →
    s.descriptors[descriptor]? = some (some (.Write key buffer)) → ∃ p, m p = some (.file key)

variable {drawn drawn' : Set String} {s : Files σ} {a : FileTree} {m m' : Tree} {p q : List String}
  {key path : String} {disk : Disk σ} {catalogs : List PostgresInodeCatalog}
  {scopes : List (Option (List String))} {table : FsInode}

@[simp] theorem dir_ne_file : Entry.dir ≠ .file key := by
  simp [Entry.dir, Entry.file]

@[simp] theorem file_inj {other : String} : Entry.file key = .file other ↔ key = other := by
  simp [Entry.file]

/-- New directories are no files. -/
theorem fill_eq_file : m.fill q .dir p = some (.file key) ↔ m p = some (.file key) := by
  unfold fill
  split
  · cases m p <;> simp
  · rfl

theorem of_fill_eq_some {entry : Entry} (h : m.fill q .dir p = some entry) :
    entry = .dir ∨ m p = some entry := by
  unfold fill at h
  split at h
  · cases hp : m p with
    | none =>
      rw [hp] at h
      exact .inl (Option.some.inj h).symm
    | some old =>
      rw [hp] at h
      exact .inr h
  · exact .inr h

/-- A new file, and the files that there were. -/
theorem create_eq_file {r : List String} {other : String} (hfree : m q = none) :
    (m.fill r .dir).put q (.file key) p = some (.file other) ↔
      p = q ∧ key = other ∨ m p = some (.file other) := by
  by_cases hp : p = q
  · subst hp
    simp [hfree]
  · rw [put_of_ne hp, fill_eq_file]
    simp [hp]

theorem prune_eq_some {entry : Entry} :
    m.prune q p = some entry ↔ m p = some entry ∧ ¬ q <+: p := by
  unfold prune
  split <;> simp_all

theorem tidy_fill {objects : σ} (h : Tidy store objects m) :
    Tidy store objects (m.fill q .dir) := by
  intro key hkey
  obtain ⟨p, hp⟩ := h key hkey
  exact ⟨p, fill_eq_file.mpr hp⟩

theorem tidy_create {objects : σ} {r : List String} (hfree : m q = none)
    (h : Tidy store objects m) :
    Tidy store objects ((m.fill r .dir).put q (.file key)) := by
  intro other hother
  obtain ⟨p, hp⟩ := h other hother
  exact ⟨p, (create_eq_file hfree).mpr (.inr hp)⟩

theorem Follows.congr {descriptor : Option ObjectDescriptor} {handle : Handle}
    (h : Follows drawn m descriptor handle) (hdrawn : ∀ key ∈ drawn, key ∈ drawn')
    (hfiles : ∀ key ∈ drawn, ∀ p, m' p = some (.file key) ↔ m p = some (.file key)) :
    Follows drawn' m' descriptor handle := by
  cases descriptor with
  | none => cases handle <;> exact h
  | some descriptor =>
    cases descriptor with
    | Read key => cases handle <;> exact h
    | Write key buffer =>
      cases handle with
      | writer path buffer' =>
        exact ⟨hdrawn key h.1, h.2.1, fun p => (hfiles key h.1 p).trans (h.2.2 p)⟩
      | reader => exact h
      | closed => exact h

/-- A file that is removed is taken from its writers. -/
theorem Follows.detach {descriptor : Option ObjectDescriptor} {handle : Handle}
    (h : Follows drawn m descriptor handle) (q : List String) :
    Follows drawn (m.prune q) descriptor (handle.detach q) := by
  cases descriptor with
  | none => cases handle <;> exact h
  | some descriptor =>
    cases descriptor with
    | Read key => cases handle <;> exact h
    | Write key buffer =>
      cases handle with
      | writer path buffer' =>
        refine ⟨h.1, h.2.1, fun p => ?_⟩
        rw [prune_eq_some, h.2.2 p, Option.filter_eq_some_iff]
        simp
      | reader => exact h
      | closed => exact h

@[simp] theorem node_file (objects : σ) :
    (Entry.file key).node store objects = .File (store.get key objects) := rfl

namespace Contents

/-- Directories are made, of which the files know nothing. -/
theorem fill (h : Contents store drawn s a m)
    (hshows : Refines ⟨table, catalogs⟩ ⟨m.fill q .dir, scopes⟩) :
    Contents store drawn { s with disk := { s.disk with table }, catalogs }
      { a with tree := a.tree.fill q .Dir, scopes } (m.fill q .dir) where
  shows := hshows
  nodes := by
    simp only [h.nodes, map_fill]
    rfl
  plain := by
    intro p entry hp
    rcases of_fill_eq_some hp with rfl | hp
    · exact .inl rfl
    · exact h.plain p entry hp
  one_key := by
    intro p p' key hp hp'
    exact h.one_key p p' key (fill_eq_file.mp hp) (fill_eq_file.mp hp')
  handles := h.handles.imp fun _ _ hfollows =>
    hfollows.congr (fun _ hkey => hkey) fun _ _ _ => fill_eq_file
  objects := h.objects

/-- The key of a file that is left is not among those of the files that were removed. -/
theorem key_of_kept (h : Contents store drawn s a m) (hp : m p = some (.file key)) :
    (∃ r, q <+: r ∧ m r = some (.file key)) ↔ q <+: p := by
  constructor
  · rintro ⟨r, hbelow, hr⟩
    rwa [h.one_key p r key hp hr]
  · intro hbelow
    exact ⟨p, hbelow, hp⟩

/-- The objects that are left are those of files exactly when no object of a file that was removed
is left. -/
theorem tidy_drop (h : Contents store drawn s a m) {keys : List String} {refused : Option Nat}
    (hkeys : ∀ key, key ∈ keys ↔ ∃ r, q <+: r ∧ m r = some (.file key))
    (htidy : Tidy store s.disk.objects m) :
    Tidy store (without store (deleted keys refused) s.disk.objects) (m.prune q) ↔
      ∀ key ∈ keys, key ∉ deleted keys refused → store.get key s.disk.objects = none := by
  constructor
  · intro hafter key hkey hleft
    by_contra hobject
    obtain ⟨p, hp⟩ := hafter key (by rwa [get_without, if_neg hleft])
    obtain ⟨hfile, hbeside⟩ := prune_eq_some.mp hp
    exact hbeside ((h.key_of_kept hfile).mp ((hkeys key).mp hkey))
  · intro hempties key hkey
    rw [get_without] at hkey
    split at hkey
    · exact absurd rfl hkey
    · rename_i hleft
      obtain ⟨p, hp⟩ := htidy key hkey
      refine ⟨p, prune_eq_some.mpr ⟨hp, fun hbelow => ?_⟩⟩
      exact hkey (hempties key ((hkeys key).mpr ⟨p, hbelow, hp⟩) hleft)

/-- What is below a path is removed, and of the objects of its files those that the store
deletes. -/
theorem drop (h : Contents store drawn s a m) {keys : List String} {refused : Option Nat}
    (hkeys : ∀ key, key ∈ keys ↔ ∃ r, q <+: r ∧ m r = some (.file key))
    (hshows : Refines ⟨table, s.catalogs⟩
      ⟨m.prune q, a.scopes.map fun root => root.filter fun p => ¬ q <+: p⟩) :
    Contents store drawn
      { s with disk := { table, objects := without store (deleted keys refused) s.disk.objects } }
      (a.drop q) (m.prune q) where
  shows := hshows
  nodes := by
    funext p
    change a.tree.prune q p = ((m.prune q).map _) p
    rw [h.nodes, map]
    by_cases hbelow : q <+: p
    · rw [prune_below hbelow, prune_below hbelow, Option.map_none]
    · rw [prune_beside hbelow, prune_beside hbelow, map]
      cases hp : m p with
      | none => rfl
      | some entry =>
        obtain rfl | ⟨key, -, rfl⟩ := h.plain p entry hp
        · rfl
        · rw [Option.map_some, Option.map_some, node_file, node_file, get_without, if_neg]
          intro hdeleted
          exact hbelow ((h.key_of_kept hp).mp ((hkeys key).mp (deleted_subset hdeleted)))
  plain := by
    intro p entry hp
    exact h.plain p entry (prune_eq_some.mp hp).1
  one_key := by
    intro p p' key hp hp'
    exact h.one_key p p' key (prune_eq_some.mp hp).1 (prune_eq_some.mp hp').1
  handles := by
    change List.Forall₂ _ s.descriptors (a.handles.map _)
    rw [List.forall₂_map_right_iff]
    exact h.handles.imp fun _ _ hfollows => hfollows.detach q
  objects := by
    intro key hkey
    rw [get_without] at hkey
    split at hkey
    · exact absurd rfl hkey
    · exact h.objects key hkey

theorem drawn_of_file (h : Contents store drawn s a m) (hp : m p = some (.file key)) :
    key ∈ drawn := by
  rcases h.plain p _ hp with hdir | ⟨other, hother, heq⟩
  · exact absurd hdir.symm dir_ne_file
  · exact file_inj.mp heq ▸ hother

theorem drawn_of_put (h : Contents store drawn s a m) (hkey : key ∈ drawn) {buffer : Bytes} :
    ∀ other, store.get other (store.put key buffer s.disk.objects) ≠ none → other ∈ drawn := by
  intro other hother
  rw [store.get_put] at hother
  split at hother
  · rename_i heq
    exact heq ▸ hkey
  · exact h.objects other hother

/-- A new file, under a key that was not drawn before. -/
theorem create (h : Contents store drawn s a m) (hfree : m q = none) (hkey : key ∉ drawn)
    (hshows : Refines ⟨table, s.catalogs⟩
      ⟨(m.fill q.dropLast .dir).put q (.file key), a.scopes⟩) :
    Contents store (insert key drawn) { s with disk := { s.disk with table } }
      { a with tree := (a.tree.fill q.dropLast .Dir).put q (.File none) }
      ((m.fill q.dropLast .dir).put q (.file key)) where
  shows := hshows
  nodes := by
    have hnone : store.get key s.disk.objects = none := by
      by_contra hsome
      exact hkey (h.objects key hsome)
    simp only [h.nodes, map_put, map_fill, node_file, hnone]
    rfl
  plain := by
    intro p entry hp
    by_cases hpq : p = q
    · subst hpq
      rw [put_self] at hp
      exact .inr ⟨key, .inl rfl, (Option.some.inj hp).symm⟩
    · rw [put_of_ne hpq] at hp
      rcases of_fill_eq_some hp with rfl | hp
      · exact .inl rfl
      · rcases h.plain p entry hp with rfl | ⟨other, hother, rfl⟩
        · exact .inl rfl
        · exact .inr ⟨other, .inr hother, rfl⟩
  one_key := by
    -- the new key is the key of no other file
    have hnew : ∀ p, m p ≠ some (.file key) := fun p hp => hkey (h.drawn_of_file hp)
    intro p p' other hp hp'
    rcases (create_eq_file hfree).mp hp with ⟨rfl, rfl⟩ | hold <;>
      rcases (create_eq_file hfree).mp hp' with ⟨rfl, hother⟩ | hold'
    · rfl
    · exact absurd hold' (hnew p')
    · exact absurd (hother ▸ hold) (hnew p)
    · exact h.one_key p p' other hold hold'
  handles := by
    apply h.handles.imp
    intro descriptor handle hfollows
    refine hfollows.congr (fun other hother => .inr hother) fun other hother p => ?_
    have hne : key ≠ other := fun heq => hkey (heq ▸ hother)
    simp [create_eq_file hfree, hne]
  objects := fun other hother => .inr (h.objects other hother)

/-- What a writer stores, seen in the nodes. -/
theorem node_put (h : Contents store drawn s a m) (buffer : Bytes) (p : List String) :
    (m.map (Entry.node store (store.put key buffer s.disk.objects))) p =
      if m p = some (.file key) then some (.File (some buffer)) else a.tree p := by
  rw [h.nodes, map, map]
  cases hp : m p with
  | none => simp
  | some entry =>
    obtain rfl | ⟨other, -, rfl⟩ := h.plain p entry hp
    · simp
      rfl
    · by_cases hkey : other = key <;> simp [store.get_put, hkey]

/-- What a writer stores is in its file, as long as that is there. -/
theorem store_at (h : Contents store drawn s a m) (hq : m q = some (.file key)) (buffer : Bytes) :
    Contents store drawn
      { s with disk := { s.disk with objects := store.put key buffer s.disk.objects } }
      { a with tree := a.tree.put q (.File (some buffer)) } m where
  shows := h.shows
  nodes := by
    funext p
    rw [h.node_put]
    change a.tree.put q _ p = _
    by_cases hpq : p = q
    · rw [hpq, put_self, if_pos hq]
    · rw [put_of_ne hpq, if_neg fun hp => hpq (h.one_key p q key hp hq)]
  plain := h.plain
  one_key := h.one_key
  handles := h.handles
  objects := h.drawn_of_put (h.drawn_of_file hq)

/-- What is stored after the file was removed is in no file. -/
theorem store_nowhere (h : Contents store drawn s a m) (hkey : key ∈ drawn)
    (hnone : ∀ q, m q ≠ some (.file key)) (buffer : Bytes) :
    Contents store drawn
      { s with disk := { s.disk with objects := store.put key buffer s.disk.objects } } a m where
  shows := h.shows
  nodes := by
    funext p
    rw [h.node_put, if_neg (hnone p)]
  plain := h.plain
  one_key := h.one_key
  handles := h.handles
  objects := h.drawn_of_put hkey

/-! ### The descriptors -/

theorem push (h : Contents store drawn s a m) {descriptor : ObjectDescriptor} {handle : Handle}
    (hfollows : Follows drawn m (some descriptor) handle) :
    Contents store drawn { s with descriptors := s.descriptors ++ [some descriptor] }
      (a.push handle) m :=
  { h with handles := Pointwise.concat h.handles hfollows }

/-- The descriptor that a file is opened with. -/
theorem push_writer (h : Contents store drawn s a m) (hq : m q = some (.file key)) :
    Contents store drawn { s with descriptors := s.descriptors ++ [some (.Write key [])] }
      (a.push (.writer (some q) [])) m := by
  apply h.push
  refine ⟨h.drawn_of_file hq, rfl, fun p => ?_⟩
  constructor
  · intro hp
    rw [h.one_key p q key hp hq]
  · rintro ⟨⟩
    exact hq

theorem handle_cases (h : Contents store drawn s a m) (descriptor : Nat) :
    s.descriptors[descriptor]? = none ∧ a.handles[descriptor]? = none ∨
      ∃ x handle, s.descriptors[descriptor]? = some x ∧ a.handles[descriptor]? = some handle ∧
        Follows drawn m x handle :=
  Pointwise.getElem?_cases h.handles descriptor

theorem mono (h : Contents store drawn s a m) (hdrawn : ∀ key ∈ drawn, key ∈ drawn') :
    Contents store drawn' s a m where
  shows := h.shows
  nodes := h.nodes
  plain := by
    intro p entry hp
    rcases h.plain p entry hp with hdir | ⟨key, hkey, hfile⟩
    · exact .inl hdir
    · exact .inr ⟨key, hdrawn key hkey, hfile⟩
  one_key := h.one_key
  handles := h.handles.imp fun _ _ hfollows => hfollows.congr hdrawn fun _ _ _ => Iff.rfl
  objects := fun key hkey => hdrawn key (h.objects key hkey)

theorem inodes (h : Contents store drawn s a m) : Shows s.disk.table m := h.shows.shows

/-- A file system was not mounted, or is at its path, or its root is gone. -/
theorem scope_cases (h : Contents store drawn s a m) (scope : Nat) :
    (s.catalogs[scope]? = none ∧ a.scopes[scope]? = none) ∨
      (∃ p dir, s.catalogs[scope]? = some ⟨dir.id⟩ ∧ a.scopes[scope]? = some (some p) ∧
        s.disk.table.Place p dir) ∨
      ∃ catalog, s.catalogs[scope]? = some catalog ∧ a.scopes[scope]? = some none ∧
        s.disk.table.row catalog.root_id = none := by
  rcases h.shows.scope_cases scope with hnone | ⟨⟨id⟩, root, hcatalog, hroot, hstands⟩
  · exact .inl hnone
  · cases root with
    | none => exact .inr (.inr ⟨⟨id⟩, hcatalog, hroot, hstands.1⟩)
    | some p =>
      obtain ⟨dir, hdir, rfl⟩ := hstands
      exact .inr (.inl ⟨p, dir, hcatalog, hroot, hdir⟩)

/-! ### The operations -/

theorem resolve_cases {t : FsInode} {dir : Row} (h : Shows t m) (hdir : t.Place p dir)
    (path : String) :
    (∃ row, m (p ++ split_path path) = some row.entry ∧
      exec (PostgresInodeCatalog.resolve ⟨dir.id⟩ path) t = (.ok (some (row_to_inode row)), t)) ∨
      m (p ++ split_path path) = none ∧
        exec (PostgresInodeCatalog.resolve ⟨dir.id⟩ path) t = (.ok none, t) := by
  rw [exec_resolve]
  rcases h.deepest_cases hdir (split_path path) with ⟨row, hrow, hdeep⟩ | ⟨hnone, _, _, _, hdeep⟩
  · left
    refine ⟨row, h.at_place hrow, ?_⟩
    simp only [hdeep, h.row_of_place hrow]
  · right
    exact ⟨hnone, by simp only [hdeep]⟩

/-- A file that is there is opened. -/
theorem open_found (h : Contents store drawn s a m) (options : OpenOptions) {object_key : String}
    (hfile : m q = some (.file object_key)) :
    Contents store drawn
      (match descriptor_of store options object_key s.disk.objects with
        | .ok descriptor => { s with descriptors := s.descriptors ++ [some descriptor] }
        | .error _ => s)
      (if OpenOptions.writes options then a.push (.writer (some q) [])
        else if (store.get object_key s.disk.objects).isSome then a.push .reader else a) m := by
  unfold descriptor_of
  cases hwrites : OpenOptions.writes options with
  | true => exact h.push_writer hfile
  | false =>
    cases hstored : store.get object_key s.disk.objects with
    | some bytes =>
      simp only [Bool.false_eq_true, if_false, Option.isSome_some, if_true]
      exact h.push trivial
    | none => exact h

/-- A new file below the root of a file system. -/
theorem create_file (h : Contents store drawn s a m) {scope key : Nat} {dir : Row}
    (hcatalog : s.catalogs[scope]? = some ⟨dir.id⟩) (hroot : a.scopes[scope]? = some (some p))
    (hdir : s.disk.table.Place p dir) (hnone : m (p ++ split_path path) = none)
    (hkey : new_key key ∉ drawn) : ∃ inode t',
    exec (PostgresInodeCatalog.create_file ⟨dir.id⟩ path key) s.disk.table = (.ok inode, t') ∧
      inode.entry = .file (new_key key) ∧
      Contents store (insert (new_key key) drawn) { s with disk := { s.disk with table := t' } }
        { a with
          tree := (a.tree.fill (p ++ split_path path).dropLast .Dir).put (p ++ split_path path)
            (.File none) }
        ((m.fill (p ++ split_path path).dropLast .dir).put (p ++ split_path path)
          (.file (new_key key))) := by
  have hpath : split_path path ≠ [] := by
    intro hnil
    rw [hnil, List.append_nil] at hnone
    exact h.inodes.ne_none hdir hnone
  have hanswer := (h.inodes.create_file_at hdir path key).1
  have hstep := h.shows.step (.create_file scope path key)
  simp only [Database.step, Database.call, Namespace.step, Namespace.change, hcatalog, hroot,
    if_neg hpath] at hstep
  rw [PostgresInodeCatalog.answer, answer_at, if_neg hpath] at hanswer
  rcases hexec : exec (PostgresInodeCatalog.create_file ⟨dir.id⟩ path key) s.disk.table with
    ⟨e | inode, t'⟩
  · simp [hexec, Answer.of] at hanswer
  · rw [hexec] at hstep hanswer
    rw [← List.dropLast_append_of_ne_nil hpath] at hstep
    have hentry : inode.entry = .file (new_key key) := by
      simpa [Answer.of, new_key] using hanswer
    exact ⟨inode, t', rfl, hentry, h.create hnone hkey hstep⟩

theorem open_file (h : Contents store drawn s a m) (scope : Nat) (path : String)
    (options : OpenOptions) (key : Nat) (hkey : new_key key ∉ drawn) :
    Leads store (insert (new_key key) drawn) s m
      (s.step store (.open_file scope path options key))
      (a.step (.open_file scope path options key)) := by
  have hsame : Contents store (insert (new_key key) drawn) s a m := h.mono fun _ => .inr
  simp only [Files.step, FileTree.step, FileTree.change]
  rcases h.scope_cases scope with
    ⟨hcatalog, hroot⟩ | ⟨p, dir, hcatalog, hroot, hdir⟩ | ⟨catalog, hcatalog, hroot, hgone⟩
  · rw [hcatalog, hroot]
    exact ⟨m, hsame, id⟩
  · rw [hcatalog, hroot]
    rcases resolve_cases h.inodes hdir path with ⟨row, hrow, hresolve⟩ | ⟨hnone, hresolve⟩
    · have hnode : a.tree (p ++ split_path path) =
          some (row.entry.node store s.disk.objects) := by
        rw [h.nodes, map, hrow, Option.map_some]
      rcases h.plain _ _ hrow with hentry | ⟨object_key, -, hentry⟩
      · have hkind : (row_to_inode row).kind = .Dir := congrArg Entry.kind hentry
        have hdirnode : a.tree (p ++ split_path path) = some .Dir := by
          rw [hnode, hentry]
          rfl
        simp only [exec_open_dir ⟨dir.id⟩ hkind hresolve, FileTree.open_at, hdirnode]
        exact ⟨m, hsame, id⟩
      · have hkind : (row_to_inode row).kind = .File := congrArg Entry.kind hentry
        have hobject : (row_to_inode row).object_key = some object_key :=
          congrArg Entry.object_key hentry
        rw [hentry] at hrow hnode
        have hopen := hsame.open_found options hrow
        simp only [exec_open_file ⟨dir.id⟩ hkind hobject hresolve, FileTree.open_at,
          hnode, node_file]
        cases hdescriptor : descriptor_of store options object_key s.disk.objects <;>
          rw [hdescriptor] at hopen <;> exact ⟨m, hopen, id⟩
    · have hnode : a.tree (p ++ split_path path) = none := by
        rw [h.nodes, map, hnone, Option.map_none]
      cases hcreate : options.create || options.create_new with
      | false =>
        simp only [exec_open_missing ⟨dir.id⟩ hcreate hresolve, FileTree.open_at, hnode,
          hcreate, Bool.false_eq_true, if_false]
        exact ⟨m, hsame, id⟩
      | true =>
        obtain ⟨inode, t', hmade, hentry, hcontents⟩ := h.create_file hcatalog hroot hdir hnone hkey
        have hobject : inode.object_key = some (new_key key) := congrArg Entry.object_key hentry
        have hopen := hcontents.open_found options (q := p ++ split_path path)
          (put_self ..)
        have hempty : store.get (new_key key) s.disk.objects = none := by
          by_contra hsome
          exact hkey (h.objects _ hsome)
        simp only [exec_open_new ⟨dir.id⟩ hcreate hobject hresolve hmade,
          FileTree.open_at, hnode, hcreate, if_true]
        simp only [hempty, Option.isSome_none, Bool.false_eq_true, if_false] at hopen
        cases hdescriptor : descriptor_of store options (new_key key) s.disk.objects <;>
          rw [hdescriptor] at hopen <;> exact ⟨_, hopen, tidy_create hnone⟩
  · rw [hcatalog, hroot]
    obtain ⟨e, hexec⟩ := exec_open_gone catalog store path options key h.inodes.formed hgone
    simp only [hexec]
    exact ⟨m, hsame, id⟩

theorem mount (h : Contents store drawn s a m) (segments : List String) :
    Contents store drawn (s.mount (open_at segments)) (a.mount segments)
      (m.fill segments .dir) := by
  obtain ⟨t', row, hexec, -⟩ := h.inodes.exec_open_at segments
  have hopen := h.shows.open_scope segments
  unfold Database.open_catalog at hopen
  rw [hexec] at hopen
  unfold Files.mount
  rw [exec_sql, hexec]
  exact h.fill hopen

theorem mount_leads (h : Contents store drawn s a m) (segments : List String) :
    Leads store drawn s m (s.mount (open_at segments)) (a.mount segments) := by
  have hobjects : (s.mount (open_at segments)).disk.objects = s.disk.objects := by
    unfold Files.mount
    rw [exec_sql]
    cases (exec (open_at segments) s.disk.table).1 <;> rfl
  refine ⟨_, h.mount segments, ?_⟩
  rw [hobjects]
  exact tidy_fill

theorem exec_mkdir_disk (catalog : PostgresInodeCatalog) (disk : Disk σ) :
    (exec (ObjectFileSystem.mkdir ⟨catalog⟩ path) disk).2 =
      { disk with table := (exec (catalog.mkdir path) disk.table).2 } := by
  unfold ObjectFileSystem.mkdir
  rw [exec_bind, exec_sql]
  cases (exec (catalog.mkdir path) disk.table).1 <;> rfl

theorem exec_remove_disk {keys : List String} {catalog : PostgresInodeCatalog}
    (hexec : exec (catalog.remove path) disk.table = (.ok keys, table)) (refused : Option Nat) :
    (exec (ObjectFileSystem.remove store ⟨catalog⟩ path refused) disk).2 =
      ⟨table, without store (deleted keys refused) disk.objects⟩ := by
  unfold ObjectFileSystem.remove
  rw [exec_sql_ok hexec, exec_delete_all]

theorem mkdir (h : Contents store drawn s a m) (scope : Nat) (path : String) :
    Leads store drawn s m (s.step store (.mkdir scope path)) (a.step (.mkdir scope path)) := by
  have hstep := h.shows.step (.mkdir scope path)
  simp only [Files.step, Files.call, FileTree.step, FileTree.change]
  simp only [Database.step, Database.call, Namespace.step, Namespace.change] at hstep
  rcases h.scope_cases scope with
    ⟨hcatalog, hroot⟩ | ⟨p, dir, hcatalog, hroot, hdir⟩ | ⟨catalog, hcatalog, hroot, hgone⟩
  · rw [hcatalog, hroot]
    exact ⟨m, h, id⟩
  · simp only [hcatalog, hroot] at hstep ⊢
    rw [exec_mkdir_disk]
    exact ⟨_, h.fill hstep, tidy_fill⟩
  · have hsame : (exec (catalog.mkdir path) s.disk.table).2 = s.disk.table := by
      by_cases hpath : split_path path = []
      · rw [PostgresInodeCatalog.exec_mkdir_empty hpath]
      · rw [exec_mkdir_gone h.inodes.formed hgone hpath]
    simp only [hcatalog, hroot, exec_mkdir_disk, hsame]
    exact ⟨m, h, id⟩

/-- The keys of the files that a removal takes away. -/
theorem keys_of_remove (h : Contents store drawn s a m) {dir : Row} (hdir : s.disk.table.Place p dir)
    (path : String) : ∃ keys t',
    exec (PostgresInodeCatalog.remove ⟨dir.id⟩ path) s.disk.table = (.ok keys, t') ∧
      ∀ key, key ∈ keys ↔ ∃ r, p ++ split_path path <+: r ∧ m r = some (.file key) := by
  have hanswer := h.inodes.remove_at hdir path
  rw [PostgresInodeCatalog.answer, answer_at] at hanswer
  rcases hexec : exec (PostgresInodeCatalog.remove ⟨dir.id⟩ path) s.disk.table with ⟨e | keys, t'⟩
  · simp [hexec, Answer.of] at hanswer
  · refine ⟨keys, t', rfl, fun key => ?_⟩
    rw [hexec] at hanswer
    simp only [Answer.of, Answer.keys.injEq] at hanswer
    have hmem : key ∈ keys ↔ _ := Set.ext_iff.mp hanswer key
    rw [hmem]
    constructor
    · rintro ⟨r, entry, hbelow, hr, hkey⟩
      rcases h.plain r entry hr with rfl | ⟨other, -, rfl⟩
      · simp [Entry.file_key, Entry.dir] at hkey
      · obtain rfl : other = key := by simpa [Entry.file_key, Entry.file] using hkey
        exact ⟨r, hbelow, hr⟩
    · rintro ⟨r, hbelow, hr⟩
      exact ⟨r, _, hbelow, hr, rfl⟩

theorem remove (h : Contents store drawn s a m) (scope : Nat) (path : String)
    (refused : Option Nat) :
    ∃ m', Contents store drawn (s.step store (.remove scope path refused))
        (a.step (.remove scope path refused)) m' ∧
      (Tidy store s.disk.objects m →
        (Tidy store (s.step store (.remove scope path refused)).disk.objects m' ↔
          Empties store s (.remove scope path refused))) := by
  have hstep := h.shows.step (.remove scope path)
  simp only [Files.step, Files.call, FileTree.step, FileTree.change, Empties, Files.freed,
    FileOperation.refused]
  simp only [Database.step, Database.call, Namespace.step] at hstep
  rcases h.scope_cases scope with
    ⟨hcatalog, hroot⟩ | ⟨p, dir, hcatalog, hroot, hdir⟩ | ⟨catalog, hcatalog, hroot, hgone⟩
  · rw [hcatalog, hroot]
    exact ⟨m, h, fun htidy => iff_of_true htidy (by simp)⟩
  · simp only [hcatalog, hroot] at hstep ⊢
    obtain ⟨keys, t', hexec, hkeys⟩ := h.keys_of_remove hdir path
    rw [hexec] at hstep
    rw [exec_remove_disk hexec, hexec]
    exact ⟨_, h.drop hkeys hstep, h.tidy_drop hkeys⟩
  · have hnone := exec_remove_gone catalog path h.inodes.formed hgone
    have hsame : without store (deleted [] refused) s.disk.objects = s.disk.objects := by
      rw [deleted, List.take_nil]
      rfl
    simp only [hcatalog, hroot, exec_remove_disk hnone, hnone, hsame]
    exact ⟨m, h, fun htidy => iff_of_true htidy (by simp [Except.toOption])⟩

/-- A file system that no one names any more. -/
theorem unmount {catalog : PostgresInodeCatalog} {root : Option (List String)}
    (h : Contents store drawn s a m) (hcatalogs : s.catalogs = catalogs ++ [catalog])
    (hscopes : a.scopes = scopes ++ [root]) :
    Contents store drawn { s with catalogs } { a with scopes } m := by
  have hstands := h.shows.scopes
  simp only [hcatalogs, hscopes] at hstands
  exact { h with shows := ⟨h.shows.shows, Pointwise.of_concat hstands⟩ }

/-- A catalog of its own for the session, all of whose files are removed. -/
theorem delete_session_files (h : Contents store drawn s a m) (workspace_id : WorkspaceId)
    (session_id : SessionId) (refused : Option Nat) :
    ∃ m', Contents store drawn
        (s.step store (.delete_session_files workspace_id session_id refused))
        (a.step (.delete_session_files workspace_id session_id refused)) m' ∧
      (Tidy store s.disk.objects m →
        (Tidy store
            (s.step store (.delete_session_files workspace_id session_id refused)).disk.objects m' ↔
          Empties store s (.delete_session_files workspace_id session_id refused))) := by
  obtain ⟨t', row, hexec, -⟩ := h.inodes.exec_open_at (session_path workspace_id session_id)
  have hmounted := h.mount (session_path workspace_id session_id)
  simp only [Files.mount, exec_sql, hexec, Except.mapError] at hmounted
  -- the catalog that is made is the last one of a moment
  obtain ⟨m', hremoved, htidy⟩ := hmounted.remove s.catalogs.length "/" refused
  have hcatalog : (s.catalogs ++ [⟨row.id⟩])[s.catalogs.length]? =
      some (⟨row.id⟩ : PostgresInodeCatalog) := List.getElem?_concat_length
  have hscope : (a.scopes ++ [some (session_path workspace_id session_id)])[s.catalogs.length]? =
      some (some (session_path workspace_id session_id)) := by
    rw [show s.catalogs.length = a.scopes.length from h.shows.scopes.length_eq]
    exact List.getElem?_concat_length
  have hroot : split_path "/" = [] := by decide
  simp only [Files.step, Files.call, FileTree.step, FileTree.change, FileTree.mount, hcatalog,
    hscope, hroot, List.append_nil, Empties, Files.freed, FileOperation.refused] at hremoved htidy
  have hstate :
      (exec (persistency.delete_session_files store workspace_id session_id refused) s.disk).2 =
        (exec (ObjectFileSystem.remove store ⟨⟨row.id⟩⟩ "/" refused)
          { s.disk with table := t' }).2 := by
    change (exec (sql (open_at (session_path workspace_id session_id)) >>= fun catalog =>
      ObjectFileSystem.remove store ⟨catalog⟩ "/" refused) s.disk).2 = _
    rw [exec_sql_ok hexec]
  have hfreed : s.freed (.delete_session_files workspace_id session_id refused) =
      ((exec (PostgresInodeCatalog.remove ⟨row.id⟩ "/") t').1.toOption).getD [] := by
    change ((exec (open_at (session_path workspace_id session_id) >>= fun catalog =>
      catalog.remove "/") s.disk.table).1.toOption).getD [] = _
    rw [exec_bind_ok hexec]
  simp only [Files.step, FileTree.step, hstate, Empties, hfreed, FileOperation.refused]
  refine ⟨m', ?_, fun h => htidy (tidy_fill h)⟩
  exact hremoved.unmount rfl (by rw [FileTree.drop, List.map_append, List.map_singleton])

theorem write (h : Contents store drawn s a m) (descriptor : Nat) (buf : Bytes) :
    Contents store drawn (s.step store (.write descriptor buf)) (a.step (.write descriptor buf)) m := by
  refine { h with handles := Pointwise.modify h.handles descriptor fun x handle hfollows => ?_ }
  match x, handle, hfollows with
  | none, .closed, _ => trivial
  | some (.Read _), .reader, _ => trivial
  | some (.Write _ _), .writer _ _, ⟨hkey, hbuffer, hfiles⟩ =>
    exact ⟨hkey, by rw [hbuffer], hfiles⟩

theorem shutdown (h : Contents store drawn s a m) (descriptor : Nat) (taken : Bool) :
    Contents store drawn (s.step store (.shutdown descriptor taken))
      (a.step (.shutdown descriptor taken)) m := by
  simp only [Files.step, FileTree.step]
  rcases h.handle_cases descriptor with ⟨hnone, hnone'⟩ | ⟨x, handle, hx, hhandle, hfollows⟩
  · rw [hnone, hnone']
    exact h
  rw [hx, hhandle]
  have hclosed := Pointwise.set h.handles descriptor (x := none) (y := .closed)
    (show Follows drawn m none .closed from trivial)
  match x, handle, hfollows with
  | none, .closed, _ => exact h
  | some (.Read _), .reader, _ => exact { h with handles := hclosed }
  | some (.Write key buffer), .writer path buffer', ⟨hkey, hbuffer, hfiles⟩ =>
    subst hbuffer
    cases taken with
    | false => cases path <;> exact { h with handles := hclosed }
    | true =>
      cases path with
      | none =>
        have hstored := h.store_nowhere hkey (fun q hq => by simp [hfiles q] at hq) buffer
        exact { hstored with handles := hclosed }
      | some q =>
        have hstored := h.store_at ((hfiles q).mpr rfl) buffer
        exact { hstored with handles := hclosed }

/-- Only a writer that stores too late leaves an object behind. -/
theorem tidy_shutdown (htidy : Tidy store s.disk.objects m) (descriptor : Nat) (taken : Bool) :
    Tidy store (s.step store (.shutdown descriptor taken)).disk.objects m ↔
      Timely s m (.shutdown descriptor taken) := by
  simp only [Files.step]
  split
  · rename_i open_one hx
    cases open_one with
    | Read key =>
      refine iff_of_true htidy ?_
      rintro _ other buffer ⟨⟩ hother
      simp [hx] at hother
    | Write key buffer =>
      cases taken with
      | false =>
        refine iff_of_true htidy ?_
        rintro _ other buffer' ⟨⟩
      | true =>
        have htimely : Timely s m (.shutdown descriptor true) ↔ ∃ p, m p = some (.file key) := by
          constructor
          · intro h
            exact h descriptor key buffer rfl hx
          · rintro hfile _ other buffer' ⟨⟩ hother
            obtain ⟨rfl, -⟩ : key = other ∧ buffer = buffer' := by simpa [hx] using hother
            exact hfile
        rw [htimely]
        constructor
        · intro h
          exact h key (by simp [ObjectDescriptor.poll_shutdown, store.get_put])
        · intro hfile other hother
          by_cases heq : other = key
          · exact heq ▸ hfile
          · rw [ObjectDescriptor.poll_shutdown, if_pos rfl, store.get_put, if_neg heq] at hother
            exact htidy other hother
  · rename_i hnone
    refine iff_of_true htidy ?_
    rintro _ key buffer ⟨⟩ hx
    exact absurd hx (hnone _)

/-- An operation that neither stores nor removes leaves nothing behind. -/
theorem empties_of_freed {operation : FileOperation} (hfreed : s.freed operation = []) :
    Empties store s operation := by
  intro key hkey
  rw [hfreed] at hkey
  cases hkey

theorem step (h : Contents store drawn s a m) (operation : FileOperation)
    (hfresh : ∀ key ∈ operation.object_key, key ∉ drawn) :
    ∃ m', Contents store ({key | key ∈ operation.object_key} ∪ drawn) (s.step store operation)
      (a.step operation) m' ∧ (Tidy store s.disk.objects m →
        (Tidy store (s.step store operation).disk.objects m' ↔
          Timely s m operation ∧ Empties store s operation)) := by
  -- an operation that stores nothing and removes nothing
  have hleads : ∀ {s' : Files σ} {a' : FileTree}, Leads store drawn s m s' a' →
      (∀ descriptor, operation ≠ .shutdown descriptor true) → s.freed operation = [] →
      ∃ m', Contents store ({key | key ∈ operation.object_key} ∪ drawn) s' a' m' ∧
        (Tidy store s.disk.objects m → (Tidy store s'.disk.objects m' ↔
          Timely s m operation ∧ Empties store s operation)) := by
    rintro s' a' ⟨m', h', htidy⟩ hne hfreed
    refine ⟨m', h'.mono fun _ => .inr, fun ht => iff_of_true (htidy ht) ⟨?_, ?_⟩⟩
    · intro descriptor key buffer heq
      exact absurd heq (hne descriptor)
    · exact empties_of_freed hfreed
  cases operation with
  | for_workspace w => exact hleads (h.mount_leads (workspace_path w)) (by simp) rfl
  | for_session w x => exact hleads (h.mount_leads (session_path w x)) (by simp) rfl
  | mkdir scope path => exact hleads (h.mkdir scope path) (by simp) rfl
  | open_file scope path options key =>
    obtain ⟨m', h', htidy⟩ := h.open_file scope path options key (hfresh _ rfl)
    refine ⟨m', h'.mono ?_, fun ht => iff_of_true (htidy ht) ⟨by simp [Timely], ?_⟩⟩
    · rintro other (rfl | hother)
      · exact .inl rfl
      · exact .inr hother
    · exact empties_of_freed rfl
  | write descriptor buf => exact hleads ⟨m, h.write descriptor buf, id⟩ (by simp) rfl
  | shutdown descriptor taken =>
    refine ⟨m, (h.shutdown descriptor taken).mono fun _ => .inr, fun ht => ?_⟩
    rw [tidy_shutdown ht, and_iff_left (empties_of_freed rfl)]
  | remove scope path refused =>
    obtain ⟨m', h', hiff⟩ := h.remove scope path refused
    refine ⟨m', h'.mono fun _ => .inr, fun ht => ?_⟩
    rw [hiff ht, and_iff_right (by simp [Timely])]
  | delete_session_files w x refused =>
    obtain ⟨m', h', hiff⟩ := h.delete_session_files w x refused
    refine ⟨m', h'.mono fun _ => .inr, fun ht => ?_⟩
    rw [hiff ht, and_iff_right (by simp [Timely])]

/-- Reading a file gives what it holds. -/
theorem read_eq (h : Contents store drawn s a m) (scope : Nat) (path : String) :
    s.read store scope path = a.read scope path := by
  unfold Files.read FileTree.read read_file
  rcases h.scope_cases scope with
    ⟨hcatalog, hroot⟩ | ⟨p, dir, hcatalog, hroot, hdir⟩ | ⟨catalog, hcatalog, hroot, hgone⟩
  · rw [hcatalog, hroot]
    rfl
  · rw [hcatalog, hroot, Option.map_some, Option.map_some]
    congr 1
    have hnode : a.tree (p ++ split_path path) =
        (m (p ++ split_path path)).map (Entry.node store s.disk.objects) := by
      rw [h.nodes, map]
    simp only [hnode]
    rcases resolve_cases h.inodes hdir path with ⟨row, hrow, hresolve⟩ | ⟨hnone, hresolve⟩
    · rcases h.plain _ _ hrow with hentry | ⟨object_key, -, hentry⟩
      · have hkind : (row_to_inode row).kind = .Dir := congrArg Entry.kind hentry
        rw [exec_bind_error (exec_open_dir ⟨dir.id⟩ hkind hresolve), hrow, hentry]
        rfl
      · have hkind : (row_to_inode row).kind = .File := congrArg Entry.kind hentry
        have hobject : (row_to_inode row).object_key = some object_key :=
          congrArg Entry.object_key hentry
        rw [exec_bind, exec_open_file ⟨dir.id⟩ hkind hobject hresolve, hrow, hentry,
          Option.map_some, node_file, descriptor_of]
        cases hstored : store.get object_key s.disk.objects with
        | none => rfl
        | some bytes => simp [OpenOptions.writes, ObjectDescriptor.read_to_end, exec_bind, hstored]
    · rw [exec_bind_error (exec_open_missing ⟨dir.id⟩ rfl hresolve), hnone]
      rfl
  · rw [hcatalog, hroot, Option.map_some, Option.map_some]
    congr 1
    have hresolve := exec_resolve_gone catalog path h.inodes.formed hgone
    by_cases hpath : split_path path = []
    · rw [if_pos hpath] at hresolve ⊢
      rw [exec_bind_error (exec_open_error catalog hresolve)]
    · rw [if_neg hpath] at hresolve ⊢
      rw [exec_bind_error (exec_open_missing catalog rfl hresolve)]

/-- The names of the children that are told. -/
def names_told : Answer → Except FileError (Set String)
  | .children found => .ok (Set.image Prod.fst found)
  | .failed error => .error (.Catalog error)
  | _ => .ok ∅

theorem ls_eq_told (catalog : PostgresInodeCatalog) (disk : Disk σ) (path : String) :
    ((exec (ObjectFileSystem.ls ⟨catalog⟩ path) disk).1.map fun names => {name | name ∈ names}) =
      names_told (catalog.answer disk.table (.children path)) := by
  unfold ObjectFileSystem.ls PostgresInodeCatalog.answer
  rw [exec_bind, exec_sql]
  dsimp only
  cases (exec (catalog.children path) disk.table).1 with
  | error e => rfl
  | ok found =>
    refine congrArg Except.ok (Set.ext fun name => ?_)
    simp

/-- Listing a directory gives the names in it. -/
theorem ls_eq (h : Contents store drawn s a m) (scope : Nat) (path : String) :
    s.ls scope path = a.ls scope path := by
  have hanswer := h.shows.answer_eq scope (.children path)
  unfold Files.ls FileTree.ls
  simp only [ls_eq_told]
  unfold Database.answer Namespace.answer at hanswer
  rcases h.scope_cases scope with
    ⟨hcatalog, hroot⟩ | ⟨p, dir, hcatalog, hroot, -⟩ | ⟨catalog, hcatalog, hroot, -⟩
  · rw [hcatalog, hroot]
    rfl
  · simp only [hcatalog, hroot, Option.map_some, Option.some.injEq] at hanswer ⊢
    rw [hanswer, answer_at, h.nodes, map]
    cases hentry : m (p ++ split_path path) with
    | none => rfl
    | some entry =>
      simp only [reduceCtorEq, if_false, Option.map_some, names_told, PathMap.map, Option.isSome_map]
      congr 1
      ext name
      simp [Option.isSome_iff_exists]
  · simp only [hcatalog, hroot, Option.map_some, Option.some.injEq] at hanswer ⊢
    rw [hanswer, answer_gone]
    by_cases hpath : split_path path = []
    · simp [hpath, names_told]
    · simp [hpath, names_told]

end Contents

end marie.persistency
