-- Which paths show the flat keys as a tree. A key is cut at its dots, and a path at
-- its slashes: where a segment has a dot of its own, the two are not the same.
import Mathlib.Data.List.Sort
import Marie.Persistency.Var

namespace marie.var

open Maps Texts

/-! ## Places -/

/-- The segments of a path. -/
def segments (path : Path) : List (List Char) :=
  (path.splitOn '/').filter fun segment => !segment.isEmpty

/-- The segments, each cut at its dots. -/
def names (path : Path) : List (List Char) :=
  (segments path).flatMap fun segment => segment.splitOn '.'

/-- Where a variable is in the tree, the one without a name at the root. -/
def place (key : Key) : List (List Char) := if key = [] then [] else key.splitOn '.'

/-- No segment has a dot. -/
def Plain (path : Path) : Prop := ∀ segment ∈ segments path, '.' ∉ segment

/-- The store has a value under the key. -/
def Stored (store : VarStore) (key : Key) : Prop := (store.find key).isSome

/-- The key of the path, or one that goes on after it with a dot. -/
def Hit (path : Path) (key : Key) : Prop :=
  key = path_to_key path ∨ path_to_key path ++ ['.'] <+: key

/-- A path is removed with all that is below it, and nothing else is. -/
structure Removes (path : Path) (store : VarStore) : Prop where
  empty : ls path (remove path store) = []
  gone : ∀ key, segments path <+: place key → (remove path store).find key = none
  gone_path : ∀ other, segments path <+: segments other →
    (remove path store).find (path_to_key other) = none
  kept : ∀ key, ¬ segments path <+: place key → (remove path store).find key = store.find key

/-- The names that come next in the keys below a path are listed, in order and once. -/
structure Lists (path : Path) (store : VarStore) : Prop where
  sorted : (ls path store).Pairwise (· < ·)
  mem_iff : ∀ name, name ∈ ls path store ↔
    ∃ key, Stored store key ∧ segments path ++ [name] <+: place key

/-- The root goes where every key begins with a dot, or is empty; any other path whose segments
have no dots, or to whose key nothing belongs. -/
def Removable (path : Path) (store : VarStore) : Prop :=
  (segments path = [] ∧ ∀ key, Stored store key → key = [] ∨ key.head? = some '.') ∨
    (segments path ≠ [] ∧ (Plain path ∨ ∀ key, Stored store key → ¬ Hit path key))

/-- A key that ends with the dot after the path hides a child without a name, but for another one
of them. Below a segment with a dot nothing should be found. -/
def Listable (path : Path) (store : VarStore) : Prop :=
  segments path = [] ∨
    (Plain path ∧ (Stored store (path_to_key path ++ ['.']) →
      ∃ key, Stored store key ∧ path_to_key path ++ ['.', '.'] <+: key)) ∨
    (¬ Plain path ∧ ∀ rest, rest ≠ [] → ¬ Stored store (path_to_key path ++ '.' :: rest))

/-! ## Keys of paths -/

variable {path other : Path} {key : Key} {store : VarStore} {name : List Char}

theorem segment_ne_nil {segment : List Char} (h : segment ∈ segments path) : segment ≠ [] := by
  have hnot := (List.mem_filter.mp h).2
  simpa using hnot

theorem path_to_key_eq (path : Path) : path_to_key path = ['.'].intercalate (segments path) := by
  unfold path_to_key segments
  congr

theorem path_to_key_eq_nil : path_to_key path = [] ↔ segments path = [] := by
  rw [path_to_key_eq]
  have hne := @segment_ne_nil path
  cases hsegments : segments path with
  | nil => simp
  | cons segment rest =>
    rw [hsegments] at hne
    have hfirst := hne List.mem_cons_self
    simp only [reduceCtorEq, iff_false]
    intro hnil
    cases rest with
    | nil => exact hfirst (by simpa using hnil)
    | cons segment' rest =>
      rw [List.intercalate_cons_cons] at hnil
      simp at hnil

theorem splitOn_path_to_key (h : segments path ≠ []) :
    (path_to_key path).splitOn '.' = names path := by
  rw [path_to_key_eq, splitOn_join h, names]

/-- The variable of a path is at its names. -/
theorem place_path_to_key (path : Path) : place (path_to_key path) = names path := by
  unfold place
  by_cases h : segments path = []
  · simp [path_to_key_eq_nil.mpr h, names, h]
  · have hkey : path_to_key path ≠ [] := fun hnil => h (path_to_key_eq_nil.mp hnil)
    rw [if_neg hkey, splitOn_path_to_key h]

theorem place_inj {key' : Key} : place key = place key' ↔ key = key' := by
  constructor
  · intro h
    unfold place at h
    by_cases hkey : key = []
    · by_cases hkey' : key' = []
      · rw [hkey, hkey']
      · rw [if_pos hkey, if_neg hkey'] at h
        exact absurd h.symm (List.splitOn_ne_nil '.' key')
    · by_cases hkey' : key' = []
      · rw [if_neg hkey, if_pos hkey'] at h
        exact absurd h (List.splitOn_ne_nil '.' key)
      · rw [if_neg hkey, if_neg hkey'] at h
        exact splitOn_inj h
  · rintro rfl
    rfl

/-- Two paths have one key when their names are the same. -/
theorem path_to_key_eq_iff : path_to_key path = path_to_key other ↔ names path = names other := by
  rw [← place_inj, place_path_to_key, place_path_to_key]

theorem names_of_plain (h : Plain path) : names path = segments path := by
  unfold names
  have hparts : ∀ segment ∈ segments path, segment.splitOn '.' = [segment] := by
    intro segment hsegment
    exact List.splitOn_eq_singleton (h segment hsegment)
  rw [List.flatMap_congr hparts, List.flatMap_singleton']

/-- Below a segment with a dot there is no place. -/
theorem plain_of_below (h : segments path <+: place key) : Plain path := by
  intro segment hsegment hdot
  have hmem := h.subset hsegment
  unfold place at hmem
  split at hmem
  · simp at hmem
  · exact not_mem_of_mem_splitOn hmem hdot

/-! ## What is found under a key -/

/-- The keys that are hit are those whose place begins with the names of the path. -/
theorem hit_iff (h : segments path ≠ []) : Hit path key ↔ names path <+: place key := by
  have hkey : path_to_key path ≠ [] := fun hnil => h (path_to_key_eq_nil.mp hnil)
  have hnames : names path ≠ [] := by
    rw [← splitOn_path_to_key h]
    exact List.splitOn_ne_nil _ _
  unfold Hit place
  by_cases hnil : key = []
  · subst hnil
    rw [if_pos rfl, List.prefix_nil]
    simp [hkey.symm, hnames]
  · rw [if_neg hnil, ← splitOn_path_to_key h, splitOn_prefix_iff]
    apply or_congr Iff.rfl
    constructor
    · rintro ⟨rest, rfl⟩
      exact ⟨rest, by simp⟩
    · rintro ⟨rest, rfl⟩
      exact ⟨rest, by simp⟩

theorem find_foldl_erase (p : Key → Prop) [DecidablePred p] (keys : List Key) (store : VarStore) :
    (keys.foldl (fun store existing => if p existing then store.erase existing else store)
      store).find key = if key ∈ keys ∧ p key then none else store.find key := by
  induction keys generalizing store with
  | nil => simp
  | cons existing keys ih =>
    rw [List.foldl_cons, ih]
    by_cases hp : p existing
    · rw [if_pos hp, Entries.find_erase]
      by_cases heq : existing = key
      · subst heq
        simp [hp]
      · simp [heq, Ne.symm heq]
    · rw [if_neg hp]
      by_cases heq : existing = key
      · subst heq
        simp [hp]
      · simp [Ne.symm heq]

instance : Decidable (Hit path key) :=
  inferInstanceAs (Decidable (key = path_to_key path ∨ path_to_key path ++ ['.'] <+: key))

theorem stored_iff : Stored store key ↔ key ∈ store.entries.map Prod.fst := by
  unfold Stored
  rw [Option.isSome_iff_exists, List.mem_map]
  constructor
  · rintro ⟨v, hv⟩
    exact ⟨(key, v), Entries.find_eq_some.mp hv, rfl⟩
  · rintro ⟨⟨key', v⟩, hmem, rfl⟩
    exact ⟨v, Entries.find_eq_some.mpr hmem⟩

/-- A removal takes the keys that are hit. -/
theorem find_remove :
    (remove path store).find key = if Hit path key then none else store.find key := by
  unfold remove
  rw [find_foldl_erase (fun existing =>
    existing = path_to_key path ∨ path_to_key path ++ ['.'] <+: existing)]
  by_cases hmem : key ∈ store.entries.map Prod.fst
  · simp only [hmem, true_and]
    rfl
  · have hnone : store.find key = none := by
      rw [← stored_iff, Stored, Option.not_isSome_iff_eq_none] at hmem
      exact hmem
    simp [hmem, hnone]

theorem stored_remove : Stored (remove path store) key ↔ Stored store key ∧ ¬ Hit path key := by
  unfold Stored
  rw [find_remove]
  by_cases h : Hit path key <;> simp [h]

/-! ## Lists -/

theorem child_name_eq_some_iff : child_name (path_to_key path) key = some name ↔
    ∃ rest, rest ≠ [] ∧ (rest.splitOn '.').head? = some name ∧
      key = if segments path = [] then rest else path_to_key path ++ '.' :: rest := by
  have hhead : ∀ rest : List Char, ∃ first, (rest.splitOn '.').head? = some first := by
    intro rest
    cases hparts : rest.splitOn '.' with
    | nil => exact absurd hparts (List.splitOn_ne_nil '.' rest)
    | cons first parts => exact ⟨first, List.head?_cons⟩
  have hchild : ∀ rest : List Char, (if rest.isEmpty then none
      else some ((rest.splitOn '.').head?.getD rest)) = some name ↔
        rest ≠ [] ∧ (rest.splitOn '.').head? = some name := by
    intro rest
    obtain ⟨first, hfirst⟩ := hhead rest
    by_cases hnil : rest = []
    · simp [hnil]
    · simp [hnil, hfirst]
  unfold child_name
  by_cases h : segments path = []
  · simp only [path_to_key_eq_nil.mpr h, List.isEmpty_nil, if_true, h]
    rw [hchild]
    constructor
    · rintro ⟨hne, hfirst⟩
      exact ⟨key, hne, hfirst, rfl⟩
    · rintro ⟨rest, hne, hfirst, rfl⟩
      exact ⟨hne, hfirst⟩
  · have hkey : path_to_key path ≠ [] := fun hnil => h (path_to_key_eq_nil.mp hnil)
    have hempty : (path_to_key path).isEmpty = false := by simpa using hkey
    simp only [hempty, Bool.false_eq_true, if_false, h]
    have hrest : ∀ rest, (List.isPrefixOf? (path_to_key path) key).bind (List.isPrefixOf? ['.']) =
        some rest ↔ key = path_to_key path ++ '.' :: rest := by
      intro rest
      simp only [Option.bind_eq_some_iff, List.isPrefixOf?_eq_some_iff_append_eq]
      constructor
      · rintro ⟨after, rfl, rfl⟩
        simp
      · rintro rfl
        exact ⟨'.' :: rest, rfl, rfl⟩
    cases hafter : (List.isPrefixOf? (path_to_key path) key).bind (List.isPrefixOf? ['.']) with
    | none =>
      simp only [reduceCtorEq, false_iff]
      rintro ⟨rest, -, -, heq⟩
      rw [(hrest rest).mpr heq] at hafter
      cases hafter
    | some rest =>
      simp only
      rw [hchild]
      constructor
      · rintro ⟨hne, hfirst⟩
        exact ⟨rest, hne, hfirst, (hrest rest).mp hafter⟩
      · rintro ⟨rest', hne, hfirst, heq⟩
        rw [(hrest rest').mpr heq] at hafter
        cases hafter
        exact ⟨hne, hfirst⟩

theorem mem_destutter' {α : Type} [DecidableEq α] (a b : α) (xs : List α) :
    b ∈ xs.destutter' (· ≠ ·) a ↔ b = a ∨ b ∈ xs := by
  induction xs generalizing a with
  | nil => simp
  | cons x xs ih =>
    by_cases h : a = x
    · subst h
      rw [List.destutter'_cons_neg _ (by simp), ih]
      simp
    · rw [List.destutter'_cons_pos _ h, List.mem_cons, ih, List.mem_cons]

theorem mem_destutter {α : Type} [DecidableEq α] (b : α) (xs : List α) :
    b ∈ xs.destutter (· ≠ ·) ↔ b ∈ xs := by
  cases xs with
  | nil => simp
  | cons x xs => rw [List.destutter_cons', mem_destutter', List.mem_cons]

theorem mem_ls : name ∈ ls path store ↔
    ∃ key, Stored store key ∧ child_name (path_to_key path) key = some name := by
  unfold ls
  rw [mem_destutter, List.mem_mergeSort, List.mem_filterMap]
  simp only [stored_iff]

/-- A list is in order, and has no name twice. -/
theorem ls_sorted (path : Path) (store : VarStore) : (ls path store).Pairwise (· < ·) := by
  unfold ls
  simp only
  generalize (store.entries.map Prod.fst).filterMap (child_name (path_to_key path)) = children
  have hsorted := List.pairwise_mergeSort' (· ≤ ·) children
  have hle := (hsorted.sublist (List.destutter_sublist (· ≠ ·) _)).isChain
  have hne := List.isChain_destutter (· ≠ ·) (children.mergeSort fun a b => decide (a ≤ b))
  rw [← List.isChain_iff_pairwise, List.isChain_iff_getElem]
  rw [List.isChain_iff_getElem] at hle hne
  intro i hi
  exact lt_of_le_of_ne (hle i hi) (hne i hi)

theorem ls_eq_nil_iff : ls path store = [] ↔
    ∀ name key, Stored store key → child_name (path_to_key path) key ≠ some name := by
  rw [List.eq_nil_iff_forall_not_mem]
  constructor
  · intro h name key hstored hchild
    exact h name (mem_ls.mpr ⟨key, hstored, hchild⟩)
  · intro h name hmem
    obtain ⟨key, hstored, hchild⟩ := mem_ls.mp hmem
    exact h name key hstored hchild

/-! ## Removals -/

/-- The root has the empty key, so only what begins with a dot is below it. -/
theorem removes_root_iff (h : segments path = []) :
    Removes path store ↔ ∀ key, Stored store key → key = [] ∨ key.head? = some '.' := by
  have hhit : ∀ key, Hit path key ↔ key = [] ∨ key.head? = some '.' := by
    intro key
    unfold Hit
    rw [path_to_key_eq_nil.mpr h, List.nil_append, List.head?_eq_some_iff]
    apply or_congr Iff.rfl
    constructor
    · rintro ⟨rest, rfl⟩
      exact ⟨rest, rfl⟩
    · rintro ⟨rest, rfl⟩
      exact ⟨rest, rfl⟩
  have hbelow : ∀ parts : List (List Char), segments path <+: parts := by
    intro parts
    rw [h]
    exact List.nil_prefix
  constructor
  · intro hremoves key hstored
    rw [← hhit]
    by_contra hnot
    have hgone := hremoves.gone key (hbelow _)
    rw [find_remove, if_neg hnot] at hgone
    simp [Stored, hgone] at hstored
  · intro hall
    have hgone : ∀ key, (remove path store).find key = none := by
      intro key
      rw [← Option.not_isSome_iff_eq_none]
      intro hsome
      obtain ⟨hstored, hnot⟩ := stored_remove.mp hsome
      exact hnot ((hhit key).mpr (hall key hstored))
    constructor
    · rw [ls_eq_nil_iff]
      intro name key hstored
      simp [Stored, hgone] at hstored
    · exact fun key _ => hgone key
    · exact fun other _ => hgone _
    · exact fun key hnot => absurd (hbelow _) hnot

theorem removes_iff_of_ne_nil (h : segments path ≠ []) :
    Removes path store ↔ Plain path ∨ ∀ key, Stored store key → ¬ Hit path key := by
  have hempty : ls path (remove path store) = [] := by
    rw [ls_eq_nil_iff]
    intro name key hstored hchild
    obtain ⟨rest, -, -, heq⟩ := child_name_eq_some_iff.mp hchild
    rw [if_neg h] at heq
    exact (stored_remove.mp hstored).2 (.inr ⟨rest, by simp [heq]⟩)
  have hpath : ∀ other, segments path <+: segments other →
      (remove path store).find (path_to_key other) = none := by
    intro other hbelow
    have hnames : names path <+: names other := by
      obtain ⟨later, hlater⟩ := hbelow
      unfold names
      rw [← hlater, List.flatMap_append]
      exact List.prefix_append _ _
    rw [find_remove, if_pos]
    rwa [hit_iff h, place_path_to_key]
  constructor
  · intro hremoves
    by_cases hplain : Plain path
    · exact .inl hplain
    · refine .inr fun key hstored hhit => ?_
      -- no place begins with these segments, so the key should have been kept
      have hkept := hremoves.kept key fun hbelow => hplain (plain_of_below hbelow)
      rw [find_remove, if_pos hhit] at hkept
      simp [Stored, ← hkept] at hstored
  · intro hor
    constructor
    · exact hempty
    · intro key hbelow
      have hplain := plain_of_below hbelow
      rw [find_remove, if_pos]
      rwa [hit_iff h, names_of_plain hplain]
    · exact hpath
    · intro key hnot
      rw [find_remove]
      by_cases hhit : Hit path key
      · rcases hor with hplain | hnone
        · rw [hit_iff h, names_of_plain hplain] at hhit
          exact absurd hhit hnot
        · have hstored := hnone key
          rw [if_pos hhit]
          unfold Stored at hstored
          cases hfind : store.find key with
          | none => rfl
          | some v => exact absurd hhit (hstored (by simp [hfind]))
      · rw [if_neg hhit]

theorem removes_iff : Removes path store ↔ Removable path store := by
  unfold Removable
  by_cases h : segments path = []
  · rw [removes_root_iff h]
    simp [h]
  · rw [removes_iff_of_ne_nil h]
    simp [h]

/-! ## Lists of a path -/

/-- The keys that go on below a path with a name. -/
theorem place_below_iff (hplain : Plain path) : segments path ++ [name] <+: place key ↔
    ∃ rest, (rest.splitOn '.').head? = some name ∧ if segments path = []
      then rest ≠ [] ∧ key = rest else key = path_to_key path ++ '.' :: rest := by
  by_cases h : segments path = []
  · simp only [h, List.nil_append, if_true]
    unfold place
    by_cases hkey : key = []
    · subst hkey
      simp
    · rw [if_neg hkey]
      constructor
      · rintro ⟨parts, hparts⟩
        exact ⟨key, by rw [← hparts]; simp, hkey, rfl⟩
      · rintro ⟨rest, hhead, -, rfl⟩
        obtain ⟨parts, hparts⟩ := List.head?_eq_some_iff.mp hhead
        exact ⟨parts, by rw [hparts]; simp⟩
  · simp only [h, if_false]
    rw [← names_of_plain hplain, ← splitOn_path_to_key h]
    unfold place
    by_cases hkey : key = []
    · subst hkey
      simp
    · rw [if_neg hkey, splitOn_concat_prefix_iff]
      constructor
      · rintro ⟨rest, heq, hhead⟩
        exact ⟨rest, hhead, heq⟩
      · rintro ⟨rest, hhead, heq⟩
        exact ⟨rest, heq, hhead⟩

theorem lists_iff_mem : Lists path store ↔ ∀ name,
    (∃ key, Stored store key ∧ child_name (path_to_key path) key = some name) ↔
      ∃ key, Stored store key ∧ segments path ++ [name] <+: place key := by
  constructor
  · intro h name
    rw [← mem_ls]
    exact h.mem_iff name
  · intro h
    refine ⟨ls_sorted path store, fun name => ?_⟩
    rw [mem_ls]
    exact h name

theorem lists_root (h : segments path = []) : Lists path store := by
  have hplain : Plain path := by
    intro segment hsegment
    simp [h] at hsegment
  rw [lists_iff_mem]
  intro name
  simp only [child_name_eq_some_iff, place_below_iff hplain]
  simp only [h, if_true]
  constructor
  · rintro ⟨key, hstored, rest, hne, hhead, heq⟩
    exact ⟨key, hstored, rest, hhead, hne, heq⟩
  · rintro ⟨key, hstored, rest, hhead, hne, heq⟩
    exact ⟨key, hstored, rest, hne, hhead, heq⟩

/-- Only the key that ends with the dot is below the path and shows no child. -/
theorem lists_plain_iff (h : segments path ≠ []) (hplain : Plain path) :
    Lists path store ↔ (Stored store (path_to_key path ++ ['.']) →
      ∃ key, Stored store key ∧ path_to_key path ++ ['.', '.'] <+: key) := by
  rw [lists_iff_mem]
  simp only [child_name_eq_some_iff, place_below_iff hplain, h, if_false]
  constructor
  · intro hall hdot
    obtain ⟨key, hstored, rest, hne, hhead, rfl⟩ :=
      (hall []).mpr ⟨_, hdot, [], by simp, rfl⟩
    refine ⟨_, hstored, ?_⟩
    cases rest with
    | nil => exact absurd rfl hne
    | cons c rest =>
      by_cases hc : c = '.'
      · subst hc
        exact ⟨rest, by simp⟩
      · rw [List.splitOn_cons_eq_if_modifyHead, if_neg (by simpa using hc)] at hhead
        cases hparts : rest.splitOn '.' with
        | nil => exact absurd hparts (List.splitOn_ne_nil '.' rest)
        | cons first parts => simp [hparts] at hhead
  · intro hdot name
    constructor
    · rintro ⟨key, hstored, rest, -, hhead, heq⟩
      exact ⟨key, hstored, rest, hhead, heq⟩
    · rintro ⟨key, hstored, rest, hhead, rfl⟩
      by_cases hne : rest = []
      · subst hne
        obtain ⟨key', hstored', later, rfl⟩ := hdot hstored
        refine ⟨_, hstored', '.' :: later, by simp, ?_, by simp⟩
        rw [List.splitOn_nil, List.head?_cons, Option.some_inj] at hhead
        rw [← hhead, List.splitOn_cons_eq_if_modifyHead]
        simp
      · exact ⟨_, hstored, rest, hne, hhead, rfl⟩

theorem lists_dotted_iff (hplain : ¬ Plain path) : Lists path store ↔
    ∀ rest, rest ≠ [] → ¬ Stored store (path_to_key path ++ '.' :: rest) := by
  have h : segments path ≠ [] := by
    intro hnil
    apply hplain
    intro segment hsegment
    simp [hnil] at hsegment
  have hplace : ∀ name key, ¬ segments path ++ [name] <+: place key := fun name key hbelow =>
    hplain (plain_of_below ((List.prefix_append _ _).trans hbelow))
  rw [lists_iff_mem]
  simp only [child_name_eq_some_iff, h, if_false, hplace, and_false, exists_false, iff_false]
  constructor
  · intro hall rest hne hstored
    cases hparts : rest.splitOn '.' with
    | nil => exact List.splitOn_ne_nil '.' rest hparts
    | cons first parts => exact hall first ⟨_, hstored, rest, hne, by simp [hparts], rfl⟩
  · rintro hall name ⟨key, hstored, rest, hne, -, rfl⟩
    exact hall rest hne hstored

theorem lists_iff : Lists path store ↔ Listable path store := by
  unfold Listable
  by_cases h : segments path = []
  · exact iff_of_true (lists_root h) (.inl h)
  · by_cases hplain : Plain path
    · rw [lists_plain_iff h hplain]
      simp [h, hplain]
    · rw [lists_dotted_iff hplain]
      simp [h, hplain]

/-- Paths are told apart by their keys, removed with what is below them and listed, exactly when the
dots of their segments and of the keys do not come between. -/
theorem variable_paths_iff (path other : Path) (store : VarStore) :
    ((path_to_key path = path_to_key other ↔ segments path = segments other) ↔
      (segments path = segments other ∨ names path ≠ names other)) ∧
    (Removes path store ↔ Removable path store) ∧ (Lists path store ↔ Listable path store) := by
  refine ⟨?_, removes_iff, lists_iff⟩
  rw [path_to_key_eq_iff]
  by_cases h : segments path = segments other
  · have hnames : names path = names other := by rw [names, names, h]
    simp [h, hnames]
  · simp [h]

/-- A store of one variable. -/
def one_variable (key : Key) : VarStore := Entries.empty.insert (key, .Null)

theorem stored_one_variable {key' : Key} : Stored (one_variable key) key' ↔ key' = key := by
  unfold Stored one_variable
  rw [Entries.find_insert]
  by_cases h : key = key'
  · simp [h]
  · simp [h, Ne.symm h]

/-- A segment with a dot is two segments, the root is not emptied, and what is listed below a segment
with a dot is below another path. -/
theorem variable_paths_are_no_tree :
    (path_to_key "/a.b".toList = path_to_key "/a/b".toList ∧
      segments "/a.b".toList ≠ segments "/a/b".toList) ∧
    ¬ Removes "/".toList (one_variable "a".toList) ∧
    ¬ Removes "/a.b".toList (one_variable "a.b.c".toList) ∧
    ¬ Lists "/a.b".toList (one_variable "a.b.c".toList) := by
  have hroot : segments "/".toList = [] := by decide
  have hplain : ¬ Plain "/a.b".toList := by
    intro h
    exact h "a.b".toList (by decide) (by decide)
  refine ⟨by decide, ?_, ?_, ?_⟩
  · rw [removes_root_iff hroot]
    intro h
    have hkey := h "a".toList (stored_one_variable.mpr rfl)
    revert hkey
    decide
  · rw [removes_iff_of_ne_nil (by decide)]
    rintro (h | h)
    · exact hplain h
    · exact h "a.b.c".toList (stored_one_variable.mpr rfl) (by decide)
  · rw [lists_dotted_iff hplain]
    intro h
    exact h "c".toList (by decide) (stored_one_variable.mpr (by decide))

end marie.var
