-- The log of the Raft group, kept in memory. Under the contract of its caller the
-- keys are one interval without holes, from the latest purge to the last append.
import Marie.Lease.Raft

open Std (ExtTreeMap)

namespace marie.lease

/-! ## The store -/

structure LogStoreInner where
  log : ExtTreeMap Nat Entry
  last_purged_log_id : Option LogId
deriving DecidableEq

structure LogState where
  last_purged_log_id : Option LogId
  last_log_id : Option LogId
deriving DecidableEq

namespace LogStoreInner

def default : LogStoreInner := ⟨∅, none⟩

/-- The entries of `a..b`. `BTreeMap::range` panics when the start is past the end. -/
def try_get_log_entries (store : LogStoreInner) (a b : Nat) : Option (List Entry) :=
  if a ≤ b then
    some ((store.log.filter fun index _ => a ≤ index ∧ index < b).toList.map Prod.snd)
  else none

def get_log_state (store : LogStoreInner) : LogState where
  last_log_id :=
    ((store.log.toList.map Prod.snd).getLast?.map (·.log_id)).or store.last_purged_log_id
  last_purged_log_id := store.last_purged_log_id

def append (store : LogStoreInner) (entries : List Entry) : LogStoreInner :=
  { store with log := entries.foldl (fun log entry => log.insert entry.log_id.index entry) store.log }

/-- `split_off` keeps the keys below the index. -/
def truncate (store : LogStoreInner) (log_id : LogId) : LogStoreInner :=
  { store with log := store.log.filter fun index _ => index < log_id.index }

def purge (store : LogStoreInner) (log_id : LogId) : LogStoreInner where
  log := store.log.filter fun index _ => log_id.index < index
  last_purged_log_id := some log_id

end LogStoreInner

/-! ## Runs -/

inductive LogOp
  | append (entries : List Entry)
  | truncate (log_id : LogId)
  | purge (log_id : LogId)

def LogStoreInner.step (store : LogStoreInner) : LogOp → LogStoreInner
  | .append entries => store.append entries
  | .truncate log_id => store.truncate log_id
  | .purge log_id => store.purge log_id

/-- The entries have the indices that follow one another from `start` on. -/
def Consecutive (start : Nat) (entries : List Entry) : Prop :=
  entries.map (·.log_id.index) = List.range' start entries.length

/-- The id is of an entry of the log. -/
def LogStoreInner.HasEntry (store : LogStoreInner) (log_id : LogId) : Prop :=
  ∃ entry, store.log[log_id.index]? = some entry ∧ entry.log_id = log_id

/-- What the contract of the storage allows: appends go on after the last entry, and a
truncation or a purge names an entry of the log. -/
def LogStoreInner.Allows (store : LogStoreInner) : LogOp → Prop
  | .append entries => ∃ start, Consecutive start entries ∧
      ∀ id, store.get_log_state.last_log_id = some id → start = id.index + 1
  | .truncate log_id => store.HasEntry log_id
  | .purge log_id => store.HasEntry log_id

/-- The first index of the log after the operation: the first index appended to an empty log
of which nothing was purged, or the index after the latest purge. -/
def LogStoreInner.firstAfter (store : LogStoreInner) (first : Nat) : LogOp → Nat
  | .append entries =>
    if store.log = ∅ ∧ store.last_purged_log_id = none then
      (entries.head?.map (·.log_id.index)).getD first
    else first
  | .truncate _ => first
  | .purge log_id => log_id.index + 1

/-- A run of allowed operations from the empty store, the store it leaves and the first index
of its log. -/
inductive Reaches : List LogOp → LogStoreInner → Nat → Prop
  | start : Reaches [] .default 0
  | next {ops store first} (op : LogOp) : Reaches ops store first → store.Allows op →
      Reaches (ops ++ [op]) (store.step op) (store.firstAfter first op)

/-! ## What the log should hold -/

/-- The id of the latest purge. -/
def latestPurge (ops : List LogOp) : Option LogId :=
  (ops.filterMap fun
    | .purge log_id => some log_id
    | _ => none).getLast?

/-- What an operation makes of the entry at an index: the value it appends there, or nothing
when the index is truncated or purged. -/
def writtenBy (index : Nat) (stored : Option Entry) : LogOp → Option Entry
  | .append entries => ((entries.filter (·.log_id.index = index)).getLast?).or stored
  | .truncate log_id => if log_id.index ≤ index then none else stored
  | .purge log_id => if index ≤ log_id.index then none else stored

/-- The value most recently appended at the index, until it is truncated or purged. -/
def lastWritten (ops : List LogOp) (index : Nat) : Option Entry :=
  ops.foldl (writtenBy index) none

/-! ## One operation -/

namespace LogStoreInner

variable {store : LogStoreInner} {first next i : Nat} {ops : List LogOp} {op : LogOp}

theorem get_append (entries : List Entry) :
    (store.append entries).log[i]? =
      ((entries.filter (·.log_id.index = i)).getLast?).or store.log[i]? := by
  have h := OrderedMap.get_foldl_insert (k := i) (fun e : Entry => e.log_id.index) id entries store.log
  rwa [Option.map_id_apply] at h

theorem get_truncate (log_id : LogId) :
    (store.truncate log_id).log[i]? = if log_id.index ≤ i then none else store.log[i]? := by
  rw [truncate, ExtTreeMap.getElem?_filter']
  by_cases h : log_id.index ≤ i
  · rw [if_pos h]
    cases store.log[i]? <;> simp [h]
  · rw [if_neg h]
    cases store.log[i]? <;> simp [Nat.lt_of_not_le h]

theorem get_purge (log_id : LogId) :
    (store.purge log_id).log[i]? = if i ≤ log_id.index then none else store.log[i]? := by
  rw [purge, ExtTreeMap.getElem?_filter']
  by_cases h : i ≤ log_id.index
  · rw [if_pos h]
    cases store.log[i]? <;> simp [h]
  · rw [if_neg h]
    cases store.log[i]? <;> simp [Nat.lt_of_not_le h]

/-- Every operation does to an index what it should. -/
theorem get_step : (store.step op).log[i]? = writtenBy i store.log[i]? op := by
  cases op with
  | append entries => exact get_append entries
  | truncate log_id => exact get_truncate log_id
  | purge log_id => exact get_purge log_id

/-! ## The keys are one interval -/

/-- The keys of the log are the indices from `first` to `next`, each with an entry of that
index. -/
structure Interval (store : LogStoreInner) (first next : Nat) : Prop where
  ordered : first ≤ next
  keys : ∀ i : Nat, store.log[i]?.isSome ↔ first ≤ i ∧ i < next
  index : ∀ (i : Nat) (entry : Entry), store.log[i]? = some entry → entry.log_id.index = i
  purged : ∀ id, store.last_purged_log_id = some id → first = id.index + 1

theorem interval_default : LogStoreInner.default.Interval 0 0 where
  ordered := le_refl 0
  keys := by simp [LogStoreInner.default]
  index := by simp [LogStoreInner.default]
  purged := by simp [LogStoreInner.default]

theorem pairwise_range' (a n : Nat) : (List.range' a n).Pairwise fun i j => compare i j = .lt := by
  refine List.Pairwise.imp ?_ List.pairwise_lt_range'
  intro i j hij
  exact Nat.compare_eq_lt.mpr hij

theorem Interval.toList_eq (h : store.Interval first next) : store.log.toList =
    (List.range' first (next - first)).filterMap fun i => store.log[i]?.map (i, ·) := by
  refine OrderedMap.toList_eq_filterMap (pairwise_range' _ _) ?_
  intro i entry hi
  have hbounds := (h.keys i).mp (by rw [hi]; rfl)
  exact List.mem_range'_1.mpr (by omega)

theorem Interval.keys_eq (h : store.Interval first next) :
    store.log.keys = List.range' first (next - first) := by
  rw [← ExtTreeMap.map_fst_toList_eq_keys, h.toList_eq, List.map_filterMap]
  refine (List.filterMap_eq_map_iff_forall_eq_some.mpr ?_).trans (List.map_id _)
  intro i hi
  obtain ⟨entry, hentry⟩ := Option.isSome_iff_exists.mp
    ((h.keys i).mpr (by have := List.mem_range'_1.mp hi; omega))
  simp [hentry]

theorem Interval.empty_iff (h : store.Interval first next) : store.log = ∅ ↔ next = first := by
  constructor
  · intro hempty
    by_contra hne
    have hfirst := (h.keys first).mpr ⟨le_refl _, by have := h.ordered; omega⟩
    simp [hempty] at hfirst
  · intro heq
    refine ExtTreeMap.ext_getElem? fun i => ?_
    have hnone : ¬ store.log[i]?.isSome := fun hi => by
      have := (h.keys i).mp hi
      omega
    rw [Option.not_isSome_iff_eq_none.mp hnone]
    simp

/-- The last id of an empty log is the one of the latest purge. -/
theorem last_of_empty (h : store.log = ∅) :
    store.get_log_state.last_log_id = store.last_purged_log_id := by
  simp [get_log_state, ExtTreeMap.toList_eq_nil_iff.mpr h]

/-- The last id of a log with entries is the one of its last entry. -/
theorem Interval.last_of_lt (h : store.Interval first next) (hlt : first < next) :
    ∃ entry, store.log[next - 1]? = some entry ∧
      store.get_log_state.last_log_id = some entry.log_id := by
  obtain ⟨entry, hentry⟩ := Option.isSome_iff_exists.mp
    ((h.keys (next - 1)).mpr (by omega))
  refine ⟨entry, hentry, ?_⟩
  have hsplit : List.range' first (next - first) =
      List.range' first (next - 1 - first) ++ [next - 1] := by
    have hsucc : next - first = (next - 1 - first) + 1 := by omega
    have hlast : first + (next - 1 - first) = next - 1 := by omega
    rw [hsucc, List.range'_1_concat, hlast]
  simp [get_log_state, h.toList_eq, hsplit, hentry]

/-- The next index is the one after the last id. -/
theorem Interval.next_of_last (h : store.Interval first next) {id : LogId}
    (hid : store.get_log_state.last_log_id = some id) : next = id.index + 1 := by
  rcases Nat.lt_or_ge first next with hlt | hge
  · obtain ⟨entry, hentry, hlast⟩ := h.last_of_lt hlt
    rw [hlast] at hid
    cases hid
    have hindex := h.index _ _ hentry
    omega
  · have heq : next = first := by have := h.ordered; omega
    rw [last_of_empty (h.empty_iff.mpr heq)] at hid
    rw [heq, h.purged id hid]

/-- A store without a last id is as it was at first. -/
theorem Interval.fresh_of_none (h : store.Interval first next)
    (hid : store.get_log_state.last_log_id = none) :
    store.log = ∅ ∧ store.last_purged_log_id = none := by
  rcases Nat.lt_or_ge first next with hlt | hge
  · obtain ⟨entry, -, hlast⟩ := h.last_of_lt hlt
    rw [hlast] at hid
    cases hid
  · have hempty := h.empty_iff.mpr (by have := h.ordered; omega)
    rw [last_of_empty hempty] at hid
    exact ⟨hempty, hid⟩

/-! ## The interval after one operation -/

/-- The entries appended at an index, when they follow one another from `start` on. -/
theorem appended_at {start : Nat} {entries : List Entry} (h : Consecutive start entries) :
    ((entries.filter (·.log_id.index = i)).getLast?).isSome ↔
      start ≤ i ∧ i < start + entries.length := by
  rw [List.getLast?_isSome, Ne, List.filter_eq_nil_iff]
  have hmem : i ∈ entries.map (·.log_id.index) ↔ start ≤ i ∧ i < start + entries.length := by
    rw [h, List.mem_range'_1]
  rw [← hmem, List.mem_map]
  simp

theorem index_of_appended {entries : List Entry} {entry : Entry}
    (h : (entries.filter (·.log_id.index = i)).getLast? = some entry) : entry.log_id.index = i := by
  have hmem := List.mem_of_getLast? h
  simpa using (List.mem_filter.mp hmem).2

/-- Entries appended after the last one, or to an empty log, make it longer. -/
theorem Interval.append {start : Nat} {entries : List Entry} (h : store.Interval first next)
    (hentries : Consecutive start entries)
    (hfirst : start = next ∨ first = next ∧ store.last_purged_log_id = none) :
    (store.append entries).Interval (if start = next then first else start)
      (start + entries.length) := by
  have hordered := h.ordered
  refine ⟨by split <;> omega, fun i => ?_, fun i entry hi => ?_, fun id hid => ?_⟩
  · rw [get_append, Option.isSome_or, Bool.or_eq_true, appended_at hentries, h.keys i]
    split <;> omega
  · rw [get_append] at hi
    rcases Option.or_eq_some_iff.mp hi with hnew | ⟨-, hold⟩
    · exact index_of_appended hnew
    · exact h.index i entry hold
  · have hold := h.purged id hid
    rcases hfirst with hnext | ⟨-, hnone⟩
    · rw [if_pos hnext, hold]
    · rw [show store.last_purged_log_id = some id from hid] at hnone
      cases hnone

theorem Interval.truncate (h : store.Interval first next) {id : LogId} (hid : store.HasEntry id) :
    (store.truncate id).Interval first id.index := by
  obtain ⟨entry, hentry, -⟩ := hid
  have hbounds := (h.keys id.index).mp (by rw [hentry]; rfl)
  refine ⟨hbounds.1, fun i => ?_, fun i entry hi => ?_, h.purged⟩
  · rw [get_truncate]
    split
    · simp only [Option.isSome_none, Bool.false_eq_true, false_iff]
      omega
    · rw [h.keys i]
      omega
  · rw [get_truncate] at hi
    split at hi
    · cases hi
    · exact h.index i entry hi

theorem Interval.purge (h : store.Interval first next) {id : LogId} (hid : store.HasEntry id) :
    (store.purge id).Interval (id.index + 1) next := by
  obtain ⟨entry, hentry, -⟩ := hid
  have hbounds := (h.keys id.index).mp (by rw [hentry]; rfl)
  refine ⟨by omega, fun i => ?_, fun i entry hi => ?_, ?_⟩
  · rw [get_purge]
    split
    · simp only [Option.isSome_none, Bool.false_eq_true, false_iff]
      omega
    · rw [h.keys i]
      omega
  · rw [get_purge] at hi
    split at hi
    · cases hi
    · exact h.index i entry hi
  · rintro id' hid'
    cases hid'
    rfl

/-- What the contract allows leaves one interval. -/
theorem Interval.step (h : store.Interval first next) (hop : store.Allows op) :
    ∃ next', (store.step op).Interval (store.firstAfter first op) next' := by
  cases op with
  | truncate id => exact ⟨_, h.truncate hop⟩
  | purge id => exact ⟨_, h.purge hop⟩
  | append entries =>
    obtain ⟨start, hentries, hstart⟩ := hop
    cases entries with
    | nil =>
      refine ⟨next, ?_⟩
      simpa [LogStoreInner.step, LogStoreInner.append, firstAfter] using h
    | cons entry entries =>
      have hhead : entry.log_id.index = start := by
        have := congrArg List.head? hentries
        simpa [List.range'_succ] using this
      cases hid : store.get_log_state.last_log_id with
      | some id =>
        have hnext : start = next := by rw [hstart id hid, h.next_of_last hid]
        have hbusy : ¬ (store.log = ∅ ∧ store.last_purged_log_id = none) := by
          rintro ⟨hempty, hnone⟩
          rw [last_of_empty hempty, hnone] at hid
          cases hid
        have hinterval := h.append hentries (.inl hnext)
        rw [if_pos hnext] at hinterval
        exact ⟨_, by rw [firstAfter, if_neg hbusy]; exact hinterval⟩
      | none =>
        obtain ⟨hempty, hnone⟩ := h.fresh_of_none hid
        have hfirst := (h.empty_iff.mp hempty).symm
        have hinterval := h.append hentries (.inr ⟨hfirst, hnone⟩)
        have hsame : (if start = next then first else start) = start := by
          split <;> omega
        rw [hsame] at hinterval
        refine ⟨start + (entry :: entries).length, ?_⟩
        rw [firstAfter, if_pos ⟨hempty, hnone⟩, List.head?_cons, Option.map_some,
          Option.getD_some, hhead]
        exact hinterval

/-! ## Every run -/

theorem interval_of_reaches (h : Reaches ops store first) : ∃ next, store.Interval first next := by
  induction h with
  | start => exact ⟨0, interval_default⟩
  | next _ _ hop ih =>
    obtain ⟨next, hinterval⟩ := ih
    exact hinterval.step hop

/-- An entry reads back as the value most recently appended at its index. -/
theorem get_of_reaches (h : Reaches ops store first) : store.log[i]? = lastWritten ops i := by
  induction h with
  | start => simp [LogStoreInner.default, lastWritten]
  | next _ _ _ ih =>
    rw [get_step, ih, lastWritten, lastWritten, List.foldl_append, List.foldl_cons, List.foldl_nil]

theorem purged_of_reaches (h : Reaches ops store first) :
    store.last_purged_log_id = latestPurge ops := by
  induction h with
  | start => rfl
  | next op _ _ ih =>
    rw [latestPurge, List.filterMap_append]
    cases op with
    | append entries => simpa [latestPurge, LogStoreInner.step, LogStoreInner.append] using ih
    | truncate id => simpa [latestPurge, LogStoreInner.step, LogStoreInner.truncate] using ih
    | purge id => simp [LogStoreInner.step, LogStoreInner.purge]

/-- The entries of a range are the stored ones, in the order of their indices. -/
theorem try_get_log_entries_eq (a b : Nat) : store.try_get_log_entries a b =
    if a ≤ b then some ((List.range' a (b - a)).filterMap fun i => store.log[i]?) else none := by
  unfold try_get_log_entries
  split
  · next hab =>
    congr 1
    have hentries : (store.log.filter fun i _ => a ≤ i ∧ i < b).toList =
        (List.range' a (b - a)).filterMap fun i =>
          (store.log.filter fun i _ => a ≤ i ∧ i < b)[i]?.map (i, ·) := by
      refine OrderedMap.toList_eq_filterMap (pairwise_range' _ _) ?_
      intro i entry hi
      rw [ExtTreeMap.getElem?_filter'] at hi
      have hin := (Option.filter_eq_some_iff.mp hi).2
      simp only [decide_eq_true_eq] at hin
      exact List.mem_range'_1.mpr (by omega)
    rw [hentries, List.map_filterMap]
    refine List.filterMap_congr fun i hi => ?_
    have hin : a ≤ i ∧ i < b := by
      have := List.mem_range'_1.mp hi
      omega
    rw [ExtTreeMap.getElem?_filter']
    cases store.log[i]? <;> simp [hin]
  · rfl

/-- After any run that the contract allows, the keys are one interval. It starts after the
latest purge, or at the first index appended when nothing was purged, and ends at the last id.
A range gives the stored entries in the order of their indices, and an entry reads back as the
value most recently appended at its index. -/
theorem log_is_one_interval (h : Reaches ops store first) :
    ((store.log.keys = [] ∧ store.get_log_state.last_log_id = latestPurge ops) ∨
      ∃ last entry, first ≤ last ∧ store.log.keys = List.range' first (last + 1 - first) ∧
        store.log[last]? = some entry ∧ entry.log_id.index = last ∧
        store.get_log_state.last_log_id = some entry.log_id) ∧
      store.get_log_state.last_purged_log_id = latestPurge ops ∧
      (∀ id, latestPurge ops = some id → first = id.index + 1) ∧
      (∀ a b, store.try_get_log_entries a b =
        if a ≤ b then some ((List.range' a (b - a)).filterMap fun i => store.log[i]?) else none) ∧
      ∀ i : Nat, store.log[i]? = lastWritten ops i := by
  obtain ⟨next, hinterval⟩ := interval_of_reaches h
  have hpurged := purged_of_reaches h
  refine ⟨?_, hpurged, ?_, try_get_log_entries_eq, fun i => get_of_reaches h⟩
  · rcases Nat.lt_or_ge first next with hlt | hge
    · obtain ⟨entry, hentry, hlast⟩ := hinterval.last_of_lt hlt
      refine .inr ⟨next - 1, entry, by omega, ?_, hentry, hinterval.index _ _ hentry, hlast⟩
      rw [hinterval.keys_eq, Nat.sub_add_cancel (by omega)]
    · have heq : next = first := by have := hinterval.ordered; omega
      refine .inl ⟨?_, ?_⟩
      · rw [hinterval.keys_eq, heq, Nat.sub_self, List.range'_zero]
      · rw [last_of_empty (hinterval.empty_iff.mpr heq), hpurged]
  · intro id hid
    exact hinterval.purged id (hpurged.trans hid)

/-- A log cut back and written again, and then purged of its first entry. -/
def rewritten : List LogOp :=
  [.append [⟨⟨⟨1, ⟨7⟩⟩, 0⟩, .Blank⟩, ⟨⟨⟨1, ⟨7⟩⟩, 1⟩, .Blank⟩], .truncate ⟨⟨1, ⟨7⟩⟩, 1⟩,
    .append [⟨⟨⟨2, ⟨8⟩⟩, 1⟩, .Blank⟩], .purge ⟨⟨1, ⟨7⟩⟩, 0⟩]

theorem rewritten_reaches : Reaches rewritten (rewritten.foldl LogStoreInner.step .default) 1 := by
  have h1 := Reaches.start.next (.append [⟨⟨⟨1, ⟨7⟩⟩, 0⟩, .Blank⟩, ⟨⟨⟨1, ⟨7⟩⟩, 1⟩, .Blank⟩])
    ⟨0, rfl, fun id hid => by cases hid⟩
  have h2 := h1.next (.truncate ⟨⟨1, ⟨7⟩⟩, 1⟩)
    ⟨⟨⟨⟨1, ⟨7⟩⟩, 1⟩, .Blank⟩, by decide +kernel, rfl⟩
  have h3 := h2.next (.append [⟨⟨⟨2, ⟨8⟩⟩, 1⟩, .Blank⟩]) ⟨1, rfl, fun id hid => by
    have hlast : some id = some ⟨⟨1, ⟨7⟩⟩, 0⟩ := hid.symm.trans (by decide +kernel)
    cases hlast
    rfl⟩
  exact h3.next (.purge ⟨⟨1, ⟨7⟩⟩, 0⟩) ⟨⟨⟨⟨1, ⟨7⟩⟩, 0⟩, .Blank⟩, by decide +kernel, rfl⟩

theorem rewritten_reads_back :
    (rewritten.foldl LogStoreInner.step .default).log[(1 : Nat)]? = lastWritten rewritten 1 :=
  (log_is_one_interval rewritten_reaches).2.2.2.2 1

end LogStoreInner

end marie.lease
