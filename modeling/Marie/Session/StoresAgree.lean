-- The stores of a session under the same calls: the three maps in memory, and
-- the three tables. They answer alike, but for the requests to a human: the
-- kind of a frame that is bound to one has no JSON.
import Marie.Lib.Backends
import Marie.Session.SessionTables

open Backends Runs

namespace marie.session.stored

open Codecs Maps serde

/-! ## Calls -/

inductive FrameCall
  | get_root_frame_id (id : SessionId)
  | set_root_frame_id (id : SessionId) (frame_id : FrameId)
  | get_frame (id : SessionId) (frame_id : FrameId)
  | bind_hitl_to_frame (id : SessionId) (frame_id : FrameId) (hitl_id : HitlId)
  | get_frame_id_by_hitl_id (id : SessionId) (hitl_id : HitlId)
  | upsert_frame (node : FrameNode)
  | delete_frame (id : SessionId) (frame_id : FrameId)

inductive SnapshotCall
  | latest_snapshot (id : SessionId) (frame_id : FrameId)
  | snapshot_at (id : SessionId) (frame_id : FrameId) (superstep : UInt32)
  | upsert_snapshot (snapshot : Snapshot)

inductive LogCall
  | insert_log (log : SessionLog)
  | list_log (id : SessionId)
  | list_log_after (id : SessionId) (query : SearchLogQuery)

inductive Call
  | frame (c : FrameCall)
  | snapshot (c : SnapshotCall)
  | log (c : LogCall)

/-- `one_of` is the answer of a lookup that several frames may match. -/
inductive Reply
  | frame (node : FrameNode)
  | frame_id (id : FrameId)
  | one_of (ids : List FrameId)
  | snapshot (snapshot : Snapshot)
  | logs (logs : List SessionLog)
  | done

/-- The same value, but for the choice among several frames, and the order of the entries of a
journal that were created at the same time. -/
def Reply.Alike : Reply → Reply → Prop
  | .frame n, .frame n' => n = n'
  | .frame_id id, .frame_id id' => id = id'
  | .one_of ids, .one_of ids' => ids.Perm ids'
  | .snapshot s, .snapshot s' => s = s'
  | .logs ls, .logs ls' => ls.Perm ls' ∧ ls.map (·.created_at) = ls'.map (·.created_at)
  | .done, .done => True
  | _, _ => False

/-- Both calls fail, or both end with the same value. -/
def Same : Except StoreError Reply → Except PgError Reply → Prop
  | .ok r, .ok r' => r.Alike r'
  | .error _, .error _ => True
  | _, _ => False

/-! ### In memory -/

def InMemorySessionFrameStore.call (c : FrameCall) (self : InMemorySessionFrameStore) :
    Except StoreError Reply × InMemorySessionFrameStore :=
  match c with
  | .get_root_frame_id id => ((self.get_root_frame_id id).map .one_of, self)
  | .set_root_frame_id id frame_id =>
    ((self.set_root_frame_id id frame_id).1.map .frame_id, (self.set_root_frame_id id frame_id).2)
  | .get_frame id frame_id => ((self.get_frame id frame_id).map .frame, self)
  | .bind_hitl_to_frame id frame_id hitl_id =>
    ((self.bind_hitl_to_frame id frame_id hitl_id).1.map fun _ => .done,
      (self.bind_hitl_to_frame id frame_id hitl_id).2)
  | .get_frame_id_by_hitl_id id hitl_id =>
    ((self.get_frame_id_by_hitl_id id hitl_id).map .one_of, self)
  | .upsert_frame node => ((self.upsert_frame node).1.map .frame, (self.upsert_frame node).2)
  | .delete_frame id frame_id =>
    ((self.delete_frame id frame_id).1.map .frame, (self.delete_frame id frame_id).2)

def InMemorySessionSnapshotStore.call (c : SnapshotCall) (self : InMemorySessionSnapshotStore) :
    Except StoreError Reply × InMemorySessionSnapshotStore :=
  match c with
  | .latest_snapshot id frame_id => ((self.latest_snapshot id frame_id).map .snapshot, self)
  | .snapshot_at id frame_id superstep =>
    ((self.snapshot_at id frame_id superstep).map .snapshot, self)
  | .upsert_snapshot snapshot =>
    ((self.upsert_snapshot snapshot).1.map fun _ => .done, (self.upsert_snapshot snapshot).2)

def InMemorySessionLogsStore.call (c : LogCall) (self : InMemorySessionLogsStore) :
    Except StoreError Reply × InMemorySessionLogsStore :=
  match c with
  | .insert_log log => ((self.insert_log log).1.map fun _ => .done, (self.insert_log log).2)
  | .list_log id => ((self.list_log id).map .logs, self)
  | .list_log_after id query => ((self.list_log_after id query).map .logs, self)

structure InMemorySessionStore where
  frames : InMemorySessionFrameStore
  snapshots : InMemorySessionSnapshotStore
  logs : InMemorySessionLogsStore

namespace InMemorySessionStore

def new : InMemorySessionStore := ⟨.new, .new, .new⟩

def call (c : Call) (self : InMemorySessionStore) :
    Except StoreError Reply × InMemorySessionStore :=
  match c with
  | .frame c => ((self.frames.call c).1, { self with frames := (self.frames.call c).2 })
  | .snapshot c => ((self.snapshots.call c).1, { self with snapshots := (self.snapshots.call c).2 })
  | .log c => ((self.logs.call c).1, { self with logs := (self.logs.call c).2 })

end InMemorySessionStore

/-! ### On the database -/

/-- The JSON of a node is one that the column and its reader give back. -/
def PgFrameStore.call (c : FrameCall) (self : PgFrameStore) :
    Except PgError Reply × PgFrameStore :=
  match c with
  | .get_root_frame_id id => ((self.get_root_frame_id id).map .one_of, self)
  | .set_root_frame_id id frame_id =>
    ((self.set_root_frame_id id frame_id).1.map .frame_id, (self.set_root_frame_id id frame_id).2)
  | .get_frame id frame_id => ((self.get_frame some id frame_id).map .frame, self)
  | .bind_hitl_to_frame id frame_id hitl_id =>
    ((self.bind_hitl_to_frame id frame_id hitl_id).1.map fun _ => .done,
      (self.bind_hitl_to_frame id frame_id hitl_id).2)
  | .get_frame_id_by_hitl_id id hitl_id =>
    ((self.get_frame_id_by_hitl_id id hitl_id).map .one_of, self)
  | .upsert_frame node => ((self.upsert_frame node).1.map .frame, (self.upsert_frame node).2)
  | .delete_frame id frame_id =>
    ((self.delete_frame some id frame_id).1.map .frame, (self.delete_frame some id frame_id).2)

def PgSnapshotStore.call (utc : Serde Timestamp) (c : SnapshotCall) (self : PgSnapshotStore) :
    Except PgError Reply × PgSnapshotStore :=
  match c with
  | .latest_snapshot id frame_id => ((self.latest_snapshot utc id frame_id).map .snapshot, self)
  | .snapshot_at id frame_id superstep =>
    ((self.snapshot_at utc id frame_id superstep).map .snapshot, self)
  | .upsert_snapshot snapshot =>
    ((self.upsert_snapshot utc snapshot).1.map fun _ => .done,
      (self.upsert_snapshot utc snapshot).2)

def PgLogStore.call (c : LogCall) (self : PgLogStore) : Except PgError Reply × PgLogStore :=
  match c with
  | .insert_log log => ((self.insert_log log).1.map fun _ => .done, (self.insert_log log).2)
  | .list_log id => ((self.list_log id).map .logs, self)
  | .list_log_after id query => ((self.list_log_after id query).map .logs, self)

structure PgSessionStore where
  frames : PgFrameStore
  snapshots : PgSnapshotStore
  logs : PgLogStore

namespace PgSessionStore

/-- The empty tables, under the sessions of `marie_sessions`. -/
def new (sessions : List SessionId) : PgSessionStore :=
  ⟨.new sessions, .new sessions, .new sessions⟩

def call (utc : Serde Timestamp) (c : Call) (self : PgSessionStore) :
    Except PgError Reply × PgSessionStore :=
  match c with
  | .frame c => ((self.frames.call c).1, { self with frames := (self.frames.call c).2 })
  | .snapshot c =>
    ((self.snapshots.call utc c).1, { self with snapshots := (self.snapshots.call utc c).2 })
  | .log c => ((self.logs.call c).1, { self with logs := (self.logs.call c).2 })

end PgSessionStore

/-! ## Frames -/

/-- What a frame carries is read back as it was written, whatever its kind is. -/
structure FrameNode.PayloadKept (n : FrameNode) : Prop where
  logs : ∀ l ∈ n.logs, l.Readable
  status : n.status.Readable
  fits : FrameNode.serde.Fits n

theorem FrameNode.PayloadKept.kept {n : FrameNode} (h : n.PayloadKept)
    (hdata : ∀ hitl_id, n.data ≠ .Hitl hitl_id) : FrameNode.serde.Kept n :=
  Codec.kept_iff.mpr ⟨lossless_frame_node.mpr ⟨hdata, h.logs, h.status⟩, h.fits⟩

section

variable {n : FrameNode} {v : Value}

theorem arrow_is_root (h : FrameNode.serde.encode n = some v) :
    is_true (arrow "is_root" v) = n.is_root := by
  obtain ⟨fields, hfields, rfl⟩ := Option.map_eq_some_iff.mp h
  have hfield : arrow "is_root" (.Object fields) = some (.Bool n.is_root) :=
    arrow_middle (F := state_fields) (c := bool) (G := link_fields) (b := n.is_root) (by decide)
      hfields rfl
  rw [hfield]
  rfl

/-- To set the flag in the row of a frame is to write the frame with it. -/
theorem writes_is_root (b : Bool) (h : FrameNode.serde.Writes n v) :
    FrameNode.serde.Writes { n with is_root := b } (jsonb_set "is_root" (.Bool b) v) := by
  obtain ⟨fields, hfields, hobject⟩ := Option.map_eq_some_iff.mp h.encode
  subst hobject
  have henc : FrameNode.serde.encode { n with is_root := b } =
      some (jsonb_set "is_root" (.Bool b) (.Object fields)) :=
    jsonb_set_middle (F := state_fields) (c := bool) (G := link_fields) (b := n.is_root) (by decide)
      hfields rfl
  have hlossless := lossless_frame_node.mp ⟨_, h.encode, h.decode⟩
  obtain ⟨v', henc', hdec'⟩ := (lossless_frame_node (n := { n with is_root := b })).mpr hlossless
  obtain rfl := Option.some.inj (henc.symm.trans henc')
  have hfits : FrameNode.serde.Fits n := (FrameNode.serde.fits_iff h.encode).mp h.taken
  exact ⟨henc, (FrameNode.serde.fits_iff henc).mpr hfits, hdec'⟩

end

/-- The rows are those of the map, whose frames are under their own keys. -/
structure FrameTwins (sessions : List SessionId) (mem : InMemorySessionFrameStore)
    (pg : PgFrameStore) : Prop where
  same_sessions : pg.sessions = sessions
  own_key : ∀ key n, mem.frames.find key = some n → (n.session_id, n.id) = key
  rows : Documents FrameNode.serde mem.frames pg.frames

namespace FrameTwins

variable {sessions : List SessionId} {mem : InMemorySessionFrameStore} {pg : PgFrameStore}

theorem new : FrameTwins sessions .new (.new sessions) where
  same_sessions := rfl
  own_key := by
    intro key n h
    cases h
  rows := documents_empty

/-- A lookup in both stores, that takes a row as it takes its frame. -/
theorem lookup {p : FrameNode → Bool} {q : (SessionId × FrameId) × Value → Bool}
    (h : FrameTwins sessions mem pg)
    (hpq : ∀ key n v, mem.frames.find key = some n → FrameNode.serde.Writes n v →
      p n = q (key, v)) :
    ((mem.frames.entries.filter fun e => p e.2).map (·.2.id)).Perm
      ((pg.frames.entries.filter q).map (·.1.2)) := by
  obtain ⟨es, hrows, hperm⟩ := h.rows.select (p := fun e => p e.2) (q := q) hpq
  have hkeys : (pg.frames.entries.filter q).map (·.1.2) = es.map (·.1.2) :=
    (Documents.map_of_rows hrows fun _ _ hrow => congrArg Prod.snd hrow.1).symm
  have hids : (mem.frames.entries.filter fun e => p e.2).map (·.2.id) =
      (mem.frames.entries.filter fun e => p e.2).map (·.1.2) := by
    apply List.map_congr_left
    intro e he
    have hfind := Entries.find_eq_some.mpr (List.mem_of_mem_filter he)
    exact congrArg Prod.snd (h.own_key _ _ hfind)
  rw [hkeys, hids]
  exact (hperm.map _).symm

theorem get_root_frame_id (h : FrameTwins sessions mem pg) (id : SessionId) :
    Same ((mem.get_root_frame_id id).map .one_of) ((pg.get_root_frame_id id).map .one_of) := by
  have hperm := h.lookup (p := fun n => n.session_id = id ∧ n.is_root = true)
    (q := fun row => row.1.1 = id ∧ is_true (arrow "is_root" row.2) = true) (by
      intro key n v hfind hw
      have hsession : n.session_id = key.1 := congrArg Prod.fst (h.own_key _ _ hfind)
      simp only [arrow_is_root hw.encode, hsession])
  unfold InMemorySessionFrameStore.get_root_frame_id PgFrameStore.get_root_frame_id
  cases hmem : mem.frames.entries.filter fun e => e.2.session_id = id ∧ e.2.is_root = true with
  | nil =>
    rw [hmem, List.map_nil] at hperm
    have hnil := List.map_eq_nil_iff.mp hperm.symm.eq_nil
    rw [hnil]
    exact trivial
  | cons e es =>
    rw [hmem] at hperm
    cases hpg : pg.frames.entries.filter fun row =>
        row.1.1 = id ∧ is_true (arrow "is_root" row.2) = true with
    | nil =>
      rw [hpg] at hperm
      exact absurd hperm.eq_nil (by simp)
    | cons row rows =>
      rw [hpg] at hperm
      exact hperm

theorem get_frame (h : FrameTwins sessions mem pg) (id : SessionId) (frame_id : FrameId) :
    Same ((mem.get_frame id frame_id).map .frame) ((pg.get_frame some id frame_id).map .frame) := by
  unfold InMemorySessionFrameStore.get_frame PgFrameStore.get_frame
  cases hfind : mem.frames.find (id, frame_id) with
  | none =>
    rw [h.rows.find_eq_none.mp hfind]
    exact trivial
  | some n =>
    obtain ⟨v, hrow, hw⟩ := h.rows.of_value hfind
    rw [hrow]
    simp only [PgFrameStore.decode_node, Option.bind_some, hw.decode]
    exact rfl

theorem delete_frame (h : FrameTwins sessions mem pg) (id : SessionId) (frame_id : FrameId) :
    Same ((mem.delete_frame id frame_id).1.map .frame)
        ((pg.delete_frame some id frame_id).1.map .frame) ∧
      FrameTwins sessions (mem.delete_frame id frame_id).2 (pg.delete_frame some id frame_id).2 := by
  unfold InMemorySessionFrameStore.delete_frame PgFrameStore.delete_frame
  cases hfind : mem.frames.find (id, frame_id) with
  | none =>
    rw [h.rows.find_eq_none.mp hfind]
    exact ⟨trivial, h⟩
  | some n =>
    obtain ⟨v, hrow, hw⟩ := h.rows.of_value hfind
    rw [hrow]
    simp only [PgFrameStore.decode_node, Option.bind_some, hw.decode]
    refine ⟨rfl, h.same_sessions, ?_, h.rows.erase⟩
    intro key n' hkey
    rw [Entries.find_erase] at hkey
    split at hkey
    · cases hkey
    · exact h.own_key key n' hkey

/-- An upsert is taken by both stores exactly when the frame is not bound to a request. -/
theorem upsert_frame (h : FrameTwins sessions mem pg) {n : FrameNode}
    (hsession : n.session_id ∈ sessions) (hn : n.PayloadKept) :
    (Same ((mem.upsert_frame n).1.map .frame) ((pg.upsert_frame n).1.map .frame) ↔
      ∀ hitl_id, n.data ≠ .Hitl hitl_id) ∧
      ((∀ hitl_id, n.data ≠ .Hitl hitl_id) →
        FrameTwins sessions (mem.upsert_frame n).2 (pg.upsert_frame n).2) := by
  have hpg (hdata : ∀ hitl_id, n.data ≠ .Hitl hitl_id) :
      ∃ v, FrameNode.serde.Writes n v ∧ pg.upsert_frame n =
        (.ok n, { pg with frames := pg.frames.insert ((n.session_id, n.id), v) }) := by
    obtain ⟨v, hw⟩ := Codec.kept_iff_writes.mp (hn.kept hdata)
    refine ⟨v, hw, PgFrameStore.upsert_frame_of_encode hw.encode hw.taken ?_⟩
    rwa [h.same_sessions]
  constructor
  · constructor
    · intro hsame hitl_id hdata
      cases hupsert : pg.upsert_frame n with
      | mk r s =>
        rw [hupsert] at hsame
        cases r with
        | error e => exact hsame
        | ok n' =>
          obtain rfl : n = n' := hsame
          obtain ⟨v, henc, hjsonb, -⟩ :=
            PgFrameStore.encode_of_upsert_frame (congrArg Prod.fst hupsert)
          rw [encode_of_hitl hdata] at henc
          cases henc
    · intro hdata
      obtain ⟨v, -, hupsert⟩ := hpg hdata
      rw [hupsert]
      exact rfl
  · intro hdata
    obtain ⟨v, hw, hupsert⟩ := hpg hdata
    rw [hupsert]
    refine ⟨h.same_sessions, ?_, h.rows.insert hw⟩
    intro key n' hkey
    simp only [InMemorySessionFrameStore.upsert_frame, Entries.find_insert] at hkey
    split at hkey
    · rename_i heq
      cases hkey
      exact heq
    · exact h.own_key key n' hkey

/-- The row of a frame, when `frame_id` becomes the root of its session. -/
theorem writes_root {id : SessionId} {frame_id : FrameId} {rows : Entries (SessionId × FrameId) Value}
    {x : SessionId × FrameId} {n : FrameNode} {v v' : Value}
    (hrow : rows.find (id, frame_id) = some v) (hrow' : rows.find x = some v')
    (hw : FrameNode.serde.Writes n v') :
    Option.Rel FrameNode.serde.Writes
      (some (if x.1 = id then { n with is_root := x.2 = frame_id } else n))
      (if (id, frame_id) = x then some (jsonb_set "is_root" (.Bool true) v)
        else some (if x.1 = id ∧ x.2 ≠ frame_id ∧ is_true (arrow "is_root" v') = true then
          jsonb_set "is_root" (.Bool false) v' else v')) := by
  by_cases hx : (id, frame_id) = x
  · subst hx
    obtain rfl := Option.some.inj (hrow.symm.trans hrow')
    simpa using Option.Rel.some (writes_is_root true hw)
  · rw [if_neg hx]
    apply Option.Rel.some
    by_cases hid : x.1 = id
    · have hne : x.2 ≠ frame_id := by
        rintro rfl
        exact hx (by rw [← hid])
      rw [if_pos hid, arrow_is_root hw.encode]
      by_cases hroot : n.is_root = true
      · simpa [hid, hne, hroot] using writes_is_root false hw
      · have hsame : { n with is_root := decide (x.2 = frame_id) } = n := by
          cases n
          simp_all
        rw [if_neg (by simp [hroot]), hsame]
        exact hw
    · rw [if_neg hid, if_neg (by simp [hid])]
      exact hw

theorem set_root_frame_id (h : FrameTwins sessions mem pg) (id : SessionId) (frame_id : FrameId) :
    Same ((mem.set_root_frame_id id frame_id).1.map .frame_id)
        ((pg.set_root_frame_id id frame_id).1.map .frame_id) ∧
      FrameTwins sessions (mem.set_root_frame_id id frame_id).2
        (pg.set_root_frame_id id frame_id).2 := by
  unfold InMemorySessionFrameStore.set_root_frame_id PgFrameStore.set_root_frame_id
  dsimp only
  rw [Entries.find_map]
  cases hfind : mem.frames.find (id, frame_id) with
  | none =>
    rw [h.rows.find_eq_none.mp hfind]
    exact ⟨trivial, h⟩
  | some n =>
    obtain ⟨v, hrow, -⟩ := h.rows.of_value hfind
    -- the row of the new root is not lowered
    have hlowered : (if (id, frame_id).1 = id ∧ (id, frame_id).2 ≠ frame_id ∧
        is_true (arrow "is_root" v) = true then jsonb_set "is_root" (.Bool false) v else v) = v :=
      if_neg (by simp)
    rw [hrow, Option.map_some, hlowered]
    refine ⟨rfl, h.same_sessions, ?_, ?_⟩
    · intro key n' hkey
      rw [Entries.find_map] at hkey
      obtain ⟨n'', hn'', rfl⟩ := Option.map_eq_some_iff.mp hkey
      split
      · exact h.own_key key n'' hn''
      · exact h.own_key key n'' hn''
    · intro x
      rw [Entries.find_map, Entries.find_insert, Entries.find_map]
      cases hx : mem.frames.find x with
      | none =>
        have hne : (id, frame_id) ≠ x := by
          rintro rfl
          rw [hfind] at hx
          cases hx
        rw [if_neg hne, h.rows.find_eq_none.mp hx]
        exact .none
      | some n' =>
        obtain ⟨v', hrow', hw'⟩ := h.rows.of_value hx
        rw [hrow', Option.map_some, Option.map_some]
        exact writes_root hrow hrow' hw'

/-- A call on the frames that is answered alike: no lookup by a request to a human, and no frame
that is bound to one. -/
def Unbound (mem : InMemorySessionFrameStore) : FrameCall → Prop
  | .bind_hitl_to_frame id frame_id _ => mem.frames.find (id, frame_id) = none
  | .get_frame_id_by_hitl_id _ _ => False
  | .upsert_frame node => ∀ hitl_id, node.data ≠ .Hitl hitl_id
  | _ => True

theorem call {c : FrameCall} (h : FrameTwins sessions mem pg)
    (hc : ∀ n, c = .upsert_frame n → n.session_id ∈ sessions ∧ n.PayloadKept) :
    (Same (mem.call c).1 (pg.call c).1 ↔ Unbound mem c) ∧
      (Unbound mem c → FrameTwins sessions (mem.call c).2 (pg.call c).2) := by
  cases c with
  | get_root_frame_id id =>
    exact ⟨iff_of_true (h.get_root_frame_id id) trivial, fun _ => h⟩
  | set_root_frame_id id frame_id =>
    obtain ⟨hsame, hafter⟩ := h.set_root_frame_id id frame_id
    exact ⟨iff_of_true hsame trivial, fun _ => hafter⟩
  | get_frame id frame_id =>
    exact ⟨iff_of_true (h.get_frame id frame_id) trivial, fun _ => h⟩
  | bind_hitl_to_frame id frame_id hitl_id =>
    unfold InMemorySessionFrameStore.call PgFrameStore.call
    simp only [PgFrameStore.bind_hitl_to_frame_eq]
    unfold InMemorySessionFrameStore.bind_hitl_to_frame
    cases hfind : mem.frames.find (id, frame_id) with
    | none => exact ⟨iff_of_true trivial hfind, fun _ => h⟩
    | some n =>
      have hbound : ¬ Unbound mem (.bind_hitl_to_frame id frame_id hitl_id) := by
        rw [Unbound, hfind]
        simp
      exact ⟨iff_of_false (fun hsame => hsame) hbound, fun hc => absurd hc hbound⟩
  | get_frame_id_by_hitl_id id hitl_id =>
    unfold InMemorySessionFrameStore.call PgFrameStore.call
    simp only [PgFrameStore.get_frame_id_by_hitl_id_eq]
    exact ⟨iff_of_false (fun hsame => hsame) (fun hc => hc), fun hc => absurd hc fun hc => hc⟩
  | upsert_frame n =>
    obtain ⟨hsession, hkept⟩ := hc n rfl
    exact h.upsert_frame hsession hkept
  | delete_frame id frame_id =>
    obtain ⟨hsame, hafter⟩ := h.delete_frame id frame_id
    exact ⟨iff_of_true hsame trivial, fun _ => hafter⟩

end FrameTwins

/-! ## Snapshots -/

def snapshot_key (key : SessionId × FrameId × UInt32) : SessionId × FrameId × Int :=
  (key.1, key.2.1, bigint key.2.2)

theorem bigint_inj {a b : UInt32} : bigint a = bigint b ↔ a = b := by
  unfold bigint
  rw [Int.natCast_inj, UInt32.toNat_inj]

theorem snapshot_key_injective : Function.Injective snapshot_key := by
  rintro ⟨s, f, n⟩ ⟨s', f', n'⟩ heq
  simp only [snapshot_key, Prod.mk.injEq, bigint_inj] at heq
  simp [heq]

/-- The rows are those of the map, under the supersteps as the column has them. -/
structure SnapshotTwins (utc : Serde Timestamp) (sessions : List SessionId)
    (mem : InMemorySessionSnapshotStore) (pg : PgSnapshotStore) : Prop where
  same_sessions : pg.sessions = sessions
  own_key : ∀ key s, mem.snapshots.find key = some s → (s.session_id, s.frame_id, s.superstep) = key
  rows : Documents (Snapshot.serde utc)
    (mem.snapshots.mapKeys snapshot_key snapshot_key_injective) pg.snapshots

namespace SnapshotTwins

variable {utc : Serde Timestamp} {sessions : List SessionId} {mem : InMemorySessionSnapshotStore}
  {pg : PgSnapshotStore}

theorem new : SnapshotTwins utc sessions .new (.new sessions) where
  same_sessions := rfl
  own_key := by
    intro key s h
    cases h
  rows := documents_empty

theorem snapshot_at (h : SnapshotTwins utc sessions mem pg) (id : SessionId) (frame_id : FrameId)
    (superstep : UInt32) :
    Same ((mem.snapshot_at id frame_id superstep).map .snapshot)
      ((pg.snapshot_at utc id frame_id superstep).map .snapshot) := by
  unfold InMemorySessionSnapshotStore.snapshot_at PgSnapshotStore.snapshot_at
  have hkey : (mem.snapshots.mapKeys snapshot_key snapshot_key_injective).find
      (id, frame_id, bigint superstep) = mem.snapshots.find (id, frame_id, superstep) :=
    Entries.find_mapKeys (f := snapshot_key) (k := (id, frame_id, superstep))
  cases hfind : mem.snapshots.find (id, frame_id, superstep) with
  | none =>
    rw [hfind] at hkey
    rw [h.rows.find_eq_none.mp hkey]
    exact trivial
  | some s =>
    rw [hfind] at hkey
    obtain ⟨v, hrow, hw⟩ := h.rows.of_value hkey
    rw [hrow]
    simp only [PgSnapshotStore.decode_data, hw.decode]
    exact rfl

theorem upsert_snapshot (h : SnapshotTwins utc sessions mem pg) {s : Snapshot}
    (hsession : s.session_id ∈ sessions) (hs : (Snapshot.serde utc).Kept s) :
    Same ((mem.upsert_snapshot s).1.map fun _ => .done)
        ((pg.upsert_snapshot utc s).1.map fun _ => .done) ∧
      SnapshotTwins utc sessions (mem.upsert_snapshot s).2 (pg.upsert_snapshot utc s).2 := by
  obtain ⟨v, hw⟩ := Codec.kept_iff_writes.mp hs
  unfold InMemorySessionSnapshotStore.upsert_snapshot PgSnapshotStore.upsert_snapshot
  rw [hw.encode]
  dsimp only
  rw [if_neg (Jsonb.ne_false hw.taken), if_neg (by rw [h.same_sessions]; exact not_not.mpr hsession)]
  refine ⟨trivial, h.same_sessions, ?_, ?_⟩
  · intro key s' hkey
    rw [Entries.find_insert] at hkey
    split at hkey
    · rename_i heq
      cases hkey
      exact heq
    · exact h.own_key key s' hkey
  · intro x
    rw [Entries.find_mapKeys_insert]
    exact h.rows.insert hw x

/-- The snapshots of a frame that the two queries order, with their rows. -/
theorem rows_of_frame (h : SnapshotTwins utc sessions mem pg) (id : SessionId) (frame_id : FrameId) :
    ∃ es : List ((SessionId × FrameId × Int) × Snapshot),
      List.Forall₂ (Documents.Row (Snapshot.serde utc)) es
        (pg.snapshots.entries.filter fun row => row.1.1 = id ∧ row.1.2.1 = frame_id) ∧
      (es.map (·.2)).Perm ((mem.snapshots.entries.map (·.2)).filter fun s =>
        s.session_id = id ∧ s.frame_id = frame_id) ∧
      ∀ e ∈ es, e ∈ (mem.snapshots.mapKeys snapshot_key snapshot_key_injective).entries ∧
        e.1 = (id, frame_id, bigint e.2.superstep) := by
  obtain ⟨es, hrows, hperm⟩ := h.rows.select (p := fun e => e.1.1 = id ∧ e.1.2.1 = frame_id)
    (q := fun row => row.1.1 = id ∧ row.1.2.1 = frame_id) (fun _ _ _ _ _ => rfl)
  refine ⟨es, hrows, ?_, ?_⟩
  · refine (hperm.map _).trans (List.Perm.of_eq ?_)
    unfold Entries.mapKeys
    rw [List.filter_map, List.map_map, List.filter_map]
    have hfilter : mem.snapshots.entries.filter ((fun e : (SessionId × FrameId × Int) × Snapshot =>
        decide (e.1.1 = id ∧ e.1.2.1 = frame_id)) ∘ fun e => (snapshot_key e.1, e.2)) =
        mem.snapshots.entries.filter ((fun s : Snapshot =>
          decide (s.session_id = id ∧ s.frame_id = frame_id)) ∘ (·.2)) := by
      apply List.filter_congr
      rintro ⟨key, s⟩ he
      obtain rfl := h.own_key _ _ (Entries.find_eq_some.mpr he)
      rfl
    rw [hfilter]
    rfl
  · intro e he
    obtain ⟨hmem, hkey⟩ := List.mem_filter.mp (hperm.mem_iff.mp he)
    refine ⟨hmem, ?_⟩
    obtain ⟨⟨key, s⟩, hin, rfl⟩ := List.mem_map.mp hmem
    obtain rfl := h.own_key _ _ (Entries.find_eq_some.mpr hin)
    obtain ⟨rfl, rfl⟩ := of_decide_eq_true hkey
    rfl

instance : Std.Total PgSnapshotStore.newest := ⟨fun a b => (Int.le_total a.1.2.2 b.1.2.2).symm⟩

instance : IsTrans ((SessionId × FrameId × Int) × Value) PgSnapshotStore.newest :=
  ⟨fun _ _ _ hab hbc => Int.le_trans hbc hab⟩

/-- The last snapshot of both queries is the one with the greatest superstep. -/
theorem latest_snapshot (h : SnapshotTwins utc sessions mem pg) (id : SessionId)
    (frame_id : FrameId) :
    Same ((mem.latest_snapshot id frame_id).map .snapshot)
      ((pg.latest_snapshot utc id frame_id).map .snapshot) := by
  obtain ⟨es, hrows, hperm, hes⟩ := h.rows_of_frame id frame_id
  unfold InMemorySessionSnapshotStore.latest_snapshot PgSnapshotStore.latest_snapshot
  dsimp only
  cases hfirst : Table.first PgSnapshotStore.newest (pg.snapshots.entries.filter fun row =>
      row.1.1 = id ∧ row.1.2.1 = frame_id) with
  | none =>
    rw [Table.first_eq_none.mp hfirst] at hrows
    cases hrows
    have hnil := hperm.symm.eq_nil
    rw [hnil]
    exact trivial
  | some row =>
    obtain ⟨hrow, hnewest⟩ := Table.first_spec hfirst
    obtain ⟨e, he, hkey, hw⟩ := Documents.mem_of_rows hrows hrow
    have hin := hperm.mem_iff.mp (List.mem_map_of_mem he)
    cases hlatest : ((mem.snapshots.entries.map (·.2)).filter fun s =>
        s.session_id = id ∧ s.frame_id = frame_id).argmax fun s => s.superstep.toNat with
    | none =>
      rw [List.argmax_eq_none.mp hlatest] at hin
      cases hin
    | some s =>
      have hmax : e.2.superstep.toNat ≤ s.superstep.toNat :=
        List.le_of_mem_argmax (f := fun s : Snapshot => s.superstep.toNat) hin hlatest
      obtain ⟨e', he', rfl⟩ := List.mem_map.mp (hperm.mem_iff.mpr (List.argmax_mem hlatest))
      obtain ⟨row', hrow', hkey', -⟩ := Documents.row_of_mem hrows he'
      have hle : bigint e'.2.superstep ≤ bigint e.2.superstep := by
        have hcolumn : row'.1.2.2 ≤ row.1.2.2 := by
          rcases hnewest row' hrow' with rfl | hbefore
          · exact Int.le_refl _
          · exact hbefore
        rwa [← hkey, ← hkey', (hes e he).2, (hes e' he').2] at hcolumn
      have hstep : e'.2.superstep.toNat = e.2.superstep.toNat := by
        unfold bigint at hle
        omega
      have hsame : e'.1 = e.1 := by
        rw [(hes e he).2, (hes e' he').2]
        unfold bigint
        rw [hstep]
      obtain rfl := List.inj_on_of_nodup_map
        (mem.snapshots.mapKeys snapshot_key snapshot_key_injective).nodup (hes e' he').1
          (hes e he).1 hsame
      simp only [PgSnapshotStore.decode_data, hw.decode]
      exact rfl

theorem call {c : SnapshotCall} (h : SnapshotTwins utc sessions mem pg)
    (hc : ∀ s, c = .upsert_snapshot s → s.session_id ∈ sessions ∧ (Snapshot.serde utc).Kept s) :
    Same (mem.call c).1 (pg.call utc c).1 ∧
      SnapshotTwins utc sessions (mem.call c).2 (pg.call utc c).2 := by
  cases c with
  | latest_snapshot id frame_id => exact ⟨h.latest_snapshot id frame_id, h⟩
  | snapshot_at id frame_id superstep => exact ⟨h.snapshot_at id frame_id superstep, h⟩
  | upsert_snapshot s =>
    obtain ⟨hsession, hkept⟩ := hc s rfl
    exact h.upsert_snapshot hsession hkept

end SnapshotTwins

/-! ## Journals -/

/-- The rows are those of the map, whose entries are under their own keys. -/
structure LogTwins (sessions : List SessionId) (mem : InMemorySessionLogsStore) (pg : PgLogStore) :
    Prop where
  same_sessions : pg.sessions = sessions
  own_key : ∀ key log, mem.logs.find key = some log → (log.session_id, log.id) = key
  rows : Documents SessionLog.columns mem.logs pg.logs

/-- The row of an entry has its columns. -/
theorem columns_of_writes {log : SessionLog} {row : LogRow} (h : SessionLog.columns.Writes log row) :
    log_content.Writes log.content row.content ∧
      row = ⟨log.session_id, log.id, row.content, log.created_at, log.last_updated_at⟩ := by
  obtain ⟨v, hv, rfl⟩ := Option.map_eq_some_iff.mp h.encode
  obtain ⟨content, hcontent, hlog⟩ := Option.map_eq_some_iff.mp h.decode
  have heq : content = log.content := congrArg SessionLog.content hlog
  exact ⟨⟨hv, h.taken, heq ▸ hcontent⟩, rfl⟩

theorem writes_columns {content : SessionLogContent} {v : Value} (h : log_content.Writes content v)
    (id : SessionLogId) (session_id : SessionId) (created_at last_updated_at : Timestamp) :
    SessionLog.columns.Writes ⟨id, session_id, content, created_at, last_updated_at⟩
      ⟨session_id, id, v, created_at, last_updated_at⟩ where
  encode := by simp [SessionLog.columns, h.encode]
  taken := h.taken
  decode := by simp [SessionLog.columns, h.decode]

namespace LogTwins

variable {sessions : List SessionId} {mem : InMemorySessionLogsStore} {pg : PgLogStore}

theorem new : LogTwins sessions .new (.new sessions) where
  same_sessions := rfl
  own_key := by
    intro key log h
    cases h
  rows := documents_empty

theorem insert (h : LogTwins sessions mem pg) {log : SessionLog} {row : LogRow}
    (hw : SessionLog.columns.Writes log row) :
    LogTwins sessions ⟨mem.logs.insert ((log.session_id, log.id), log)⟩
      { pg with logs := pg.logs.insert ((log.session_id, log.id), row) } where
  same_sessions := h.same_sessions
  own_key := by
    intro key log' hkey
    rw [Entries.find_insert] at hkey
    split at hkey
    · rename_i heq
      cases hkey
      exact heq
    · exact h.own_key key log' hkey
  rows := h.rows.insert hw

theorem insert_log (h : LogTwins sessions mem pg) {log : SessionLog}
    (hsession : log.session_id ∈ sessions) (hlog : SessionLog.columns.Kept log) :
    Same ((mem.insert_log log).1.map fun _ => .done) ((pg.insert_log log).1.map fun _ => .done) ∧
      LogTwins sessions (mem.insert_log log).2 (pg.insert_log log).2 := by
  obtain ⟨excluded, hw⟩ := Codec.kept_iff_writes.mp hlog
  unfold InMemorySessionLogsStore.insert_log PgLogStore.insert_log
  rw [hw.encode]
  dsimp only
  rw [if_neg (Jsonb.ne_false hw.taken), if_neg (by rw [h.same_sessions]; exact not_not.mpr hsession)]
  cases hfind : mem.logs.find (log.session_id, log.id) with
  | none =>
    rw [h.rows.find_eq_none.mp hfind]
    exact ⟨trivial, h.insert hw⟩
  | some entry =>
    obtain ⟨row, hrow, hentry⟩ := h.rows.of_value hfind
    rw [hrow]
    refine ⟨trivial, ?_⟩
    -- the entry is under the key of `log`, and its row keeps the date of creation
    obtain ⟨hcontent, hexcluded⟩ := columns_of_writes hw
    obtain ⟨-, hrow⟩ := columns_of_writes hentry
    have hkey := h.own_key _ _ hfind
    rw [hrow, hexcluded]
    dsimp only
    rw [← hkey]
    exact h.insert (writes_columns hcontent _ _ _ _)

theorem eq_of_perm_of_sorted {xs ys : List SessionLog} (h : xs.Perm ys)
    (hx : (xs.map (·.created_at)).Pairwise (· ≤ ·)) (hy : (ys.map (·.created_at)).Pairwise (· ≤ ·)) :
    xs.map (·.created_at) = ys.map (·.created_at) :=
  (h.map _).eq_of_pairwise (fun _ _ _ _ => Int.le_antisymm) hx hy

/-- The entries that a condition lets through, in the order of their dates. -/
theorem sorted (h : LogTwins sessions mem pg) {id : SessionId} {p : SessionLog → Bool}
    {q : LogRow → Bool}
    (hpq : ∀ log row, SessionLog.columns.Writes log row →
      p log = decide (log.session_id = id ∧ q row = true)) :
    Same ((.ok (mem.sorted p) : Except StoreError (List SessionLog)).map .logs)
      ((pg.sorted id q).map .logs) := by
  obtain ⟨es, hes, hperm⟩ := h.rows.select (p := fun e => p e.2)
    (q := fun row => row.1.1 = id ∧ q row.2 = true) (by
      intro key log row hfind hw
      obtain rfl := h.own_key _ _ hfind
      exact hpq log row hw)
  obtain ⟨es', hes', hperm'⟩ := Documents.rows_of_perm hes
    (List.perm_insertionSort (fun a b : (SessionId × SessionLogId) × LogRow =>
      a.2.created_at ≤ b.2.created_at) _)
  have hdecode := Documents.decode_rows (f := PgLogStore.decode_log_row id) hes' (by
    rintro ⟨key, log⟩ he ⟨key', row⟩ ⟨rfl, hw⟩
    have hmem := List.mem_filter.mp ((hperm'.trans hperm).mem_iff.mp he)
    obtain ⟨hsession, -⟩ : log.session_id = id ∧ q row = true := by
      have := hmem.2
      rw [hpq log row hw] at this
      exact of_decide_eq_true this
    obtain ⟨hcontent, hrow⟩ := columns_of_writes hw
    rw [hrow]
    simp [PgLogStore.decode_log_row, hcontent.decode, ← hsession])
  unfold PgLogStore.sorted
  dsimp only
  rw [hdecode]
  have hall : (mem.sorted p).Perm (es'.map (·.2)) := by
    unfold InMemorySessionLogsStore.sorted
    refine (List.perm_insertionSort _ _).trans ?_
    rw [List.filter_map]
    exact ((hperm'.trans hperm).map _).symm
  refine ⟨hall, eq_of_perm_of_sorted hall ?_ ?_⟩
  · rw [List.pairwise_map]
    exact List.pairwise_insertionSort _ _
  · have hdates := Documents.map_of_rows (f := fun e => e.2.created_at)
      (g := fun r => r.2.created_at) hes' (by
        rintro ⟨key, log⟩ ⟨key', row⟩ ⟨-, hw⟩
        rw [(columns_of_writes hw).2])
    rw [List.map_map]
    change (es'.map fun e => e.2.created_at).Pairwise _
    rw [hdates, List.pairwise_map]
    exact List.pairwise_insertionSort _ _

theorem call {c : LogCall} (h : LogTwins sessions mem pg)
    (hc : ∀ log, c = .insert_log log → log.session_id ∈ sessions ∧ SessionLog.columns.Kept log) :
    Same (mem.call c).1 (pg.call c).1 ∧ LogTwins sessions (mem.call c).2 (pg.call c).2 := by
  cases c with
  | insert_log log =>
    obtain ⟨hsession, hkept⟩ := hc log rfl
    exact h.insert_log hsession hkept
  | list_log id =>
    refine ⟨h.sorted (q := fun _ => true) fun log row _ => ?_, h⟩
    simp
  | list_log_after id query =>
    refine ⟨h.sorted (q := fun row => query.within row.created_at) fun log row hw => ?_, h⟩
    rw [(columns_of_writes hw).2]

end LogTwins

/-! ## The stores of a session -/

/-- The session of a call is there, and what the call writes is read back from its JSON. -/
def Call.Proper (utc : Serde Timestamp) (sessions : List SessionId) : Call → Prop
  | .frame (.get_root_frame_id id) | .frame (.set_root_frame_id id _) | .frame (.get_frame id _)
  | .frame (.bind_hitl_to_frame id _ _) | .frame (.get_frame_id_by_hitl_id id _)
  | .frame (.delete_frame id _) | .snapshot (.latest_snapshot id _)
  | .snapshot (.snapshot_at id _ _) | .log (.list_log id) | .log (.list_log_after id _) =>
    id ∈ sessions
  | .frame (.upsert_frame node) => node.session_id ∈ sessions ∧ node.PayloadKept
  | .snapshot (.upsert_snapshot s) => s.session_id ∈ sessions ∧ (Snapshot.serde utc).Kept s
  | .log (.insert_log l) => l.session_id ∈ sessions ∧ log_content.Kept l.content

theorem kept_columns {log : SessionLog} (h : log_content.Kept log.content) :
    SessionLog.columns.Kept log := by
  obtain ⟨v, hw⟩ := Codec.kept_iff_writes.mp h
  exact Codec.kept_iff_writes.mpr ⟨_, writes_columns hw _ _ _ _⟩

/-- A call that is answered alike: on the frames, as after the calls before it. -/
def Unbound (before : List Call) : Call → Prop
  | .frame c => FrameTwins.Unbound (after InMemorySessionStore.call .new before).frames c
  | .snapshot _ | .log _ => True

/-- What the calls have left in the maps, and the same in the tables. -/
structure Twins (utc : Serde Timestamp) (sessions : List SessionId) (before : List Call)
    (mem : InMemorySessionStore) (pg : PgSessionStore) : Prop where
  left : mem = after InMemorySessionStore.call .new before
  frames : FrameTwins sessions mem.frames pg.frames
  snapshots : SnapshotTwins utc sessions mem.snapshots pg.snapshots
  logs : LogTwins sessions mem.logs pg.logs

section

variable {utc : Serde Timestamp} {sessions : List SessionId} {before : List Call} {c : Call}
  {mem : InMemorySessionStore} {pg : PgSessionStore}

theorem twins_new : Twins utc sessions [] .new (.new sessions) :=
  ⟨rfl, .new, .new, .new⟩

theorem Twins.call (h : Twins utc sessions before mem pg) (hc : c.Proper utc sessions) :
    (Same (mem.call c).1 (pg.call utc c).1 ↔ Unbound before c) ∧
      (Unbound before c → Twins utc sessions (before ++ [c]) (mem.call c).2 (pg.call utc c).2) := by
  have hleft : (mem.call c).2 = after InMemorySessionStore.call .new (before ++ [c]) := by
    rw [Backends.after_concat, h.left]
  cases c with
  | frame c =>
    obtain ⟨hiff, hafter⟩ := h.frames.call (c := c) (by
      rintro n rfl
      exact hc)
    unfold Unbound
    rw [← h.left]
    exact ⟨hiff, fun hu => ⟨hleft, hafter hu, h.snapshots, h.logs⟩⟩
  | snapshot c =>
    obtain ⟨hsame, hafter⟩ := h.snapshots.call (c := c) (by
      rintro s rfl
      exact hc)
    exact ⟨iff_of_true hsame trivial, fun _ => ⟨hleft, h.frames, hafter, h.logs⟩⟩
  | log c =>
    obtain ⟨hsame, hafter⟩ := h.logs.call (c := c) (by
      rintro log rfl
      exact ⟨hc.1, kept_columns hc.2⟩)
    exact ⟨iff_of_true hsame trivial, fun _ => ⟨hleft, h.frames, h.snapshots, hafter⟩⟩

end

/-- A change of the root that fails changes nothing. -/
theorem set_root_frame_id_error {id : SessionId} {frame_id : FrameId} :
    (∀ (mem : InMemorySessionFrameStore) e, (mem.set_root_frame_id id frame_id).1 = .error e →
      (mem.set_root_frame_id id frame_id).2 = mem) ∧
      ∀ (pg : PgFrameStore) e, (pg.set_root_frame_id id frame_id).1 = .error e →
        (pg.set_root_frame_id id frame_id).2 = pg := by
  constructor
  · intro mem e h
    unfold InMemorySessionFrameStore.set_root_frame_id at h ⊢
    split at h
    · rfl
    · cases h
  · intro pg e h
    unfold PgFrameStore.set_root_frame_id at h ⊢
    dsimp only at h ⊢
    split at h
    · rfl
    · cases h

/-- The last snapshot of a frame has the greatest of its supersteps. -/
theorem latest_snapshot_greatest {mem : InMemorySessionSnapshotStore} {id : SessionId}
    {frame_id : FrameId} {s : Snapshot} (h : mem.latest_snapshot id frame_id = .ok s) :
    ∀ e ∈ mem.snapshots.entries, e.2.session_id = id → e.2.frame_id = frame_id →
      e.2.superstep ≤ s.superstep := by
  intro e he hid hframe
  unfold InMemorySessionSnapshotStore.latest_snapshot at h
  dsimp only at h
  split at h
  · cases h
  · rename_i s' hlatest
    cases h
    have hin : e.2 ∈ (mem.snapshots.entries.map (·.2)).filter fun s =>
        s.session_id = id ∧ s.frame_id = frame_id := by
      refine List.mem_filter.mpr ⟨List.mem_map_of_mem he, ?_⟩
      simp [hid, hframe]
    exact UInt32.le_iff_toNat_le.mpr
      (List.le_of_mem_argmax (f := fun s : Snapshot => s.superstep.toNat) hin hlatest)

/-- An entry of a journal that is written again keeps the date of its creation. -/
theorem insert_log_created_at {log : SessionLog} :
    (∀ (mem : InMemorySessionLogsStore) entry,
      mem.logs.find (log.session_id, log.id) = some entry →
        ∃ entry', (mem.insert_log log).2.logs.find (log.session_id, log.id) = some entry' ∧
          entry'.created_at = entry.created_at) ∧
      ∀ (pg : PgLogStore) row, pg.logs.find (log.session_id, log.id) = some row →
        ∃ row', (pg.insert_log log).2.logs.find (log.session_id, log.id) = some row' ∧
          row'.created_at = row.created_at := by
  constructor
  · intro mem entry h
    unfold InMemorySessionLogsStore.insert_log
    rw [h]
    refine ⟨{ entry with content := log.content, last_updated_at := log.last_updated_at }, ?_, rfl⟩
    rw [Entries.find_insert, if_pos rfl]
  · intro pg row h
    unfold PgLogStore.insert_log
    cases SessionLog.columns.encode log with
    | none => exact ⟨row, h, rfl⟩
    | some excluded =>
      dsimp only
      split
      · exact ⟨row, h, rfl⟩
      · split
        · exact ⟨row, h, rfl⟩
        · rw [h]
          refine ⟨{ row with
            content := excluded.content, last_updated_at := excluded.last_updated_at }, ?_, rfl⟩
          rw [Entries.find_insert, if_pos rfl]

/-- **The stores of a session agree** exactly when no frame is looked up by a request to a human,
and none that is there is bound to one or written as bound. What fails leaves both as they were,
the last snapshot is the one with the greatest superstep, and an entry keeps its date. -/
theorem session_stores_agree_iff (utc : Serde Timestamp) (sessions : List SessionId)
    (calls : List Call) (h : ∀ c ∈ calls, c.Proper utc sessions) :
    (Agree Same InMemorySessionStore.call (PgSessionStore.call utc) .new (.new sessions) calls ↔
      EveryStep Unbound calls) ∧
      (∀ id frame_id,
        (∀ (mem : InMemorySessionFrameStore) e, (mem.set_root_frame_id id frame_id).1 = .error e →
          (mem.set_root_frame_id id frame_id).2 = mem) ∧
          ∀ (pg : PgFrameStore) e, (pg.set_root_frame_id id frame_id).1 = .error e →
            (pg.set_root_frame_id id frame_id).2 = pg) ∧
      (∀ (mem : InMemorySessionSnapshotStore) id frame_id s,
        mem.latest_snapshot id frame_id = .ok s →
          ∀ e ∈ mem.snapshots.entries, e.2.session_id = id → e.2.frame_id = frame_id →
            e.2.superstep ≤ s.superstep) ∧
      ∀ log : SessionLog,
        (∀ (mem : InMemorySessionLogsStore) entry,
          mem.logs.find (log.session_id, log.id) = some entry →
            ∃ entry', (mem.insert_log log).2.logs.find (log.session_id, log.id) = some entry' ∧
              entry'.created_at = entry.created_at) ∧
          ∀ (pg : PgLogStore) row, pg.logs.find (log.session_id, log.id) = some row →
            ∃ row', (pg.insert_log log).2.logs.find (log.session_id, log.id) = some row' ∧
              row'.created_at = row.created_at := by
  refine ⟨?_, fun id frame_id => set_root_frame_id_error, ?_, fun log => insert_log_created_at⟩
  · exact agree_iff_of twins_new (fun _ _ _ _ hc htwins => htwins.call hc) h
  · intro mem id frame_id s hlatest
    exact latest_snapshot_greatest hlatest

/-- The JSON of the start of 1970. -/
def epoch_utc : Serde Timestamp where
  encode t := if t = 0 then some (.String "1970-01-01T00:00:00Z") else none
  decode
    | .String "1970-01-01T00:00:00Z" => some 0
    | _ => none
  Fits _ := True
  fits_iff := by
    intro t v h
    split at h
    · cases h
      exact iff_of_true rfl trivial
    · cases h

def root_frame : FrameNode := { waiting_frame with data := .Void, parent := none }

/-- A session with a root, a snapshot of it, and an entry of its journal. -/
def a_session : List Call :=
  [.frame (.upsert_frame root_frame), .frame (.set_root_frame_id ⟨0, 1⟩ ⟨0, 2⟩),
    .frame (.get_root_frame_id ⟨0, 1⟩),
    .snapshot (.upsert_snapshot ⟨⟨0, 1⟩, ⟨0, 2⟩, 1, .empty, [], 0, 0⟩),
    .snapshot (.latest_snapshot ⟨0, 1⟩ ⟨0, 2⟩),
    .log (.insert_log ⟨⟨0, 5⟩, ⟨0, 1⟩, .Plain "started", 0, 0⟩), .log (.list_log ⟨0, 1⟩)]

theorem a_session_is_stored_alike :
    Agree Same InMemorySessionStore.call (PgSessionStore.call epoch_utc) .new (.new [⟨0, 1⟩])
      a_session ↔ EveryStep Unbound a_session := by
  refine (session_stores_agree_iff epoch_utc [⟨0, 1⟩] a_session ?_).1
  intro c hc
  simp only [a_session, List.mem_cons, List.not_mem_nil, or_false] at hc
  rcases hc with rfl | rfl | rfl | rfl | rfl | rfl | rfl
  · have hkept : ∃ v, FrameNode.serde.encode root_frame = some v ∧ Jsonb v := ⟨_, rfl, rfl⟩
    obtain ⟨v, henc, hjsonb⟩ := hkept
    refine ⟨List.mem_singleton_self _, ?_, trivial, (FrameNode.serde.fits_iff henc).mp hjsonb⟩
    intro l hl
    cases hl
  · exact List.mem_singleton_self _
  · exact List.mem_singleton_self _
  · exact ⟨List.mem_singleton_self _, _, rfl, rfl, rfl⟩
  · exact List.mem_singleton_self _
  · exact ⟨List.mem_singleton_self _, _, rfl, rfl, rfl⟩
  · exact List.mem_singleton_self _

/-- A frame is looked up by a request that none is bound to: nothing is found in memory, and the
table cannot be asked. -/
theorem a_lookup_by_request_is_not_answered_alike :
    ¬ Agree Same InMemorySessionStore.call (PgSessionStore.call epoch_utc) .new (.new [⟨0, 1⟩])
      [.frame (.get_frame_id_by_hitl_id ⟨0, 1⟩ ⟨0, 3⟩)] := by
  intro h
  cases h with
  | cons hfirst _ => exact hfirst

end marie.session.stored
