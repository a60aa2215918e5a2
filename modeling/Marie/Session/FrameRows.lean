-- The frames of every session in their two stores: a map in memory, and the
-- rows of `marie_session_frames`, each with the JSON of its frame. The module
-- says which frames the table gives back.
import Marie.Jsonb
import Marie.Session.FrameText

namespace marie.session.stored

open Codecs Maps serde

/-! ## In memory -/

/-- The errors of the stores in memory. -/
inductive StoreError
  | FrameNotFound (session_id : SessionId) (frame_id : FrameId)
  | NoRootFrame (session_id : SessionId)
  | SnapshotNotFound (session_id : SessionId) (frame_id : FrameId) (superstep : UInt32)

structure InMemorySessionFrameStore where
  frames : Entries (SessionId × FrameId) FrameNode

namespace InMemorySessionFrameStore

def new : InMemorySessionFrameStore := ⟨.empty⟩

/-- `find` on the values of a hash map takes any of those that match: the answer is one of the
frames of the list. -/
def get_root_frame_id (session_id : SessionId) (self : InMemorySessionFrameStore) :
    Except StoreError (List FrameId) :=
  match self.frames.entries.filter (fun e => e.2.session_id = session_id ∧ e.2.is_root = true) with
  | [] => .error (.NoRootFrame session_id)
  | found => .ok (found.map (·.2.id))

def set_root_frame_id (session_id : SessionId) (frame_id : FrameId)
    (self : InMemorySessionFrameStore) : Except StoreError FrameId × InMemorySessionFrameStore :=
  match self.frames.find (session_id, frame_id) with
  | none => (.error (.FrameNotFound session_id frame_id), self)
  | some _ =>
    (.ok frame_id, ⟨self.frames.map fun key existing =>
      if key.1 = session_id then { existing with is_root := key.2 = frame_id } else existing⟩)

def get_frame (session_id : SessionId) (frame_id : FrameId) (self : InMemorySessionFrameStore) :
    Except StoreError FrameNode :=
  match self.frames.find (session_id, frame_id) with
  | none => .error (.FrameNotFound session_id frame_id)
  | some node => .ok node

def bind_hitl_to_frame (session_id : SessionId) (frame_id : FrameId) (hitl_id : HitlId)
    (self : InMemorySessionFrameStore) : Except StoreError Unit × InMemorySessionFrameStore :=
  match self.frames.find (session_id, frame_id) with
  | none => (.error (.FrameNotFound session_id frame_id), self)
  | some frame =>
    (.ok (), ⟨self.frames.insert ((session_id, frame_id), { frame with data := .Hitl hitl_id })⟩)

/-- `frame.data == FrameKind::Hitl(hitl_id)`. -/
def is_bound_to (hitl_id : HitlId) (frame : FrameNode) : Bool :=
  match frame.data with
  | .Hitl id => id = hitl_id
  | _ => false

/-- One of the frames of the list, or `None` when there are none. -/
def get_frame_id_by_hitl_id (session_id : SessionId) (hitl_id : HitlId)
    (self : InMemorySessionFrameStore) : Except StoreError (List FrameId) :=
  .ok ((self.frames.entries.filter fun e =>
    e.2.session_id = session_id ∧ is_bound_to hitl_id e.2 = true).map (·.2.id))

def upsert_frame (node : FrameNode) (self : InMemorySessionFrameStore) :
    Except StoreError FrameNode × InMemorySessionFrameStore :=
  (.ok node, ⟨self.frames.insert ((node.session_id, node.id), node)⟩)

def delete_frame (session_id : SessionId) (frame_id : FrameId) (self : InMemorySessionFrameStore) :
    Except StoreError FrameNode × InMemorySessionFrameStore :=
  match self.frames.find (session_id, frame_id) with
  | none => (.error (.FrameNotFound session_id frame_id), self)
  | some node => (.ok node, ⟨self.frames.erase (session_id, frame_id)⟩)

end InMemorySessionFrameStore

/-! ## On the database -/

/-- `marie_session_frames` by its primary key, under the sessions of `marie_sessions`. The two
columns of the key are the texts of the identifiers, which tell them apart. -/
structure PgFrameStore where
  sessions : List SessionId
  frames : Entries (SessionId × FrameId) Value

namespace PgFrameStore

def new (sessions : List SessionId) : PgFrameStore := ⟨sessions, .empty⟩

def missing_frame (session_id : SessionId) (frame_id : FrameId) : PgError :=
  .Bail ("le frame " ++ frame_id.to_string ++ " n'existe pas pour la session " ++
    session_id.to_string)

/-- `fetch_one` takes any of the rows that match. -/
def get_root_frame_id (session_id : SessionId) (self : PgFrameStore) :
    Except PgError (List FrameId) :=
  match self.frames.entries.filter fun row =>
      row.1.1 = session_id ∧ is_true (arrow "is_root" row.2) = true with
  | [] => .error .RowNotFound
  | rows => .ok (rows.map (·.1.2))

/-- Two `UPDATE`s in one transaction, dropped when the second one meets no row. -/
def set_root_frame_id (session_id : SessionId) (frame_id : FrameId) (self : PgFrameStore) :
    Except PgError FrameId × PgFrameStore :=
  let lowered := self.frames.map fun key node =>
    if key.1 = session_id ∧ key.2 ≠ frame_id ∧ is_true (arrow "is_root" node) = true then
      jsonb_set "is_root" (.Bool false) node
    else node
  match lowered.find (session_id, frame_id) with
  | none => (.error (missing_frame session_id frame_id), self)
  | some node =>
    (.ok frame_id, { self with
      frames := lowered.insert ((session_id, frame_id), jsonb_set "is_root" (.Bool true) node) })

def bind_hitl_to_frame (session_id : SessionId) (frame_id : FrameId) (hitl_id : HitlId)
    (self : PgFrameStore) : Except PgError Unit × PgFrameStore :=
  match FrameKind.serde.encode (.Hitl hitl_id) with
  | none => (.error .Encode, self)
  | some data =>
    match self.frames.find (session_id, frame_id) with
    | none => (.error (missing_frame session_id frame_id), self)
    | some node =>
      (.ok (), { self with
        frames := self.frames.insert ((session_id, frame_id), jsonb_set "data" data node) })

def get_frame_id_by_hitl_id (session_id : SessionId) (hitl_id : HitlId) (self : PgFrameStore) :
    Except PgError (List FrameId) :=
  match FrameKind.serde.encode (.Hitl hitl_id) with
  | none => .error .Encode
  | some data =>
    .ok ((self.frames.entries.filter fun row =>
      row.1.1 = session_id ∧ (arrow "data" row.2).any (jsonb_eq data) = true).map (·.1.2))

/-- A node, from its column. `column` is what the reader makes of the text that the `jsonb` gives
for a value. -/
def decode_node (column : Value → Option Value) (v : Value) : Except PgError FrameNode :=
  match (column v).bind FrameNode.serde.decode with
  | none => .error .Decode
  | some node => .ok node

def get_frame (column : Value → Option Value) (session_id : SessionId) (frame_id : FrameId)
    (self : PgFrameStore) : Except PgError FrameNode :=
  match self.frames.find (session_id, frame_id) with
  | none => .error .RowNotFound
  | some v => decode_node column v

/-- `INSERT .. ON CONFLICT (session_id, frame_id) DO UPDATE SET node = EXCLUDED.node`. -/
def upsert_frame (node : FrameNode) (self : PgFrameStore) :
    Except PgError FrameNode × PgFrameStore :=
  match FrameNode.serde.encode node with
  | none => (.error .Encode, self)
  | some v =>
    if is_jsonb v = false then (.error .InvalidJson, self)
    else if node.session_id ∉ self.sessions then
      (.error (.ForeignKeyViolation node.session_id), self)
    else (.ok node, { self with frames := self.frames.insert ((node.session_id, node.id), v) })

/-- `DELETE .. RETURNING node`: the row is gone before its node is decoded. -/
def delete_frame (column : Value → Option Value) (session_id : SessionId) (frame_id : FrameId)
    (self : PgFrameStore) : Except PgError FrameNode × PgFrameStore :=
  match self.frames.find (session_id, frame_id) with
  | none => (.error .RowNotFound, self)
  | some v =>
    (decode_node column v, { self with frames := self.frames.erase (session_id, frame_id) })

/-! ## What the table keeps -/

variable {s : PgFrameStore} {session_id : SessionId} {frame_id : FrameId} {hitl_id : HitlId}
  {node : FrameNode}

theorem bind_hitl_to_frame_eq :
    s.bind_hitl_to_frame session_id frame_id hitl_id = (.error .Encode, s) := by
  rw [bind_hitl_to_frame, encode_hitl]

theorem get_frame_id_by_hitl_id_eq :
    s.get_frame_id_by_hitl_id session_id hitl_id = .error .Encode := by
  rw [get_frame_id_by_hitl_id, encode_hitl]

/-- A node that has a JSON without NUL is written. -/
theorem upsert_frame_of_encode {v : Value} (henc : FrameNode.serde.encode node = some v)
    (hjsonb : Jsonb v) (hsession : node.session_id ∈ s.sessions) :
    s.upsert_frame node =
      (.ok node, { s with frames := s.frames.insert ((node.session_id, node.id), v) }) := by
  simp only [upsert_frame, henc]
  rw [if_neg hjsonb.ne_false, if_neg (not_not.mpr hsession)]

/-- What a call of `upsert_frame` that ends well has written. -/
theorem encode_of_upsert_frame (h : (s.upsert_frame node).1 = .ok node) :
    ∃ v, FrameNode.serde.encode node = some v ∧ Jsonb v ∧
      (s.upsert_frame node).2 =
        { s with frames := s.frames.insert ((node.session_id, node.id), v) } := by
  unfold upsert_frame at h ⊢
  cases henc : FrameNode.serde.encode node with
  | none =>
    rw [henc] at h
    cases h
  | some v =>
    rw [henc] at h
    dsimp only at h ⊢
    split at h
    · cases h
    · rename_i hjsonb
      split at h
      · cases h
      · rename_i hsession
        rw [if_neg hjsonb, if_neg hsession]
        exact ⟨v, rfl, by simpa [Jsonb] using hjsonb, rfl⟩

/-- A frame is given back as it was exactly when its JSON is written, and read from the column as
the frame. -/
theorem get_upsert_frame_iff {column : Value → Option Value}
    (hsession : node.session_id ∈ s.sessions) :
    ((s.upsert_frame node).1 = .ok node ∧
        (s.upsert_frame node).2.get_frame column node.session_id node.id = .ok node) ↔
      ∃ v, FrameNode.serde.encode node = some v ∧ Jsonb v ∧
        (column v).bind FrameNode.serde.decode = some node := by
  constructor
  · rintro ⟨hupsert, hget⟩
    obtain ⟨v, henc, hjsonb, hstate⟩ := encode_of_upsert_frame hupsert
    refine ⟨v, henc, hjsonb, ?_⟩
    simp only [hstate, get_frame, Entries.find_insert, if_true, decode_node] at hget
    split at hget
    · cases hget
    · rename_i n hdec
      cases hget
      exact hdec
  · rintro ⟨v, henc, hjsonb, hdec⟩
    rw [upsert_frame_of_encode henc hjsonb hsession]
    refine ⟨rfl, ?_⟩
    simp [get_frame, decode_node, hdec]

end PgFrameStore

/-! ## The frames that are kept -/

section

variable {node : FrameNode} {float : ℚ → Number} {v : Value}

/-- A frame that is read back from the text of its JSON was read from that very JSON. -/
theorem read_frame_iff (henc : FrameNode.serde.encode node = some v) :
    (reread float v).bind FrameNode.serde.decode = some node ↔
      FrameNode.serde.decode v = some node ∧ Exact float v := by
  constructor
  · intro h
    obtain ⟨v', hread, hdec⟩ := Option.bind_eq_some_iff.mp h
    rw [reread_eq_some hread] at hdec
    have hsame : map_floats float v = v := notices_frame_node node v henc hdec
    rw [hsame] at hdec
    exact ⟨hdec, exact_of_reread hread hsame⟩
  · rintro ⟨hdec, hexact⟩
    rw [reread_of_exact hexact, Option.bind_some, hdec]

end

/-- What a caller relies on for a frame: its JSON is written, and read back from its text; the
table gives the frame back that was written, and finds it by the request that it is bound to.
`text` and `column` are what the reader makes of a float, in the text that `serde_json` writes and
in the one that the column gives. -/
structure Persistent (text column : ℚ → Number) (node : FrameNode) : Prop where
  read_back : ∃ v, FrameNode.serde.encode node = some v ∧
    (reread text v).bind FrameNode.serde.decode = some node
  given_back : ∀ s : PgFrameStore, node.session_id ∈ s.sessions →
    (s.upsert_frame node).1 = .ok node ∧
      (s.upsert_frame node).2.get_frame (reread column) node.session_id node.id = .ok node
  found : ∀ (s : PgFrameStore) (hitl_id : HitlId), node.session_id ∈ s.sessions →
    node.data = .Hitl hitl_id →
      ∃ ids, (s.upsert_frame node).2.get_frame_id_by_hitl_id node.session_id hitl_id = .ok ids ∧
        node.id ∈ ids

/-- The frames that are kept are those of another kind than `Hitl`, without an answer that is
`null`, without a NUL in a text, and with a JSON that the reader takes: it is not nested too deep,
and its floats are read as they are, from the text and from the column. Of the others that are
bound to a request none is found by it, whatever was written before. -/
theorem frame_is_persistent_iff (text column : ℚ → Number) (node : FrameNode) :
    (Persistent text column node ↔
      ((∀ hitl_id, node.data ≠ .Hitl hitl_id) ∧ (∀ l ∈ node.logs, l.Readable) ∧
        node.status.Readable) ∧ FrameNode.serde.Fits node ∧
          ∀ v, FrameNode.serde.encode node = some v → Exact text v ∧ Exact column v) ∧
      ∀ (s : PgFrameStore) (session_id : SessionId) (frame_id : FrameId) (hitl_id : HitlId),
        s.bind_hitl_to_frame session_id frame_id hitl_id = (.error .Encode, s) ∧
          s.get_frame_id_by_hitl_id session_id hitl_id = .error .Encode := by
  constructor
  · rw [← lossless_frame_node]
    constructor
    · intro h
      obtain ⟨v, henc, hread⟩ := h.read_back
      obtain ⟨hdec, htext⟩ := (read_frame_iff henc).mp hread
      have hin : node.session_id ∈ (PgFrameStore.new [node.session_id]).sessions :=
        List.mem_singleton_self _
      obtain ⟨w, hw, hjsonb, hcolumn⟩ :=
        (PgFrameStore.get_upsert_frame_iff hin).mp (h.given_back _ hin)
      obtain rfl := Option.some.inj (henc.symm.trans hw)
      refine ⟨⟨v, henc, hdec⟩, (FrameNode.serde.fits_iff henc).mp hjsonb, ?_⟩
      intro w hw
      obtain rfl := Option.some.inj (henc.symm.trans hw)
      exact ⟨htext, ((read_frame_iff henc).mp hcolumn).2⟩
    · rintro ⟨hlossless, hfits, hexact⟩
      obtain ⟨v, henc, hdec⟩ := hlossless
      obtain ⟨htext, hcolumn⟩ := hexact v henc
      have hjsonb := (FrameNode.serde.fits_iff henc).mpr hfits
      refine ⟨⟨v, henc, (read_frame_iff henc).mpr ⟨hdec, htext⟩⟩, ?_, ?_⟩
      · intro s hs
        exact (PgFrameStore.get_upsert_frame_iff hs).mpr
          ⟨v, henc, hjsonb, (read_frame_iff henc).mpr ⟨hdec, hcolumn⟩⟩
      · intro s hitl_id _ hdata
        exact absurd hdata ((lossless_frame_node.mp ⟨v, henc, hdec⟩).1 hitl_id)
  · intro s session_id frame_id hitl_id
    exact ⟨PgFrameStore.bind_hitl_to_frame_eq, PgFrameStore.get_frame_id_by_hitl_id_eq⟩

/-- The frame that waits for the answer to a request. -/
def waiting_frame : FrameNode where
  session_id := ⟨0, 1⟩
  id := ⟨0, 2⟩
  status := .WaitingChildren
  frame_policy := ⟨.FailIfAtLeastHasFailed 1, .Hitl, .DontReduce, .MarkComplete, .RunFrame⟩
  superstep := 0
  barrier := false
  forked_from := none
  inherited_channels := .empty
  spec_ref := .Hitl
  data := .Hitl ⟨0, 3⟩
  logs := []
  hitl_aliases := .empty
  is_root := false
  parent := some ⟨0, 4⟩
  next_sibling := none
  prev_sibling := none
  children := []

theorem waiting_frame_is_not_persistent :
    (¬ ∃ text column, Persistent text column waiting_frame) ∧
      FrameNode.serde.encode waiting_frame = none ∧
      ((PgFrameStore.new [⟨0, 1⟩]).upsert_frame waiting_frame).1 = .error .Encode := by
  refine ⟨?_, rfl, rfl⟩
  rintro ⟨text, column, h⟩
  obtain ⟨v, henc, -⟩ := h.read_back
  cases henc

end marie.session.stored
