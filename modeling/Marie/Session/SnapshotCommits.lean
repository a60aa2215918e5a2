-- Commits of snapshots against one atomic object. The object is a version
-- (superstep and channels) that a commit moves on when it names the current
-- superstep. The cache and the store refine it as long as each call finds the
-- last pushed snapshot in the store.
import Marie.Session.Runs

namespace marie.session

open Program FrameTree

/-! ## The atomic object -/

/-- What a reader of the snapshots of a frame sees. -/
structure Version where
  superstep : Nat
  channels : Channels

/-- A commit of the atomic object. -/
def Version.commit (spec : CommonSpec) (v : Version) (expected : Nat)
    (updates : List ChannelUpdate) : Except Fault Unit × Version :=
  if v.superstep = expected then
    (.ok (), ⟨v.superstep + 1, commit_channels spec v.channels updates⟩)
  else (.error (.error (.StaleSuperstep expected v.superstep)), v)

/-! ## Calls -/

/-- The calls on the snapshots of a session, and what happens beside them. -/
inductive SnapshotOp
  | commit (frame_id : FrameId) (expected_superstep : Nat) (updates : List ChannelUpdate)
      (join_sources : List SnapshotRef)
  | latest (frame_id : FrameId)
  | flush (ref : SnapshotRef)
  | evict (ref : SnapshotRef)
  | writeback (index : Nat)

/-- What the caller gets. -/
inductive Outcome
  | commit (result : Except Fault Unit)
  | latest (result : Except Fault Version)
  | silent

namespace SessionCheckpointer

variable (self : SessionCheckpointer)

/-- One call, and the state it leaves. -/
def call (op : SnapshotOp) (s : State) : Outcome × State :=
  match op with
  | .commit frame_id expected updates join_sources =>
    let r := exec (self.commit_snapshot frame_id expected updates join_sources) s
    (.commit (r.1.map fun _ => ()), r.2)
  | .latest frame_id =>
    let r := exec (snapshots (SessionSnapshots.latest frame_id)) s
    (.latest (r.1.map fun x => ⟨x.superstep, x.channels⟩), r.2)
  | .flush ref => (.silent, { s with snapshots := s.snapshots.flush ref })
  | .evict ref => (.silent, { s with snapshots := s.snapshots.evict ref })
  | .writeback index => (.silent, { s with snapshots := s.snapshots.writeback index })

def calls : List SnapshotOp → State → List Outcome × State
  | [], s => ([], s)
  | op :: ops, s =>
    ((self.call op s).1 :: (calls ops (self.call op s).2).1, (calls ops (self.call op s).2).2)

end SessionCheckpointer

/-- The frame that a call is about. -/
def SnapshotOp.on (f : FrameId) : SnapshotOp → Bool
  | .commit frame_id _ _ _ => frame_id = f
  | .latest frame_id => frame_id = f
  | _ => false

/-- The call as the atomic object of `f` answers it. -/
def Version.call (spec : CommonSpec) (f : FrameId) (op : SnapshotOp) (v : Version) :
    Outcome × Version :=
  match op with
  | .commit frame_id expected updates _ =>
    if frame_id = f then
      (.commit (v.commit spec expected updates).1, (v.commit spec expected updates).2)
    else (.silent, v)
  | .latest frame_id => if frame_id = f then (.latest (.ok v), v) else (.silent, v)
  | _ => (.silent, v)

def Version.calls (spec : CommonSpec) (f : FrameId) : List SnapshotOp → Version →
    List Outcome × Version
  | [], v => ([], v)
  | op :: ops, v =>
    ((v.call spec f op).1 :: (Version.calls spec f ops (v.call spec f op).2).1,
      (Version.calls spec f ops (v.call spec f op).2).2)

/-- The calls on `f` with their outcomes, in order. -/
def history (f : FrameId) (ops : List SnapshotOp) (outs : List Outcome) :
    List (SnapshotOp × Outcome) :=
  (ops.zip outs).filter (fun p => p.1.on f)

/-- The commits of a history that succeeded: the superstep each expected, and its updates. -/
def succeeded (past : List (SnapshotOp × Outcome)) : List (Nat × List ChannelUpdate) :=
  past.filterMap fun
    | (.commit _ expected updates _, .commit (.ok _)) => some (expected, updates)
    | _ => none

/-! ## When the store is up to date -/

namespace SessionSnapshots

/-- A snapshot of `f` that has not reached the store yet. -/
def Unsaved (s : SessionSnapshots) (f : FrameId) (x : Snapshot) : Prop :=
  x.session_id = s.session_id ∧ x.frame_id = f ∧
    ((∃ ref, s.cache ref = some ⟨x, true⟩) ∨ x ∈ s.writebacks)

/-- A snapshot of `f` in the store. -/
def Saved (s : SessionSnapshots) (f : FrameId) (x : Snapshot) : Prop :=
  x.session_id = s.session_id ∧ x.frame_id = f ∧ x ∈ s.store

/-- No snapshot of `f` outside the store is newer than the latest one of the store. -/
def UpToDate (s : SessionSnapshots) (f : FrameId) : Prop :=
  ∀ x, s.Unsaved f x → ∃ y, s.Saved f y ∧ x.superstep ≤ y.superstep

/-- The snapshots of `f` show the version `v`: nothing is newer, what has its superstep has its
channels, and one such snapshot is in the store or on its way. -/
structure Shows (s : SessionSnapshots) (f : FrameId) (v : Version) : Prop where
  saved : ∀ x, s.Saved f x →
    x.superstep ≤ v.superstep ∧ (x.superstep = v.superstep → x.channels = v.channels)
  unsaved : ∀ x, s.Unsaved f x →
    x.superstep ≤ v.superstep ∧ (x.superstep = v.superstep → x.channels = v.channels)
  held : ∃ x, (s.Saved f x ∨ s.Unsaved f x) ∧ x.superstep = v.superstep

/-! ## The store and the cache -/

variable {s : SessionSnapshots} {f : FrameId} {v : Version}

theorem mem_dropped {c : Option SnapshotContainer} {y : Snapshot} :
    y ∈ dropped c ↔ c = some ⟨y, true⟩ := by
  rcases c with _ | ⟨x, _ | _⟩ <;> simp [dropped, eq_comm]

/-- What is on its way after a container enters the cache: it, when it is dirty, and what was
on its way before. -/
theorem unsaved_insert {ref : SnapshotRef} {c : SnapshotContainer} {y : Snapshot} :
    (s.insert ref c).Unsaved f y →
      (c.dirty = true ∧ y = c.snapshot) ∨ s.Unsaved f y := by
  rintro ⟨hsid, hfid, ⟨r, hcache⟩ | hwb⟩
  · by_cases hr : r = ref
    · simp only [insert, hr, if_true, Option.some.injEq] at hcache
      subst hcache
      exact .inl ⟨rfl, rfl⟩
    · simp only [insert, hr, if_false] at hcache
      exact .inr ⟨hsid, hfid, .inl ⟨r, hcache⟩⟩
  · simp only [insert, List.mem_append, mem_dropped] at hwb
    rcases hwb with hwb | hwb
    · exact .inr ⟨hsid, hfid, .inr hwb⟩
    · exact .inr ⟨hsid, hfid, .inl ⟨ref, hwb⟩⟩

theorem Unsaved.insert {y : Snapshot} (h : s.Unsaved f y) (ref : SnapshotRef)
    (c : SnapshotContainer) : (s.insert ref c).Unsaved f y := by
  obtain ⟨hsid, hfid, ⟨r, hcache⟩ | hwb⟩ := h
  · refine ⟨hsid, hfid, ?_⟩
    by_cases hr : r = ref
    · subst hr
      right
      simp [SessionSnapshots.insert, mem_dropped, hcache]
    · exact .inl ⟨r, by simp [SessionSnapshots.insert, hr, hcache]⟩
  · exact ⟨hsid, hfid, .inr (by simp [SessionSnapshots.insert, hwb])⟩

/-- A container that enters the cache clean changes nothing that shows. -/
theorem Shows.insert_clean (h : s.Shows f v) (ref : SnapshotRef) (x : Snapshot) :
    (s.insert ref ⟨x, false⟩).Shows f v where
  saved := h.saved
  unsaved y hy := by
    rcases unsaved_insert hy with ⟨hd, -⟩ | hy
    · cases hd
    · exact h.unsaved y hy
  held := by
    obtain ⟨x, hx | hx, hv⟩ := h.held
    · exact ⟨x, .inl hx, hv⟩
    · exact ⟨x, .inr (hx.insert _ _), hv⟩

/-- A pushed snapshot of another frame changes nothing that shows of `f`. -/
theorem Shows.push_other (h : s.Shows f v) {x : Snapshot} (hx : x.frame_id ≠ f) :
    (s.insert x.ref ⟨x, true⟩).Shows f v where
  saved := h.saved
  unsaved y hy := by
    rcases unsaved_insert hy with ⟨-, rfl⟩ | hy'
    · exact absurd hy.2.1 hx
    · exact h.unsaved y hy'
  held := by
    obtain ⟨y, hy | hy, hv⟩ := h.held
    · exact ⟨y, .inl hy, hv⟩
    · exact ⟨y, .inr (hy.insert _ _), hv⟩

/-- A pushed snapshot of `f` with the next superstep is what shows from then on. -/
theorem Shows.push_next (h : s.Shows f v) {x : Snapshot} (hsid : x.session_id = s.session_id)
    (hfid : x.frame_id = f) (hx : x.superstep = v.superstep + 1) :
    (s.insert x.ref ⟨x, true⟩).Shows f ⟨x.superstep, x.channels⟩ where
  saved y hy := by
    have := (h.saved y hy).1
    exact ⟨by simp only; omega, by simp only; omega⟩
  unsaved y hy := by
    rcases unsaved_insert hy with ⟨-, rfl⟩ | hy'
    · exact ⟨le_refl _, fun _ => rfl⟩
    · have := (h.unsaved y hy').1
      exact ⟨by simp only; omega, by simp only; omega⟩
  held := ⟨x, .inr ⟨hsid, hfid, .inl ⟨x.ref, by simp [insert]⟩⟩, rfl⟩

/-- A snapshot that reaches the store: the rows with its reference give way to it. -/
theorem Shows.save (h : s.Shows f v) {x : Snapshot} {s' : SessionSnapshots}
    (hsid : s'.session_id = s.session_id) (hstore : s'.store = s.store.upsert_snapshot x)
    (hx : x.session_id = s.session_id → x.frame_id = f → s.Unsaved f x)
    (hback : ∀ y, s'.Unsaved f y → s.Unsaved f y)
    (hforth : ∀ y, s.Unsaved f y → y = x ∨ s'.Unsaved f y) : s'.Shows f v where
  saved y hy := by
    obtain ⟨h1, h2, h3⟩ := hy
    rw [hstore, mem_upsert_snapshot] at h3
    rw [hsid] at h1
    rcases h3 with rfl | ⟨h3, -⟩
    · exact h.unsaved y (hx h1 h2)
    · exact h.saved y ⟨h1, h2, h3⟩
  unsaved y hy := h.unsaved y (hback y hy)
  held := by
    have hmem : x ∈ s'.store := by rw [hstore, mem_upsert_snapshot]; exact .inl rfl
    obtain ⟨y, hy | hy, hv⟩ := h.held
    · by_cases hr : y.ref = x.ref
      · obtain ⟨h1, h2, h3⟩ : y.session_id = x.session_id ∧ y.frame_id = x.frame_id ∧
            y.superstep = x.superstep := by simpa [Snapshot.ref] using hr
        exact ⟨x, .inl ⟨by rw [hsid, ← h1, hy.1], by rw [← h2, hy.2.1], hmem⟩, by rw [← h3, hv]⟩
      · refine ⟨y, .inl ⟨by rw [hsid, hy.1], hy.2.1, ?_⟩, hv⟩
        rw [hstore, mem_upsert_snapshot]
        exact .inr ⟨hy.2.2, hr⟩
    · rcases hforth y hy with rfl | hy'
      · exact ⟨y, .inl ⟨by rw [hsid, hy.1], hy.2.1, hmem⟩, hv⟩
      · exact ⟨y, .inr hy', hv⟩

theorem Shows.flush (h : s.Shows f v) (ref : SnapshotRef) : (s.flush ref).Shows f v := by
  unfold SessionSnapshots.flush
  split
  · rename_i x hc
    refine h.save (x := x) rfl rfl (fun h1 h2 => ⟨h1, h2, .inl ⟨ref, hc⟩⟩) ?_ ?_
    · rintro y ⟨h1, h2, ⟨r, hr⟩ | hwb⟩
      · by_cases hr' : r = ref
        · simp [hr'] at hr
        · simp only [hr', if_false] at hr
          exact ⟨h1, h2, .inl ⟨r, hr⟩⟩
      · exact ⟨h1, h2, .inr hwb⟩
    · rintro y ⟨h1, h2, ⟨r, hr⟩ | hwb⟩
      · by_cases hr' : r = ref
        · subst hr'
          rw [hc] at hr
          cases hr
          exact .inl rfl
        · exact .inr ⟨h1, h2, .inl ⟨r, by simp [hr', hr]⟩⟩
      · exact .inr ⟨h1, h2, .inr hwb⟩
  · exact h

theorem Shows.evict (h : s.Shows f v) (ref : SnapshotRef) : (s.evict ref).Shows f v where
  saved := h.saved
  unsaved y hy := by
    obtain ⟨h1, h2, ⟨r, hr⟩ | hwb⟩ := hy
    · by_cases hr' : r = ref
      · simp [SessionSnapshots.evict, hr'] at hr
      · simp only [SessionSnapshots.evict, hr', if_false] at hr
        exact h.unsaved y ⟨h1, h2, .inl ⟨r, hr⟩⟩
    · simp only [SessionSnapshots.evict, List.mem_append, mem_dropped] at hwb
      rcases hwb with hwb | hwb
      · exact h.unsaved y ⟨h1, h2, .inr hwb⟩
      · exact h.unsaved y ⟨h1, h2, .inl ⟨ref, hwb⟩⟩
  held := by
    obtain ⟨y, hy | ⟨h1, h2, ⟨r, hr⟩ | hwb⟩, hv⟩ := h.held
    · exact ⟨y, .inl hy, hv⟩
    · refine ⟨y, .inr ⟨h1, h2, ?_⟩, hv⟩
      by_cases hr' : r = ref
      · subst hr'
        right
        simp [SessionSnapshots.evict, mem_dropped, hr]
      · exact .inl ⟨r, by simp [SessionSnapshots.evict, hr', hr]⟩
    · exact ⟨y, .inr ⟨h1, h2, .inr (by simp [SessionSnapshots.evict, hwb])⟩, hv⟩

theorem Shows.writeback (h : s.Shows f v) (index : Nat) : (s.writeback index).Shows f v := by
  unfold SessionSnapshots.writeback
  split
  · rename_i x hx
    have hmem := List.mem_of_getElem? hx
    refine h.save (x := x) rfl rfl (fun h1 h2 => ⟨h1, h2, .inr hmem⟩) ?_ ?_
    · rintro y ⟨h1, h2, hc | hwb⟩
      · exact ⟨h1, h2, .inl hc⟩
      · exact ⟨h1, h2, .inr (List.mem_of_mem_eraseIdx hwb)⟩
    · rintro y ⟨h1, h2, hc | hwb⟩
      · exact .inr ⟨h1, h2, .inl hc⟩
      · by_cases hy : y = x
        · exact .inl hy
        · refine .inr ⟨h1, h2, .inr ?_⟩
          obtain ⟨k, hk⟩ := List.mem_iff_getElem?.mp hwb
          have hne : k ≠ index := by
            rintro rfl
            rw [hx] at hk
            exact hy (Option.some.inj hk).symm
          exact List.mem_eraseIdx_iff_getElem?.mpr ⟨k, hne, hk⟩
  · exact h

/-- What the store gives when it is up to date. -/
theorem Shows.latest_snapshot (h : s.Shows f v) (hup : s.UpToDate f) :
    ∃ x, s.store.latest_snapshot s.session_id f = some x ∧ x.superstep = v.superstep ∧
      x.channels = v.channels := by
  obtain ⟨y, hy, hvy⟩ : ∃ y, s.Saved f y ∧ v.superstep ≤ y.superstep := by
    obtain ⟨x, hx | hx, hv⟩ := h.held
    · exact ⟨x, hx, hv.ge⟩
    · obtain ⟨y, hy, hle⟩ := hup x hx
      exact ⟨y, hy, hv ▸ hle⟩
  obtain ⟨x, hx⟩ := exists_latest_snapshot hy.1 hy.2.1 hy.2.2
  obtain ⟨hsaved, hmax⟩ := latest_snapshot_spec hx
  have hle := hmax y hy.2.2 hy.1 hy.2.1
  have hge := (h.saved x hsaved).1
  have heq : x.superstep = v.superstep := by omega
  exact ⟨x, hx, heq, (h.saved x hsaved).2 heq⟩

end SessionSnapshots

/-! ## One call -/

/-- The state of a session shows the version `v` of `f`, a frame with this spec. -/
structure Refines (ckp : SessionCheckpointer) (spec : CommonSpec) (f : FrameId) (s : State)
    (v : Version) : Prop where
  session_id : s.snapshots.session_id = ckp.session_id
  spec : spec_at ckp.graphs s.frames f = some spec
  shows : s.snapshots.Shows f v

/-- A call on `f` finds the store up to date, and room for one more superstep. -/
def CallMeets (f : FrameId) (op : SnapshotOp) (s : State) : Prop :=
  op.on f = true →
    s.snapshots.UpToDate f ∧ ∀ x, s.snapshots.Saved f x → x.superstep + 1 < 2 ^ 32

/-- Every call of a run does. -/
def RunMeets (self : SessionCheckpointer) (f : FrameId) : List SnapshotOp → State → Prop
  | [], _ => True
  | op :: ops, s => CallMeets f op s ∧ RunMeets self f ops (self.call op s).2

section Calls

variable {self : SessionCheckpointer} {spec : CommonSpec} {f g : FrameId} {s : State} {v : Version}

theorem flush_session_id (t : SessionSnapshots) (ref : SnapshotRef) :
    (t.flush ref).session_id = t.session_id := by
  unfold SessionSnapshots.flush
  split <;> rfl

theorem Refines.with_frames (h : Refines self spec f s v) {t : FrameTree}
    (ht : SessionCheckpointer.SameFrames g s.frames t) :
    Refines self spec f { s with frames := t } v := by
  refine ⟨h.session_id, ?_, h.shows⟩
  rcases ht with rfl | rfl
  · exact h.spec
  · simpa using h.spec

theorem Refines.with_snapshots (h : Refines self spec f s v) {t : SessionSnapshots} {v' : Version}
    (hsid : t.session_id = s.snapshots.session_id) (ht : t.Shows f v') :
    Refines self spec f { s with snapshots := t } v' :=
  ⟨hsid.trans h.session_id, h.spec, ht⟩

theorem Refines.flush (h : Refines self spec f s v) (ref : SnapshotRef) :
    Refines self spec f { s with snapshots := s.snapshots.flush ref } v :=
  h.with_snapshots (flush_session_id _ _) (h.shows.flush ref)

/-- Calls on other frames do not move the version of `f`. -/
theorem latest_keeps (g : FrameId) :
    Keeps (Refines self spec f · v) (snapshots (SessionSnapshots.latest g)) (fun _ => True) := by
  intro s h
  refine ⟨?_, fun _ _ => trivial⟩
  cases hl : s.snapshots.last g with
  | none =>
    rw [exec_snapshots (SessionSnapshots.exec_latest_none hl)]
    exact h
  | some x =>
    rw [exec_snapshots (SessionSnapshots.exec_latest hl)]
    exact h.with_snapshots rfl (h.shows.insert_clean _ _)

theorem common_spec_keeps (g : FrameId) :
    Keeps (Refines self spec f · v) (frames (common_spec_of self.graphs g)) (fun _ => True) := by
  intro s h
  refine ⟨?_, fun _ _ => trivial⟩
  have hload : ∀ m : FrameNode → Tree CommonSpec, (∀ n t, (exec (m n) t).2 = t) →
      (exec (get g >>= m) s.frames).2 = s.frames ∨
      (exec (get g >>= m) s.frames).2 = s.frames.load g := by
    intro m hm
    cases hg : s.frames.find g with
    | none => rw [exec_bind_error (exec_get_none hg)]; exact .inl rfl
    | some n => rw [exec_bind_ok (exec_get hg), hm]; exact .inr rfl
  refine h.with_frames (hload _ ?_)
  intro n t
  cases n.spec_ref with
  | Graph graph_ref => cases hg : self.graphs.get graph_ref <;> simp [hg]
  | _ => rfl

theorem push_keeps (x : Snapshot) (hx : x.frame_id ≠ f) :
    Keeps (Refines self spec f · v) (self.push x) (fun _ => True) := by
  intro s h
  refine ⟨?_, fun _ _ => trivial⟩
  rw [self.exec_push]
  unfold SessionCheckpointer.push_into
  have hpush := h.with_snapshots (t := s.snapshots.insert x.ref ⟨x, true⟩) rfl
    (h.shows.push_other hx)
  split
  · exact hpush.flush x.ref
  · exact hpush

theorem commit_keeps (hg : g ≠ f) (expected : Nat) (updates : List ChannelUpdate)
    (join_sources : List SnapshotRef) :
    Keeps (Refines self spec f · v) (self.commit_snapshot g expected updates join_sources)
      (fun _ => True) := by
  unfold SessionCheckpointer.commit_snapshot
  refine (latest_keeps g).andThen fun last => ?_
  split
  · exact keeps_throw _
  · refine Keeps.andThen (Q := fun _ => True) ?_ fun channels => ?_
    · unfold SessionCheckpointer.apply_updates
      split
      · exact keeps_pure trivial
      · exact (common_spec_keeps g).andThen fun _ => keeps_pure trivial
    · split
      · exact keeps_throw _
      · exact push_keeps _ hg

/-- A commit on `f` is a commit of the atomic object. -/
theorem commit_refines (h : Refines self spec f s v) (expected : Nat)
    (updates : List ChannelUpdate) (join_sources : List SnapshotRef)
    (hm : CallMeets f (.commit f expected updates join_sources) s) :
    let r := exec (self.commit_snapshot f expected updates join_sources) s
    r.1.map (fun _ => ()) = (v.commit spec expected updates).1 ∧
      Refines self spec f r.2 (v.commit spec expected updates).2 := by
  obtain ⟨hup, hroom⟩ := hm (by simp [SnapshotOp.on])
  obtain ⟨x, hlast, hstep, hch⟩ := h.shows.latest_snapshot hup
  have hx := (SessionSnapshots.latest_snapshot_spec hlast).1
  have hread := h.with_snapshots (t := s.snapshots.insert x.ref ⟨x, false⟩) rfl
    (h.shows.insert_clean x.ref x)
  by_cases he : x.superstep = expected
  · subst he
    obtain ⟨t, ht, hexec⟩ := self.exec_commit updates join_sources
      hlast hx.2.1 h.spec (hroom x hx)
    rw [hexec]
    simp only [Version.commit, hstep, if_true]
    refine ⟨rfl, ?_⟩
    have hnext := hread.shows.push_next (x := self.pushed spec x updates join_sources)
      h.session_id.symm hx.2.1 (by simp [SessionCheckpointer.pushed, hstep])
    have hpush := hread.with_snapshots
      (t := (s.snapshots.insert x.ref ⟨x, false⟩).insert _ ⟨self.pushed spec x updates join_sources, true⟩)
      rfl hnext
    have hval : (⟨(self.pushed spec x updates join_sources).superstep,
        (self.pushed spec x updates join_sources).channels⟩ : Version) =
        ⟨v.superstep + 1, commit_channels spec v.channels updates⟩ := by
      simp [SessionCheckpointer.pushed, hstep, hch]
    rw [hval] at hpush
    unfold SessionCheckpointer.push_into
    split
    · exact (hpush.flush _).with_frames ht
    · exact hpush.with_frames ht
  · rw [self.exec_commit_stale hlast he]
    rw [hstep] at he ⊢
    simp only [Version.commit, he, if_false]
    exact ⟨rfl, hread⟩

/-- One call: on `f` it answers as the atomic object does, and elsewhere it does not move it. -/
theorem call_refines (h : Refines self spec f s v) (op : SnapshotOp) (hm : CallMeets f op s) :
    (op.on f = true → (self.call op s).1 = (v.call spec f op).1) ∧
      Refines self spec f (self.call op s).2 (v.call spec f op).2 := by
  cases op with
  | commit g expected updates join_sources =>
    by_cases hg : g = f
    · subst hg
      obtain ⟨h1, h2⟩ := commit_refines h expected updates join_sources hm
      simp only [SessionCheckpointer.call, Version.call, if_true]
      exact ⟨fun _ => by rw [h1], h2⟩
    · simp only [Version.call, hg, if_false]
      exact ⟨by simp [SnapshotOp.on, hg], (commit_keeps hg expected updates join_sources s h).1⟩
  | latest g =>
    refine ⟨?_, ?_⟩
    · intro hon
      obtain rfl : g = f := by simpa [SnapshotOp.on] using hon
      obtain ⟨hup, -⟩ := hm hon
      obtain ⟨x, hlast, hstep, hch⟩ := h.shows.latest_snapshot hup
      have hexec := exec_snapshots (SessionSnapshots.exec_latest (t := s.snapshots) hlast)
      simp only [SessionCheckpointer.call, Version.call, if_true, hexec, Except.map, hstep, hch]
    · have hv : (v.call spec f (.latest g)).2 = v := by
        simp only [Version.call]
        split <;> rfl
      rw [hv]
      exact (latest_keeps g s h).1
  | flush ref => exact ⟨by simp [SnapshotOp.on], h.flush ref⟩
  | evict ref =>
    exact ⟨by simp [SnapshotOp.on], h.with_snapshots rfl (h.shows.evict ref)⟩
  | writeback index =>
    refine ⟨by simp [SnapshotOp.on], h.with_snapshots ?_ (h.shows.writeback index)⟩
    unfold SessionSnapshots.writeback
    split <;> rfl

/-! ## Whole runs -/

theorem calls_refine (ops : List SnapshotOp) (s : State) (v : Version)
    (h : Refines self spec f s v) (hm : RunMeets self f ops s) :
    history f ops (self.calls ops s).1 = history f ops (Version.calls spec f ops v).1 ∧
      Refines self spec f (self.calls ops s).2 (Version.calls spec f ops v).2 := by
  induction ops generalizing s v with
  | nil => exact ⟨rfl, h⟩
  | cons op ops ih =>
    obtain ⟨hop, hops⟩ := hm
    obtain ⟨hout, hnext⟩ := call_refines h op hop
    obtain ⟨hhist, hlast⟩ := ih _ _ hnext hops
    refine ⟨?_, hlast⟩
    cases hon : op.on f with
    | false => simpa [history, SessionCheckpointer.calls, Version.calls, hon] using hhist
    | true => simpa [history, SessionCheckpointer.calls, Version.calls, hon, hout hon] using hhist

/-- The commits of the atomic object that succeed: their supersteps count up from the one it
starts with, and its channels are theirs, applied in order. -/
theorem succeeded_spec (spec : CommonSpec) (f : FrameId) (ops : List SnapshotOp) (v : Version) :
    (succeeded (history f ops (Version.calls spec f ops v).1)).map (·.1) =
      List.range' v.superstep (succeeded (history f ops (Version.calls spec f ops v).1)).length ∧
    (Version.calls spec f ops v).2 =
      ⟨v.superstep + (succeeded (history f ops (Version.calls spec f ops v).1)).length,
        ((succeeded (history f ops (Version.calls spec f ops v).1)).map (·.2)).foldl
          (commit_channels spec) v.channels⟩ := by
  induction ops generalizing v with
  | nil => exact ⟨rfl, rfl⟩
  | cons op ops ih =>
    -- only a commit on `f` that names the current superstep moves the object
    by_cases hmove : ∃ updates join_sources, op = .commit f v.superstep updates join_sources
    · obtain ⟨updates, join_sources, rfl⟩ := hmove
      obtain ⟨h1, h2⟩ := ih ⟨v.superstep + 1, commit_channels spec v.channels updates⟩
      have hcall : v.call spec f (.commit f v.superstep updates join_sources) =
          (.commit (.ok ()), ⟨v.superstep + 1, commit_channels spec v.channels updates⟩) := by
        simp [Version.call, Version.commit]
      have hsucc : succeeded (history f (.commit f v.superstep updates join_sources :: ops)
          (Version.calls spec f (.commit f v.superstep updates join_sources :: ops) v).1) =
          (v.superstep, updates) :: succeeded (history f ops (Version.calls spec f ops
            ⟨v.superstep + 1, commit_channels spec v.channels updates⟩).1) := by
        simp [history, Version.calls, hcall, SnapshotOp.on, succeeded]
      rw [hsucc]
      refine ⟨by simp [h1, List.range'_succ], ?_⟩
      simp only [Version.calls, hcall, h2, List.length_cons, List.map_cons, List.foldl_cons]
      congr 1
      omega
    · obtain ⟨hstay, hfail⟩ : (v.call spec f op).2 = v ∧
          ∀ past, succeeded ((op, (v.call spec f op).1) :: past) = succeeded past := by
        cases op with
        | commit g expected updates join_sources =>
          by_cases hg : g = f
          · have he : v.superstep ≠ expected := by
              rintro rfl
              exact hmove ⟨updates, join_sources, by rw [hg]⟩
            simp [Version.call, Version.commit, hg, he, succeeded]
          · simp [Version.call, hg, succeeded]
        | latest g => by_cases hg : g = f <;> simp [Version.call, hg, succeeded]
        | _ => simp [Version.call, succeeded]
      have hsucc : succeeded (history f (op :: ops) (Version.calls spec f (op :: ops) v).1) =
          succeeded (history f ops (Version.calls spec f ops v).1) := by
        cases hon : op.on f with
        | false => simp [history, Version.calls, hon, hstay]
        | true =>
          have := hfail (history f ops (Version.calls spec f ops v).1)
          simpa [history, Version.calls, hon, hstay] using this
      rw [hsucc]
      simpa [Version.calls, hstay] using ih v

end Calls

/-- Commits are linearizable as long as each call on `f` finds the store up to date. The calls
answer as one atomic object does; the commits that succeed name the supersteps from the first
one on, each once; and `latest` then shows their updates, applied in order. -/
theorem commits_are_linearizable (self : SessionCheckpointer) (spec : CommonSpec) (f : FrameId)
    (ops : List SnapshotOp) (s : State) (v : Version) (h : Refines self spec f s v)
    (hm : RunMeets self f ops s) :
    let past := history f ops (self.calls ops s).1
    let final := (self.calls ops s).2
    past = history f ops (Version.calls spec f ops v).1 ∧
    (succeeded past).map (·.1) = List.range' v.superstep (succeeded past).length ∧
    ((succeeded past).map (·.1)).Nodup ∧
    (final.snapshots.UpToDate f →
      ∃ x, (exec (snapshots (SessionSnapshots.latest f)) final).1 = .ok x ∧
        x.superstep = v.superstep + (succeeded past).length ∧
        x.channels = ((succeeded past).map (·.2)).foldl (commit_channels spec) v.channels) := by
  obtain ⟨hpast, hfinal⟩ := calls_refine ops s v h hm
  obtain ⟨hcount, hversion⟩ := succeeded_spec spec f ops v
  simp only
  rw [hpast]
  refine ⟨rfl, hcount, hcount ▸ List.nodup_range' .., ?_⟩
  intro hup
  obtain ⟨x, hlast, hstep, hch⟩ := hfinal.shows.latest_snapshot hup
  rw [hversion] at hstep hch
  exact ⟨x, by rw [exec_snapshots (SessionSnapshots.exec_latest hlast)], hstep, hch⟩

/-- A session with one frame, that of a tool, and its first snapshot in the store. -/
def oneTool : State :=
  .new ⟨0⟩ (.ofNodes [.new ⟨0⟩ { spec_ref := .ToolCall, data := .Void }])
    [⟨⟨0⟩, ⟨0⟩, 0, Channels.empty, []⟩]

/-- Without a flush between them, two commits that name one superstep both succeed. -/
theorem two_commits_at_one_superstep_succeed :
    ((plain false).calls [.commit ⟨0⟩ 0 [] [], .commit ⟨0⟩ 0 [] []] oneTool).1 =
      [.commit (.ok ()), .commit (.ok ())] := rfl

theorem oneTool_refines :
    Refines (plain false) .tool ⟨0⟩ oneTool ⟨0, Channels.empty⟩ where
  session_id := rfl
  spec := rfl
  shows :=
    { saved := by
        rintro x ⟨-, -, hx⟩
        obtain rfl : x = _ := List.mem_singleton.mp hx
        exact ⟨le_refl _, fun _ => rfl⟩
      unsaved := by
        rintro x ⟨-, -, ⟨r, hr⟩ | hx⟩
        · cases hr
        · cases hx
      held := ⟨_, .inl ⟨rfl, rfl, List.mem_singleton.mpr rfl⟩, rfl⟩ }

/-- A commit, the flush of its snapshot, and the next commit. -/
def flushedCommits : List SnapshotOp :=
  [.commit ⟨0⟩ 0 [] [], .flush ⟨⟨0⟩, ⟨0⟩, 1⟩, .commit ⟨0⟩ 1 [] []]

theorem flushedCommits_meet : RunMeets (plain false) ⟨0⟩ flushedCommits oneTool := by
  refine ⟨fun _ => ⟨?_, ?_⟩, by simp [CallMeets, SnapshotOp.on], fun _ => ⟨?_, ?_⟩, trivial⟩
  · rintro x ⟨-, -, ⟨r, hr⟩ | hx⟩
    · cases hr
    · cases hx
  · rintro x ⟨-, -, hx⟩
    obtain rfl : x = _ := List.mem_singleton.mp hx
    decide
  · rintro x ⟨-, -, ⟨r, hr⟩ | hx⟩
    · change (if r = ⟨⟨0⟩, ⟨0⟩, 1⟩ then some (SnapshotContainer.mk _ false)
        else if r = ⟨⟨0⟩, ⟨0⟩, 1⟩ then _
        else if r = ⟨⟨0⟩, ⟨0⟩, 0⟩ then some (SnapshotContainer.mk _ false) else none) = _ at hr
      split at hr
      · cases hr
      · split at hr <;> cases hr
    · cases hx
  · rintro x ⟨-, -, hx⟩
    change x ∈ [_, _] at hx
    rcases List.mem_cons.mp hx with rfl | hx
    · decide
    · obtain rfl : x = _ := List.mem_singleton.mp hx
      decide

theorem flushed_commits_never_share_a_superstep :
    ((succeeded (history ⟨0⟩ flushedCommits ((plain false).calls flushedCommits oneTool).1)).map
      (·.1)).Nodup :=
  (commits_are_linearizable (plain false) .tool ⟨0⟩ flushedCommits oneTool _ oneTool_refines
    flushedCommits_meet).2.2.1

end marie.session
