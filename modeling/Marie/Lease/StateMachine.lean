-- The Raft state machine of the leases: it applies the entries of the log to the
-- authority, and a snapshot of it stands for the entries before. Each entry
-- comes with the reading of the clock that its request gets.
import Marie.Lease.Authority
import Marie.Lease.Raft

open Program
open Std (ExtTreeMap)

namespace marie.lease

/-! ## The machine -/

structure StoredMembership where
  log_id : Option LogId
  membership : Membership
deriving DecidableEq

structure SnapshotMeta where
  last_log_id : Option LogId
  last_membership : StoredMembership
  snapshot_id : String
deriving DecidableEq

structure StoredSnapshot where
  snapshot_meta : SnapshotMeta
  data : List UInt8
deriving DecidableEq

structure StateMachineInner where
  authority : LeaseAuthority
  last_applied : Option LogId
  last_membership : StoredMembership
  current_snapshot : Option StoredSnapshot
deriving DecidableEq

def StateMachineInner.default : StateMachineInner where
  authority := .default
  last_applied := none
  last_membership := ⟨none, [], ∅⟩
  current_snapshot := none

/-- The body of the loop of `apply`. -/
def apply_entry (entry : Entry) (now : DateTime) :
    Program Panic StateMachineInner LeaseResult := do
  modify fun m => { m with last_applied := some entry.log_id }
  match entry.payload with
  | .Blank => pure (.NotLeader none)
  | .Membership membership => do
    modify fun m => { m with last_membership := ⟨some entry.log_id, membership⟩ }
    pure (.NotLeader none)
  | .Normal request => do
    let response ← zoom (·.authority) (fun a m => { m with authority := a })
      (handle_request now request)
    pure response.result

def apply (entries : List (Entry × DateTime)) :
    Program Panic StateMachineInner (List LeaseResult) :=
  entries.mapM fun x => apply_entry x.1 x.2

/-- What an entry makes of the authority. -/
theorem entry_applied {m m' : StateMachineInner} {entry : Entry} {now : DateTime}
    {result : LeaseResult} (h : exec (apply_entry entry now) m = (.ok result, m')) :
    match entry.payload with
    | .Normal request =>
      m.authority.Answered now request.session_id request.op result m'.authority
    | _ => result = .NotLeader none ∧ m'.authority = m.authority := by
  obtain ⟨log_id, payload⟩ := entry
  simp only [apply_entry, exec_bind_ok (exec_modify _ _)] at h
  cases payload with
  | Blank =>
    cases h
    exact ⟨rfl, rfl⟩
  | Membership membership =>
    cases h
    exact ⟨rfl, rfl⟩
  | Normal request =>
    obtain ⟨response, m1, hrequest, h⟩ := exec_bind_eq_ok h
    cases h
    obtain ⟨a', hr, rfl⟩ := exec_zoom_eq_ok hrequest
    exact (LeaseAuthority.request_answered hr).2

/-! ## The snapshots -/

/-- `serde_json::to_vec` and `serde_json::from_slice`, on a snapshot. -/
structure Serde where
  to_vec : LeaseSnapshot → Option (List UInt8)
  from_slice : List UInt8 → Option LeaseSnapshot

/-- The bytes of the snapshot are read back as the snapshot. -/
def Serde.RoundTrips (serde : Serde) (snapshot : LeaseSnapshot) : Prop :=
  ∃ data, serde.to_vec snapshot = some data ∧ serde.from_slice data = some snapshot

/-- `timestamp_nanos_opt`: the nanoseconds, when an `i64` holds them. -/
def DateTime.timestamp_nanos_opt (t : DateTime) : Option Int :=
  if -2 ^ 63 ≤ t.nanos ∧ t.nanos < 2 ^ 63 then some t.nanos else none

def build_snapshot (serde : Serde) (now : DateTime) :
    Program Panic StateMachineInner StoredSnapshot := do
  let m ← get
  let data := (serde.to_vec m.authority.snapshot).getD []
  let snapshot_id := toString ((m.last_applied.map (·.index)).getD 0) ++ "-" ++
    toString (now.timestamp_nanos_opt.getD 0)
  let built : StoredSnapshot := ⟨⟨m.last_applied, m.last_membership, snapshot_id⟩, data⟩
  modify fun m => { m with current_snapshot := some built }
  pure built

def install_snapshot (serde : Serde) (snapshot : StoredSnapshot) :
    Program Panic StateMachineInner Unit := do
  let restored := (serde.from_slice snapshot.data).getD .default
  modify fun m =>
    { authority := m.authority.restore restored
      last_applied := snapshot.snapshot_meta.last_log_id
      last_membership := snapshot.snapshot_meta.last_membership
      current_snapshot := some snapshot }

/-! ## Machines that later entries do not tell apart -/

/-- Two machines are alike when all that an entry can read of them is the same: only the
snapshots they keep may differ. -/
structure Alike (m m' : StateMachineInner) : Prop where
  authority : m.authority = m'.authority
  last_applied : m.last_applied = m'.last_applied
  last_membership : m.last_membership = m'.last_membership

variable {m m' : StateMachineInner}

/-- An entry answers the same on two machines that are alike, and leaves them alike. -/
theorem Alike.apply_entry (h : Alike m m') (entry : Entry) (now : DateTime) :
    (exec (apply_entry entry now) m).1 = (exec (apply_entry entry now) m').1 ∧
      Alike (exec (apply_entry entry now) m).2 (exec (apply_entry entry now) m').2 := by
  obtain ⟨a, applied, membership, _⟩ := m
  obtain ⟨a', applied', membership', _⟩ := m'
  obtain ⟨hauthority, hlast, hmembership⟩ := h
  cases hauthority
  cases hlast
  cases hmembership
  obtain ⟨log_id, payload⟩ := entry
  cases payload with
  | Blank => exact ⟨rfl, rfl, rfl, rfl⟩
  | Membership membership => exact ⟨rfl, rfl, rfl, rfl⟩
  | Normal request =>
    simp only [lease.apply_entry, exec_bind_ok (exec_modify _ _)]
    rw [exec_bind, exec_bind, exec_zoom, exec_zoom]
    rcases exec (handle_request now request) a with ⟨_ | response, a1⟩
    · exact ⟨rfl, rfl, rfl, rfl⟩
    · exact ⟨rfl, rfl, rfl, rfl⟩

/-- Machines that are alike answer every log the same. -/
theorem Alike.apply (h : Alike m m') (entries : List (Entry × DateTime)) :
    (exec (apply entries) m).1 = (exec (apply entries) m').1 ∧
      Alike (exec (apply entries) m).2 (exec (apply entries) m').2 :=
  exec_mapM_alike (fun x _ _ hx => hx.apply_entry x.1 x.2) h

/-! ## A snapshot stands for the entries before it -/

/-- A machine that installs a snapshot is alike the machine that built it, whatever it was
before. -/
theorem alike_of_installed {serde : Serde} (hround : serde.RoundTrips m.authority.snapshot)
    (now : DateTime) (other : StateMachineInner) :
    ∃ snapshot built installed, exec (build_snapshot serde now) m = (.ok snapshot, built) ∧
      exec (install_snapshot serde snapshot) other = (.ok (), installed) ∧ Alike m installed := by
  obtain ⟨data, hto, hfrom⟩ := hround
  refine ⟨_, _, _, rfl, rfl, ?_, rfl, rfl⟩
  simp only [hto, hfrom, Option.getD_some, restore_snapshot]

/-- A snapshot after some entries, installed on any machine, and then the later entries, give
the answers and the state of the whole log. -/
theorem snapshot_then_later_is_the_whole_log {serde : Serde} {m1 : StateMachineInner}
    {before : List (Entry × DateTime)} {results : List LeaseResult}
    (hbefore : exec (apply before) m = (.ok results, m1))
    (hround : serde.RoundTrips m1.authority.snapshot) (now : DateTime)
    (other : StateMachineInner) (later : List (Entry × DateTime)) :
    ∃ snapshot built installed, exec (build_snapshot serde now) m1 = (.ok snapshot, built) ∧
      exec (install_snapshot serde snapshot) other = (.ok (), installed) ∧
      (exec (apply (before ++ later)) m).1 =
        (exec (apply later) installed).1.map (results ++ ·) ∧
      Alike (exec (apply (before ++ later)) m).2 (exec (apply later) installed).2 := by
  obtain ⟨snapshot, built, installed, hbuild, hinstall, halike⟩ :=
    alike_of_installed hround now other
  obtain ⟨hresults, hleft⟩ := halike.apply later
  have hwhole : exec (apply (before ++ later)) m =
      ((exec (apply later) m1).1.map (results ++ ·), (exec (apply later) m1).2) :=
    exec_mapM_append hbefore
  refine ⟨snapshot, built, installed, hbuild, hinstall, ?_, ?_⟩
  · rw [hwhole, hresults]
  · rw [hwhole]
    exact hleft

/-- A log that grants one session to one node, and the bytes of the snapshot after it. -/
def oneGrant : List (Entry × DateTime) :=
  [(⟨⟨⟨1, ⟨7⟩⟩, 1⟩, .Normal ⟨1, ⟨1⟩, .Acquire ⟨[1]⟩ 5000000000⟩⟩, .default)]

def oneGrantSnapshot : LeaseSnapshot :=
  ⟨(∅ : ExtTreeMap SessionId LeaseEntry).insert ⟨1⟩ ⟨⟨[1]⟩, 1, ⟨5000000000, by decide⟩⟩,
    (∅ : ExtTreeMap SessionId Nat).insert ⟨1⟩ 1⟩

def oneGrantJson : List UInt8 :=
  ("\x7b\"leases\":\x7b\"00000000000000000000000000000001\":\x7b\"holder\":[1],\"epoch\":1," ++
    "\"expires_at\":\"1970-01-01T00:00:05Z\"\x7d\x7d," ++
    "\"epochs\":\x7b\"00000000000000000000000000000001\":1\x7d\x7d").toUTF8.data.toList

def oneGrantSerde : Serde where
  to_vec snapshot := if snapshot = oneGrantSnapshot then some oneGrantJson else none
  from_slice data := if data = oneGrantJson then some oneGrantSnapshot else none

/-- A second node acquires the session when the first one is out of its time. -/
def secondGrant : List (Entry × DateTime) :=
  [(⟨⟨⟨1, ⟨7⟩⟩, 2⟩, .Normal ⟨2, ⟨1⟩, .Acquire ⟨[2]⟩ 5000000000⟩⟩, ⟨6000000000, by decide⟩)]

theorem snapshot_then_a_second_grant :
    ∃ installed, (exec (apply (oneGrant ++ secondGrant)) .default).1 =
      (exec (apply secondGrant) installed).1.map ([.Granted 1 ⟨5000000000, by decide⟩] ++ ·) := by
  have hbefore : exec (apply oneGrant) .default =
      (.ok [.Granted 1 ⟨5000000000, by decide⟩], (exec (apply oneGrant) .default).2) := by
    decide +kernel
  have hsnapshot : (exec (apply oneGrant) .default).2.authority.snapshot = oneGrantSnapshot := by
    decide +kernel
  have hround : oneGrantSerde.RoundTrips (exec (apply oneGrant) .default).2.authority.snapshot := by
    rw [hsnapshot]
    exact ⟨oneGrantJson, by simp [oneGrantSerde], by simp [oneGrantSerde]⟩
  obtain ⟨_, _, installed, -, -, hresults, -⟩ :=
    snapshot_then_later_is_the_whole_log hbefore hround ⟨1, by decide⟩ .default secondGrant
  exact ⟨installed, hresults⟩

end marie.lease
