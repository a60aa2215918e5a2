-- The lease authority: who holds the lease of each session, until when, and the
-- epoch of the last grant. The clock is read inside `acquire` and `renew`; here
-- a request comes with the reading it gets.
import Marie.Lib.Transcript
import Marie.Lease.Protocol

open Program
open Std (ExtTreeMap)

namespace marie.lease

/-! ## The state -/

structure LeaseEntry where
  holder : NodeId
  epoch : Nat
  expires_at : DateTime
deriving DecidableEq

def LeaseEntry.has_expired (lease : LeaseEntry) (t : DateTime) : Bool := lease.expires_at ≤ t

structure LeaseAuthority where
  leases : ExtTreeMap SessionId LeaseEntry
  epochs : ExtTreeMap SessionId Nat
deriving DecidableEq

def LeaseAuthority.default : LeaseAuthority := ⟨∅, ∅⟩

/-- A call that panics does not return: an epoch past `u64`, or an instant that `chrono` does
not have. -/
inductive Panic
  | AddOverflow
  | DateTimeOverflow
deriving DecidableEq

/-! ## The requests -/

/-- `now + ttl`. -/
def add_ttl (now : DateTime) (ttl : Int) : Program Panic LeaseAuthority DateTime :=
  match now.checked_add ttl with
  | some t => pure t
  | none => throw .DateTimeOverflow

/-- `epochs.entry(session_id).and_modify(|e| *e += 1).or_insert(1)`. -/
def next_epoch (session_id : SessionId) : Program Panic LeaseAuthority Nat := do
  match ← asks (·.epochs[session_id]?) with
  | some e =>
    if e + 1 < 2 ^ 64 then do
      modify fun a => { a with epochs := a.epochs.insert session_id (e + 1) }
      pure (e + 1)
    else throw .AddOverflow
  | none => do
    modify fun a => { a with epochs := a.epochs.insert session_id 1 }
    pure 1

def release (session_id : SessionId) (holder : NodeId) (epoch : Nat) :
    Program Panic LeaseAuthority LeaseResult := do
  match ← asks (·.leases[session_id]?) with
  | some lease =>
    if lease.holder = holder ∧ lease.epoch = epoch then do
      modify fun a => { a with leases := a.leases.erase session_id }
      pure (.Renewed DateTime.default)
    else pure (.Denied lease.holder lease.epoch)
  | none => pure (.Denied holder 0)

def renew (now : DateTime) (session_id : SessionId) (holder : NodeId) (epoch : Nat) (ttl : Int) :
    Program Panic LeaseAuthority LeaseResult := do
  match ← asks (·.leases[session_id]?) with
  | some lease =>
    if lease.holder = holder ∧ lease.epoch = epoch then do
      let expires_at ← add_ttl now ttl
      modify fun a =>
        { a with leases := a.leases.insert session_id { lease with expires_at := expires_at } }
      pure (.Renewed expires_at)
    else pure (.Denied lease.holder lease.epoch)
  | none => pure (.Denied holder 0)

def acquire (now : DateTime) (session_id : SessionId) (holder : NodeId) (ttl : Int) :
    Program Panic LeaseAuthority LeaseResult := do
  match (← asks (·.leases[session_id]?)).filter fun lease => !lease.has_expired now with
  | some lease => pure (.Denied lease.holder lease.epoch)
  | none => do
    let epoch ← next_epoch session_id
    let expires_at ← add_ttl now ttl
    modify fun a => { a with leases := a.leases.insert session_id ⟨holder, epoch, expires_at⟩ }
    pure (.Granted epoch expires_at)

def handle_request (now : DateTime) (request : LeaseRequest) :
    Program Panic LeaseAuthority LeaseResponse := do
  let result ← (match request.op with
    | .Acquire holder ttl => acquire now request.session_id holder ttl
    | .Renew holder epoch ttl => renew now request.session_id holder epoch ttl
    | .Release holder epoch => release request.session_id holder epoch)
  pure ⟨request.request_id, result⟩

/-! ## The snapshot -/

structure LeaseSnapshot where
  leases : ExtTreeMap SessionId LeaseEntry
  epochs : ExtTreeMap SessionId Nat
deriving DecidableEq

def LeaseSnapshot.default : LeaseSnapshot := ⟨∅, ∅⟩

def LeaseAuthority.snapshot (a : LeaseAuthority) : LeaseSnapshot := ⟨a.leases, a.epochs⟩

def LeaseAuthority.restore (_ : LeaseAuthority) (snapshot : LeaseSnapshot) : LeaseAuthority :=
  ⟨snapshot.leases, snapshot.epochs⟩

@[simp] theorem restore_snapshot (a b : LeaseAuthority) : b.restore a.snapshot = a := rfl

/-! ## What a request can do -/

namespace LeaseAuthority

variable {a a' : LeaseAuthority} {now : DateTime} {request : LeaseRequest}

/-- Some lease of the session is not expired at `now`. -/
def Held (a : LeaseAuthority) (session_id : SessionId) (now : DateTime) : Prop :=
  ∃ lease, a.leases[session_id]? = some lease ∧ now < lease.expires_at

/-- The pair that is stored for the session. -/
def Holds (a : LeaseAuthority) (session_id : SessionId) (holder : NodeId) (epoch : Nat) : Prop :=
  ∃ expires_at, a.leases[session_id]? = some ⟨holder, epoch, expires_at⟩

/-- The epoch of the last grant, and 0 before the first one. -/
def epoch (a : LeaseAuthority) (session_id : SessionId) : Nat := a.epochs[session_id]?.getD 0

/-- The authority after a grant. -/
def grant (a : LeaseAuthority) (session_id : SessionId) (holder : NodeId)
    (expires_at : DateTime) : LeaseAuthority where
  leases := a.leases.insert session_id ⟨holder, a.epoch session_id + 1, expires_at⟩
  epochs := a.epochs.insert session_id (a.epoch session_id + 1)

/-- What is said of the lease to a holder that does not have it. -/
def current (a : LeaseAuthority) (session_id : SessionId) (holder : NodeId) : LeaseResult :=
  match a.leases[session_id]? with
  | some lease => .Denied lease.holder lease.epoch
  | none => .Denied holder 0

/-- The answers to an operation on a session, each with the authority it leaves. -/
inductive Answered (a : LeaseAuthority) (now : DateTime) (s : SessionId) :
    LeaseOp → LeaseResult → LeaseAuthority → Prop
  | granted {holder ttl expires_at} (hfree : ¬ a.Held s now)
      (hfits : a.epoch s + 1 < 2 ^ 64) (htime : now.checked_add ttl = some expires_at) :
      Answered a now s (.Acquire holder ttl) (.Granted (a.epoch s + 1) expires_at)
        (a.grant s holder expires_at)
  | held {holder ttl lease} (hlease : a.leases[s]? = some lease) (hlive : now < lease.expires_at) :
      Answered a now s (.Acquire holder ttl) (.Denied lease.holder lease.epoch) a
  | renewed {holder epoch ttl expires_at} (hpair : a.Holds s holder epoch)
      (htime : now.checked_add ttl = some expires_at) :
      Answered a now s (.Renew holder epoch ttl) (.Renewed expires_at)
        { a with leases := a.leases.insert s ⟨holder, epoch, expires_at⟩ }
  | notRenewed {holder epoch ttl current_holder current_epoch} (hpair : ¬ a.Holds s holder epoch)
      (hcurrent : a.current s holder = .Denied current_holder current_epoch) :
      Answered a now s (.Renew holder epoch ttl) (.Denied current_holder current_epoch) a
  | released {holder epoch} (hpair : a.Holds s holder epoch) :
      Answered a now s (.Release holder epoch) (.Renewed DateTime.default)
        { a with leases := a.leases.erase s }
  | notReleased {holder epoch current_holder current_epoch} (hpair : ¬ a.Holds s holder epoch)
      (hcurrent : a.current s holder = .Denied current_holder current_epoch) :
      Answered a now s (.Release holder epoch) (.Denied current_holder current_epoch) a

theorem holds_of_lease {s : SessionId} {lease : LeaseEntry} (h : a.leases[s]? = some lease) :
    a.Holds s lease.holder lease.epoch := ⟨lease.expires_at, h⟩

/-- One session has one lease. -/
theorem holds_of_lease_iff {s : SessionId} {lease : LeaseEntry} {holder : NodeId} {epoch : Nat}
    (h : a.leases[s]? = some lease) :
    a.Holds s holder epoch ↔ lease.holder = holder ∧ lease.epoch = epoch := by
  constructor
  · rintro ⟨expires_at, hlease⟩
    rw [h] at hlease
    cases hlease
    exact ⟨rfl, rfl⟩
  · rintro ⟨rfl, rfl⟩
    exact holds_of_lease h

theorem not_holds_of_none {s : SessionId} {holder : NodeId} {epoch : Nat}
    (h : a.leases[s]? = none) : ¬ a.Holds s holder epoch := by
  rintro ⟨expires_at, hlease⟩
  rw [h] at hlease
  cases hlease

theorem add_ttl_eq_ok {ttl : Int} {t : DateTime} (h : exec (add_ttl now ttl) a = (.ok t, a')) :
    now.checked_add ttl = some t ∧ a' = a := by
  unfold add_ttl at h
  split at h
  · next t' ht =>
    cases h
    exact ⟨ht, rfl⟩
  · cases h

theorem next_epoch_eq_ok {s : SessionId} {epoch : Nat}
    (h : exec (next_epoch s) a = (.ok epoch, a')) :
    epoch = a.epoch s + 1 ∧ epoch < 2 ^ 64 ∧
      a' = { a with epochs := a.epochs.insert s (a.epoch s + 1) } := by
  unfold next_epoch at h
  rw [exec_bind_ok (exec_asks _ _)] at h
  cases he : a.epochs[s]? with
  | none =>
    simp only [he, exec_bind_ok (exec_modify _ _), exec_pure] at h
    cases h
    simp [epoch, he]
  | some e =>
    simp only [he] at h
    split at h
    · next hlt =>
      rw [exec_bind_ok (exec_modify _ _), exec_pure] at h
      cases h
      exact ⟨by simp [epoch, he], hlt, by simp [epoch, he]⟩
    · cases h

theorem acquire_answered {s : SessionId} {holder : NodeId} {ttl : Int} {result : LeaseResult}
    (h : exec (acquire now s holder ttl) a = (.ok result, a')) :
    a.Answered now s (.Acquire holder ttl) result a' := by
  unfold acquire at h
  rw [exec_bind_ok (exec_asks _ _)] at h
  cases hlive : a.leases[s]?.filter fun lease => !lease.has_expired now with
  | some lease =>
    simp only [hlive, exec_pure] at h
    cases h
    obtain ⟨hlease, hlt⟩ := Option.filter_eq_some_iff.mp hlive
    exact .held hlease (by simpa [LeaseEntry.has_expired] using hlt)
  | none =>
    simp only [hlive] at h
    obtain ⟨e, a1, he, h⟩ := exec_bind_eq_ok h
    obtain ⟨t, a2, ht, h⟩ := exec_bind_eq_ok h
    obtain ⟨rfl, hfits, rfl⟩ := next_epoch_eq_ok he
    obtain ⟨htime, rfl⟩ := add_ttl_eq_ok ht
    cases h
    refine .granted ?_ hfits htime
    rintro ⟨lease, hlease, hlt⟩
    rw [hlease, Option.filter_some_pos (by simpa [LeaseEntry.has_expired] using hlt)] at hlive
    cases hlive

theorem renew_answered {s : SessionId} {holder : NodeId} {epoch : Nat} {ttl : Int}
    {result : LeaseResult} (h : exec (renew now s holder epoch ttl) a = (.ok result, a')) :
    a.Answered now s (.Renew holder epoch ttl) result a' := by
  unfold renew at h
  rw [exec_bind_ok (exec_asks _ _)] at h
  cases hlease : a.leases[s]? with
  | some lease =>
    simp only [hlease] at h
    by_cases hpair : lease.holder = holder ∧ lease.epoch = epoch
    · rw [if_pos hpair] at h
      obtain ⟨t, a1, ht, hset⟩ := exec_bind_eq_ok h
      obtain ⟨htime, rfl⟩ := add_ttl_eq_ok ht
      rw [exec_bind_ok (exec_modify _ _), exec_pure] at hset
      cases hset
      obtain ⟨rfl, rfl⟩ := hpair
      exact .renewed (holds_of_lease hlease) htime
    · rw [if_neg hpair] at h
      cases h
      exact .notRenewed (fun hholds => hpair ((holds_of_lease_iff hlease).mp hholds))
        (by simp [current, hlease])
  | none =>
    simp only [hlease, exec_pure] at h
    cases h
    exact .notRenewed (not_holds_of_none hlease) (by simp [current, hlease])

theorem release_answered {s : SessionId} {holder : NodeId} {epoch : Nat} {result : LeaseResult}
    (h : exec (release s holder epoch) a = (.ok result, a')) :
    a.Answered now s (.Release holder epoch) result a' := by
  unfold release at h
  rw [exec_bind_ok (exec_asks _ _)] at h
  cases hlease : a.leases[s]? with
  | some lease =>
    simp only [hlease] at h
    split at h
    · next hpair =>
      cases h
      exact .released ((holds_of_lease_iff hlease).mpr hpair)
    · next hpair =>
      cases h
      exact .notReleased (fun hholds => hpair ((holds_of_lease_iff hlease).mp hholds))
        (by simp [current, hlease])
  | none =>
    simp only [hlease, exec_pure] at h
    cases h
    exact .notReleased (not_holds_of_none hlease) (by simp [current, hlease])

/-- A request that is answered is answered in one of the ways above. -/
theorem request_answered {response : LeaseResponse}
    (h : exec (handle_request now request) a = (.ok response, a')) :
    response.request_id = request.request_id ∧
      a.Answered now request.session_id request.op response.result a' := by
  obtain ⟨id, session_id, op⟩ := request
  unfold handle_request at h
  obtain ⟨result, a1, hop, h⟩ := exec_bind_eq_ok h
  cases h
  refine ⟨rfl, ?_⟩
  cases op with
  | Acquire holder ttl => exact acquire_answered hop
  | Renew holder epoch ttl => exact renew_answered hop
  | Release holder epoch => exact release_answered hop

end LeaseAuthority

end marie.lease
