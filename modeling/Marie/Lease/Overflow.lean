-- When a committed entry can be applied: neither the epoch nor the end of the
-- lease overflows. A request that acquires a session and whose time to live
-- goes past the instants of `chrono` stops after the epoch has moved.
import Marie.Lease.Epochs
import Marie.Lease.StateMachine

open Program
open Std (ExtTreeMap)

namespace marie.lease

/-- The instant `ttl` later is one that `chrono` has. -/
def DateTime.Reaches (t : DateTime) (ttl : Int) : Prop :=
  MIN_UTC ≤ t.nanos + ttl ∧ t.nanos + ttl ≤ MAX_UTC

theorem DateTime.reaches_iff {t : DateTime} {ttl : Int} :
    t.Reaches ttl ↔ ∃ t', t.checked_add ttl = some t' := by
  unfold Reaches checked_add
  constructor
  · intro h
    exact ⟨_, dif_pos h⟩
  · rintro ⟨t', h⟩
    by_contra hno
    rw [dif_neg hno] at h
    cases h

namespace LeaseAuthority

variable {a a' : LeaseAuthority} {now : DateTime} {request : LeaseRequest}

/-! ## One request -/

/-- What a request needs of the authority and of the clock: a grant needs room for one more
epoch, and a grant or a renewal that is due needs the instant of its end. -/
def CanAnswer (a : LeaseAuthority) (now : DateTime) (request : LeaseRequest) : Prop :=
  match request.op with
  | .Acquire _ ttl => a.Held request.session_id now ∨
      (a.epoch request.session_id + 1 < 2 ^ 64 ∧ now.Reaches ttl)
  | .Renew holder epoch ttl => a.Holds request.session_id holder epoch → now.Reaches ttl
  | .Release _ _ => True

/-- An epoch that is not the one of before is the one of a lease that is stored with it, and
nothing else has moved. -/
def AdvancesWithLease (a a' : LeaseAuthority) : Prop :=
  ∀ s, a'.epoch s ≠ a.epoch s → ∃ holder expires_at, a' = a.grant s holder expires_at

theorem add_ttl_succeeds_iff {ttl : Int} : Succeeds (add_ttl now ttl) a ↔ now.Reaches ttl := by
  rw [DateTime.reaches_iff]
  unfold add_ttl
  constructor
  · rintro ⟨t, a', h⟩
    exact ⟨t, (add_ttl_eq_ok h).1⟩
  · rintro ⟨t, h⟩
    simp only [h]
    exact succeeds_of_eq (exec_pure _ _)

/-- The epochs have room for one more, or the call panics before it moves any. -/
theorem next_epoch_of_room {s : SessionId} (hroom : a.epoch s + 1 < 2 ^ 64) :
    exec (next_epoch s) a =
      (.ok (a.epoch s + 1), { a with epochs := a.epochs.insert s (a.epoch s + 1) }) := by
  unfold next_epoch
  rw [exec_bind_ok (exec_asks _ _)]
  cases he : a.epochs[s]? with
  | none =>
    simp only [exec_bind_ok (exec_modify _ _), exec_pure, epoch, he, Option.getD_none, zero_add]
  | some e =>
    have hlt : e + 1 < 2 ^ 64 := by simpa [epoch, he] using hroom
    simp only [if_pos hlt, exec_bind_ok (exec_modify _ _), exec_pure, epoch, he, Option.getD_some]

theorem next_epoch_succeeds_iff {s : SessionId} :
    Succeeds (next_epoch s) a ↔ a.epoch s + 1 < 2 ^ 64 := by
  constructor
  · rintro ⟨epoch, a', h⟩
    obtain ⟨rfl, hlt, -⟩ := next_epoch_eq_ok h
    exact hlt
  · intro h
    exact succeeds_of_eq (next_epoch_of_room h)

/-- The lease that `acquire` finds is one that has not expired. -/
theorem held_iff {s : SessionId} : a.Held s now ↔
    ∃ lease, (a.leases[s]?.filter fun lease => !lease.has_expired now) = some lease := by
  simp [Held, Option.filter_eq_some_iff, LeaseEntry.has_expired]

theorem acquire_succeeds_iff {s : SessionId} {holder : NodeId} {ttl : Int} :
    Succeeds (acquire now s holder ttl) a ↔
      a.Held s now ∨ (a.epoch s + 1 < 2 ^ 64 ∧ now.Reaches ttl) := by
  unfold acquire
  rw [succeeds_bind (exec_asks _ _), held_iff]
  cases a.leases[s]?.filter fun lease => !lease.has_expired now with
  | some lease => simp [succeeds_of_eq (exec_pure _ _)]
  | none =>
    simp only [reduceCtorEq, exists_false, false_or]
    by_cases hroom : a.epoch s + 1 < 2 ^ 64
    · rw [succeeds_bind (next_epoch_of_room hroom)]
      by_cases hreach : now.Reaches ttl
      · obtain ⟨t, a1, ht⟩ := add_ttl_succeeds_iff.mpr hreach
        rw [succeeds_bind ht, succeeds_bind (exec_modify _ _)]
        exact iff_of_true (succeeds_of_eq (exec_pure _ _)) ⟨hroom, hreach⟩
      · apply iff_of_false
        · exact not_succeeds_bind (add_ttl_succeeds_iff.not.mpr hreach)
        · exact fun h => hreach h.2
    · apply iff_of_false
      · exact not_succeeds_bind (next_epoch_succeeds_iff.not.mpr hroom)
      · exact fun h => hroom h.1

theorem renew_succeeds_iff {s : SessionId} {holder : NodeId} {epoch : Nat} {ttl : Int} :
    Succeeds (renew now s holder epoch ttl) a ↔ (a.Holds s holder epoch → now.Reaches ttl) := by
  by_cases hpair : a.Holds s holder epoch
  · obtain ⟨t0, hlease⟩ := hpair
    have hholds : a.Holds s holder epoch := ⟨t0, hlease⟩
    unfold renew
    rw [succeeds_bind (exec_asks _ _)]
    simp only [hlease, and_self, if_true, hholds, true_implies]
    by_cases hreach : now.Reaches ttl
    · obtain ⟨t, a1, ht⟩ := add_ttl_succeeds_iff.mpr hreach
      rw [succeeds_bind ht, succeeds_bind (exec_modify _ _)]
      exact iff_of_true (succeeds_of_eq (exec_pure _ _)) hreach
    · exact iff_of_false (not_succeeds_bind (add_ttl_succeeds_iff.not.mpr hreach)) hreach
  · simp [hpair, succeeds_of_eq (renew_of_not_holds ttl hpair)]

theorem release_succeeds (s : SessionId) (holder : NodeId) (epoch : Nat) :
    Succeeds (release s holder epoch) a := by
  by_cases hpair : a.Holds s holder epoch
  · obtain ⟨t, hlease⟩ := hpair
    unfold release
    rw [succeeds_bind (exec_asks _ _)]
    simp only [hlease, and_self, if_true]
    rw [succeeds_bind (exec_modify _ _)]
    exact succeeds_of_eq (exec_pure _ _)
  · exact succeeds_of_eq (release_of_not_holds hpair)

theorem handle_request_succeeds_iff :
    Succeeds (handle_request now request) a ↔ a.CanAnswer now request := by
  unfold handle_request CanAnswer
  rw [succeeds_bind_pure]
  cases request.op with
  | Acquire holder ttl => exact acquire_succeeds_iff
  | Renew holder epoch ttl => exact renew_succeeds_iff
  | Release holder epoch => exact iff_of_true (release_succeeds _ _ _) trivial

theorem advances_of_answered {s : SessionId} {op : LeaseOp} {result : LeaseResult}
    (h : a.Answered now s op result a') : a.AdvancesWithLease a' := by
  intro s' hne
  cases h with
  | granted hfree hfits htime =>
    by_cases hs : s' = s
    · subst hs
      exact ⟨_, _, rfl⟩
    · exact absurd (epoch_grant_of_ne _ _ hs) hne
  | held | renewed | released | notRenewed | notReleased => exact absurd rfl hne

/-- A request that is answered moves an epoch only with the lease of its grant. -/
theorem advances_of_request {response : LeaseResponse}
    (h : exec (handle_request now request) a = (.ok response, a')) : a.AdvancesWithLease a' :=
  advances_of_answered (request_answered h).2

end LeaseAuthority

/-! ## The log -/

namespace StateMachineInner

variable {m : StateMachineInner} {entries : List (Entry × DateTime)}

/-- What an entry needs of the machine before it. -/
def CanApply (m : StateMachineInner) (x : Entry × DateTime) : Prop :=
  match x.1.payload with
  | .Blank | .Membership _ => True
  | .Normal request => m.authority.CanAnswer x.2 request

/-- The machine that a log leaves. -/
def applied (m : StateMachineInner) (entries : List (Entry × DateTime)) : StateMachineInner :=
  (exec (apply entries) m).2

theorem apply_entry_succeeds_iff {x : Entry × DateTime} :
    Succeeds (apply_entry x.1 x.2) m ↔ m.CanApply x := by
  unfold apply_entry CanApply
  rw [succeeds_bind (exec_modify _ _)]
  cases x.1.payload with
  | Blank => exact iff_of_true (succeeds_of_eq (exec_pure _ _)) trivial
  | Membership membership =>
    dsimp only
    rw [succeeds_bind (exec_modify _ _)]
    exact iff_of_true (succeeds_of_eq (exec_pure _ _)) trivial
  | Normal request =>
    dsimp only
    rw [succeeds_bind_pure, succeeds_zoom]
    exact LeaseAuthority.handle_request_succeeds_iff

/-- An entry that is applied moves an epoch only with the lease of its grant. -/
theorem advances_of_entry {x : Entry × DateTime} {result : LeaseResult} {m' : StateMachineInner}
    (h : exec (apply_entry x.1 x.2) m = (.ok result, m')) :
    m.authority.AdvancesWithLease m'.authority := by
  unfold apply_entry at h
  rw [exec_bind_ok (exec_modify _ _)] at h
  cases hpayload : x.1.payload with
  | Blank =>
    rw [hpayload] at h
    cases h
    exact fun s hne => absurd rfl hne
  | Membership membership =>
    rw [hpayload] at h
    cases h
    exact fun s hne => absurd rfl hne
  | Normal request =>
    rw [hpayload] at h
    obtain ⟨response, m1, hzoom, h⟩ := exec_bind_eq_ok h
    cases h
    obtain ⟨a', hrun, rfl⟩ := exec_zoom_eq_ok hzoom
    exact LeaseAuthority.advances_of_request hrun

/-- A log that is applied to its end applied its first part, and then the entry after it. -/
theorem applied_snoc {before : List (Entry × DateTime)} {x : Entry × DateTime}
    {results : List LeaseResult} {m1 : StateMachineInner}
    (h : exec (apply before) m = (.ok results, m1)) :
    exec (apply (before ++ [x])) m = ((exec (apply_entry x.1 x.2) m1).1.map (results ++ [·]),
      (exec (apply_entry x.1 x.2) m1).2) := by
  have hone : exec (apply [x]) m1 = ((exec (apply_entry x.1 x.2) m1).1.map ([·]),
      (exec (apply_entry x.1 x.2) m1).2) := by
    unfold apply
    rw [List.mapM_cons, exec_bind]
    rcases exec (apply_entry x.1 x.2) m1 with ⟨_ | result, m2⟩ <;> rfl
  have hall : exec (apply (before ++ [x])) m =
      ((exec (apply [x]) m1).1.map (results ++ ·), (exec (apply [x]) m1).2) := exec_mapM_append h
  rw [hall, hone]
  rcases (exec (apply_entry x.1 x.2) m1).1 with _ | result <;> rfl

/-- The first part of a log that is applied was applied. -/
theorem applied_prefix {before later : List (Entry × DateTime)} {results : List LeaseResult}
    (h : (exec (apply (before ++ later)) m).1 = .ok results) :
    ∃ first, exec (apply before) m = (.ok first, m.applied before) := by
  rcases hb : exec (apply before) m with ⟨e | first, m1⟩
  · have hall : exec (apply (before ++ later)) m = (.error e, m1) := exec_mapM_append_error hb
    rw [hall] at h
    cases h
  · exact ⟨first, by rw [applied, hb]⟩

/-- In a log that is applied to its end, each entry was applied to the machine that the entries
before it leave. -/
theorem applied_entry {before later : List (Entry × DateTime)} {x : Entry × DateTime}
    {results : List LeaseResult} (h : (exec (apply (before ++ x :: later)) m).1 = .ok results) :
    ∃ result, exec (apply_entry x.1 x.2) (m.applied before) =
      (.ok result, m.applied (before ++ [x])) := by
  rw [← List.singleton_append, ← List.append_assoc] at h
  obtain ⟨first, hsnoc⟩ := applied_prefix h
  obtain ⟨first', hbefore⟩ := applied_prefix (congrArg Prod.fst hsnoc)
  rw [applied_snoc hbefore] at hsnoc
  obtain ⟨hresult, hleft⟩ := Prod.mk.inj hsnoc
  rw [← hleft]
  rcases hx : exec (apply_entry x.1 x.2) (m.applied before) with ⟨e | result, m2⟩
  · rw [hx] at hresult
    cases hresult
  · exact ⟨result, rfl⟩

/-- Every entry of the log moves an epoch only with the lease of its grant. -/
def AdvancesEach (m : StateMachineInner) (entries : List (Entry × DateTime)) : Prop :=
  ∀ before x later, entries = before ++ x :: later →
    (m.applied before).authority.AdvancesWithLease (m.applied (before ++ [x])).authority

/-- A log is applied to its end exactly when each entry can be applied to the machine that the
entries before it leave. -/
theorem apply_succeeds_iff : Succeeds (apply entries) m ↔
    ∀ before x later, entries = before ++ x :: later → (m.applied before).CanApply x := by
  constructor
  · rintro ⟨results, m', h⟩ before x later rfl
    obtain ⟨result, hx⟩ := applied_entry (congrArg Prod.fst h)
    exact apply_entry_succeeds_iff.mp (succeeds_of_eq hx)
  · intro h
    induction entries using List.reverseRecOn with
    | nil => exact succeeds_of_eq (exec_pure _ _)
    | append_singleton before x ih =>
      obtain ⟨first, m1, hbefore⟩ := ih fun before' y later heq =>
        h before' y (later ++ [x]) (by simp [heq])
      have hx := h before x [] rfl
      rw [applied, hbefore, ← apply_entry_succeeds_iff] at hx
      obtain ⟨result, m2, hx⟩ := hx
      have hsnoc := applied_snoc hbefore (x := x)
      rw [hx] at hsnoc
      exact succeeds_of_eq hsnoc

/-- A log that is applied to its end gives one answer for each entry, and moves an epoch only
with a lease. -/
theorem advances_of_apply {results : List LeaseResult} {m' : StateMachineInner}
    (h : exec (apply entries) m = (.ok results, m')) :
    results.length = entries.length ∧ m.AdvancesEach entries := by
  refine ⟨(answers_of_mapM h).1, ?_⟩
  rintro before x later rfl
  obtain ⟨result, hx⟩ := applied_entry (congrArg Prod.fst h)
  exact advances_of_entry hx

end StateMachineInner

/-- A request is answered, and moves an epoch only with the lease of its grant, exactly when the
authority has room for the epoch and the clock for the instant; a log is applied so exactly when
each of its entries finds them. -/
theorem requests_are_whole_iff (a : LeaseAuthority) (now : DateTime) (request : LeaseRequest)
    (m : StateMachineInner) (entries : List (Entry × DateTime)) :
    ((∃ response a', exec (handle_request now request) a = (.ok response, a') ∧
      response.request_id = request.request_id ∧ a.AdvancesWithLease a') ↔
      a.CanAnswer now request) ∧
    ((∃ results, exec (apply entries) m = (.ok results, m.applied entries) ∧
      results.length = entries.length ∧ m.AdvancesEach entries) ↔
      ∀ before x later, entries = before ++ x :: later → (m.applied before).CanApply x) := by
  constructor
  · rw [← LeaseAuthority.handle_request_succeeds_iff]
    constructor
    · rintro ⟨response, a', h, -⟩
      exact succeeds_of_eq h
    · rintro ⟨response, a', h⟩
      have hid := (LeaseAuthority.request_answered h).1
      exact ⟨response, a', h, hid, LeaseAuthority.advances_of_request h⟩
  · rw [← StateMachineInner.apply_succeeds_iff]
    constructor
    · rintro ⟨results, h, -⟩
      exact succeeds_of_eq h
    · rintro ⟨results, m', h⟩
      obtain ⟨hlen, heach⟩ := StateMachineInner.advances_of_apply h
      exact ⟨results, by rw [StateMachineInner.applied, h], hlen, heach⟩

/-- The longest time that `chrono` can hold, in nanoseconds: `i64::MAX` milliseconds. -/
def MAX_DURATION : Int := (2 ^ 63 - 1) * 1000000

/-- A node that acquires a session for the longest time. -/
def longestLease : LeaseRequest := ⟨1, ⟨1⟩, .Acquire ⟨[1]⟩ MAX_DURATION⟩

/-- A node acquires a session that no one has, for the longest time: the call panics, and leaves
the session with an epoch that no lease has; so does the entry of the log. -/
theorem the_longest_lease_is_half_applied :
    ¬ Succeeds (handle_request .default longestLease) .default ∧
      ¬ LeaseAuthority.default.AdvancesWithLease
        (exec (handle_request .default longestLease) .default).2 ∧
      ¬ Succeeds (apply [(⟨⟨⟨1, ⟨7⟩⟩, 1⟩, .Normal longestLease⟩, .default)]) .default := by
  have hpanics : (exec (handle_request .default longestLease) .default).1 =
      .error .DateTimeOverflow := by decide +kernel
  have hepoch : (exec (handle_request .default longestLease) .default).2.epoch ⟨1⟩ = 1 := by
    decide +kernel
  have hlease : (exec (handle_request .default longestLease) .default).2.leases = ∅ := by
    decide +kernel
  have happly : (exec (apply [(⟨⟨⟨1, ⟨7⟩⟩, 1⟩, .Normal longestLease⟩, .default)]) .default).1 =
      .error .DateTimeOverflow := by decide +kernel
  refine ⟨not_succeeds_of_eq (Prod.ext hpanics rfl), ?_, not_succeeds_of_eq (Prod.ext happly rfl)⟩
  intro hadvances
  obtain ⟨holder, t, hgrant⟩ := hadvances ⟨1⟩ (by simp [hepoch])
  rw [hgrant] at hlease
  have hsome := congrArg (·[(⟨1⟩ : SessionId)]?) hlease
  simp [LeaseAuthority.grant] at hsome

end marie.lease
