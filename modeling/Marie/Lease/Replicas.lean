-- Two replicas that apply one log. `acquire` and `renew` read the clock of the
-- replica that applies them, so the replicas agree exactly when no entry sees
-- the difference between the two readings.
import Marie.Lease.StateMachine

open Program
open Std (ExtTreeMap)

namespace marie.lease

/-! ## One operation, at two readings -/

namespace LeaseAuthority

variable {a a1 a2 : LeaseAuthority} {t1 t2 : DateTime} {s : SessionId} {op : LeaseOp}
  {r1 r2 : LeaseResult}

/-- The operation does not see which of the two readings it gets. An acquisition sees whether
the session is held, and the reading itself when it is not; a renewal of the stored pair sees
the reading. -/
def SameReading (a : LeaseAuthority) (s : SessionId) (t1 t2 : DateTime) : LeaseOp → Prop
  | .Acquire _ _ => (a.Held s t1 ↔ a.Held s t2) ∧ (¬ a.Held s t1 → t1 = t2)
  | .Renew holder epoch _ => a.Holds s holder epoch → t1 = t2
  | .Release _ _ => True

theorem held_of_lease {lease : LeaseEntry} (h : a.leases[s]? = some lease)
    (hlive : t1 < lease.expires_at) : a.Held s t1 := ⟨lease, h, hlive⟩

/-- An operation that is answered at both readings is answered the same exactly when it does
not see the difference, and then it leaves the same authority. -/
theorem answered_same_iff (h1 : a.Answered t1 s op r1 a1) (h2 : a.Answered t2 s op r2 a2) :
    (r1 = r2 ↔ a.SameReading s t1 t2 op) ∧ (r1 = r2 → a1 = a2) := by
  cases h1 with
  | granted hfree1 hfits1 htime1 =>
    cases h2 with
    | granted hfree2 hfits2 htime2 =>
      constructor
      · constructor
        · intro h
          cases h
          exact ⟨iff_of_false hfree1 hfree2, fun _ => DateTime.checked_add_inj htime1 htime2⟩
        · rintro ⟨-, hsame⟩
          rw [hsame hfree1, htime2] at htime1
          rw [Option.some.inj htime1]
      · intro h
        cases h
        rfl
    | held hlease2 hlive2 =>
      refine ⟨⟨fun h => (by cases h), ?_⟩, fun h => by cases h⟩
      rintro ⟨hheld, -⟩
      exact absurd (hheld.mpr (held_of_lease hlease2 hlive2)) hfree1
  | held hlease1 hlive1 =>
    have hheld1 := held_of_lease hlease1 hlive1
    cases h2 with
    | granted hfree2 hfits2 htime2 =>
      refine ⟨⟨fun h => (by cases h), ?_⟩, fun h => by cases h⟩
      rintro ⟨hheld, -⟩
      exact absurd (hheld.mp hheld1) hfree2
    | held hlease2 hlive2 =>
      rw [hlease1] at hlease2
      cases hlease2
      exact ⟨iff_of_true rfl ⟨iff_of_true hheld1 (held_of_lease hlease1 hlive2),
        fun hfree => absurd hheld1 hfree⟩, fun _ => rfl⟩
  | renewed hpair1 htime1 =>
    cases h2 with
    | renewed hpair2 htime2 =>
      constructor
      · constructor
        · intro h _
          cases h
          exact DateTime.checked_add_inj htime1 htime2
        · intro hsame
          rw [hsame hpair1, htime2] at htime1
          rw [Option.some.inj htime1]
      · intro h
        cases h
        rfl
    | notRenewed hpair2 hcurrent2 => exact absurd hpair1 hpair2
  | notRenewed hpair1 hcurrent1 =>
    cases h2 with
    | renewed hpair2 htime2 => exact absurd hpair2 hpair1
    | notRenewed hpair2 hcurrent2 =>
      rw [hcurrent1] at hcurrent2
      exact ⟨iff_of_true hcurrent2 fun hpair => absurd hpair hpair1, fun _ => rfl⟩
  | released hpair1 =>
    cases h2 with
    | released hpair2 => exact ⟨iff_of_true rfl trivial, fun _ => rfl⟩
    | notReleased hpair2 hcurrent2 => exact absurd hpair1 hpair2
  | notReleased hpair1 hcurrent1 =>
    cases h2 with
    | released hpair2 => exact absurd hpair2 hpair1
    | notReleased hpair2 hcurrent2 =>
      rw [hcurrent1] at hcurrent2
      exact ⟨iff_of_true hcurrent2 trivial, fun _ => rfl⟩

end LeaseAuthority

/-! ## One entry -/

variable {m m' m1 m2 m1' m2' : StateMachineInner} {entry : Entry} {now t1 t2 : DateTime}
  {result r1 r2 : LeaseResult}

/-- The entry does not see which of the two readings it gets. -/
def Entry.SameReading (entry : Entry) (a : LeaseAuthority) (t1 t2 : DateTime) : Prop :=
  match entry.payload with
  | .Normal request => a.SameReading request.session_id t1 t2 request.op
  | _ => True

theorem entry_same_iff (hm : m1.authority = m2.authority)
    (h1 : exec (apply_entry entry t1) m1 = (.ok r1, m1'))
    (h2 : exec (apply_entry entry t2) m2 = (.ok r2, m2')) :
    (r1 = r2 ↔ entry.SameReading m1.authority t1 t2) ∧
      (r1 = r2 → m1'.authority = m2'.authority) := by
  have happlied1 := entry_applied h1
  have happlied2 := entry_applied h2
  rw [← hm] at happlied2
  unfold Entry.SameReading
  cases hpayload : entry.payload with
  | Normal request =>
    rw [hpayload] at happlied1 happlied2
    exact LeaseAuthority.answered_same_iff happlied1 happlied2
  | Blank =>
    rw [hpayload] at happlied1 happlied2
    obtain ⟨rfl, ha1⟩ := happlied1
    obtain ⟨rfl, ha2⟩ := happlied2
    exact ⟨iff_of_true rfl trivial, fun _ => ha1.trans ha2.symm⟩
  | Membership membership =>
    rw [hpayload] at happlied1 happlied2
    obtain ⟨rfl, ha1⟩ := happlied1
    obtain ⟨rfl, ha2⟩ := happlied2
    exact ⟨iff_of_true rfl trivial, fun _ => ha1.trans ha2.symm⟩

/-! ## A log, in any batches -/

/-- An entry of the log, with the reading of each replica when it applies it. -/
structure Replicated where
  entry : Entry
  first : DateTime
  second : DateTime

/-- At no entry does the first replica see the difference between the readings. -/
def InStep : StateMachineInner → List Replicated → Prop
  | _, [] => True
  | m, x :: log => x.entry.SameReading m.authority x.first x.second ∧
      InStep (exec (apply_entry x.entry x.first) m).2 log

theorem log_same_iff {log : List Replicated} {as bs : List LeaseResult}
    (hm : m1.authority = m2.authority)
    (h1 : exec (apply (log.map fun x => (x.entry, x.first))) m1 = (.ok as, m1'))
    (h2 : exec (apply (log.map fun x => (x.entry, x.second))) m2 = (.ok bs, m2')) :
    (as = bs ↔ InStep m1 log) ∧ (as = bs → m1'.authority = m2'.authority) := by
  induction log generalizing m1 m2 as bs with
  | nil =>
    cases h1
    cases h2
    exact ⟨iff_of_true rfl trivial, fun _ => hm⟩
  | cons x log ih =>
    simp only [apply, List.map_cons, List.mapM_cons] at h1 h2
    obtain ⟨a, n1, hx1, h1⟩ := exec_bind_eq_ok h1
    obtain ⟨as, n1', hlog1, h1⟩ := exec_bind_eq_ok h1
    obtain ⟨b, n2, hx2, h2⟩ := exec_bind_eq_ok h2
    obtain ⟨bs, n2', hlog2, h2⟩ := exec_bind_eq_ok h2
    cases h1
    cases h2
    obtain ⟨hhead, hleft⟩ := entry_same_iff hm hx1 hx2
    have hn1 : (exec (apply_entry x.entry x.first) m1).2 = n1 := by rw [hx1]
    rw [InStep, ← hhead, hn1, List.cons.injEq]
    constructor
    · constructor
      · rintro ⟨hab, hrest⟩
        exact ⟨hab, (ih (hleft hab) hlog1 hlog2).1.mp hrest⟩
      · rintro ⟨hab, hrest⟩
        exact ⟨hab, (ih (hleft hab) hlog1 hlog2).1.mpr hrest⟩
    · rintro ⟨hab, hrest⟩
      exact (ih (hleft hab) hlog1 hlog2).2 hrest

/-- Batches are applied one after the other, as one log. -/
theorem apply_batches {batches : List (List (Entry × DateTime))} {results : List (List LeaseResult)}
    (h : exec (batches.mapM apply) m = (.ok results, m')) :
    exec (apply batches.flatten) m = (.ok results.flatten, m') := by
  have hflat : exec (apply batches.flatten) m =
      ((exec (batches.mapM apply) m).1.map List.flatten, (exec (batches.mapM apply) m).2) :=
    exec_mapM_flatten (fun _ => rfl) batches m
  rw [hflat, h]
  rfl

/-- Two replicas that apply a log, each in its own batches and at its own readings, answer the
same and end with the same leases and epochs exactly when no entry sees the difference between
the readings. -/
theorem replicas_agree_iff {log : List Replicated}
    {batches1 batches2 : List (List (Entry × DateTime))} {results1 results2 : List (List LeaseResult)}
    (hm : m1.authority = m2.authority)
    (hlog1 : batches1.flatten = log.map fun x => (x.entry, x.first))
    (hlog2 : batches2.flatten = log.map fun x => (x.entry, x.second))
    (h1 : exec (batches1.mapM apply) m1 = (.ok results1, m1'))
    (h2 : exec (batches2.mapM apply) m2 = (.ok results2, m2')) :
    (results1.flatten = results2.flatten ∧ m1'.authority = m2'.authority) ↔ InStep m1 log := by
  have happlied1 := apply_batches h1
  have happlied2 := apply_batches h2
  rw [hlog1] at happlied1
  rw [hlog2] at happlied2
  obtain ⟨hresults, hleft⟩ := log_same_iff hm happlied1 happlied2
  rw [← hresults]
  constructor
  · exact fun h => h.1
  · exact fun h => ⟨h, hleft h⟩

/-- A second acquisition that one replica applies before the end of the first lease, and the
other one after it. -/
def aroundTheEnd : List Replicated :=
  [⟨⟨⟨⟨1, ⟨7⟩⟩, 1⟩, .Normal ⟨1, ⟨1⟩, .Acquire ⟨[1]⟩ 5⟩⟩, .default, .default⟩,
    ⟨⟨⟨⟨1, ⟨7⟩⟩, 2⟩, .Normal ⟨2, ⟨1⟩, .Acquire ⟨[2]⟩ 5⟩⟩, ⟨4, by decide⟩, ⟨8, by decide⟩⟩]

/-- One replica denies what the other one grants. -/
theorem replicas_disagree_around_the_end :
    ∃ m1 m2 : StateMachineInner,
      exec ([aroundTheEnd.map fun x => (x.entry, x.first)].mapM apply) .default =
        (.ok [[.Granted 1 ⟨5, by decide⟩, .Denied ⟨[1]⟩ 1]], m1) ∧
      exec ([aroundTheEnd.map fun x => (x.entry, x.second)].mapM apply) .default =
        (.ok [[.Granted 1 ⟨5, by decide⟩, .Granted 2 ⟨13, by decide⟩]], m2) ∧
      m1.authority ≠ m2.authority := by
  refine ⟨(exec ([aroundTheEnd.map fun x => (x.entry, x.first)].mapM apply) .default).2,
    (exec ([aroundTheEnd.map fun x => (x.entry, x.second)].mapM apply) .default).2, ?_, ?_, ?_⟩
  · decide +kernel
  · decide +kernel
  · decide +kernel

/-- The batches of two replicas that apply one grant at one reading. -/
def oneBatch : List (List (Entry × DateTime)) :=
  [(aroundTheEnd.take 1).map fun x => (x.entry, x.first)]

def emptyThenOne : List (List (Entry × DateTime)) :=
  [[], (aroundTheEnd.take 1).map fun x => (x.entry, x.second)]

theorem replicas_agree_at_one_reading :
    ([[LeaseResult.Granted 1 ⟨5, by decide⟩]].flatten =
        [[], [LeaseResult.Granted 1 ⟨5, by decide⟩]].flatten ∧
      (exec (oneBatch.mapM apply) .default).2.authority =
        (exec (emptyThenOne.mapM apply) .default).2.authority) ↔
      InStep .default (aroundTheEnd.take 1) := by
  have h1 : exec (oneBatch.mapM apply) .default =
      (.ok [[.Granted 1 ⟨5, by decide⟩]], (exec (oneBatch.mapM apply) .default).2) := by
    decide +kernel
  have h2 : exec (emptyThenOne.mapM apply) .default =
      (.ok [[], [.Granted 1 ⟨5, by decide⟩]], (exec (emptyThenOne.mapM apply) .default).2) := by
    decide +kernel
  exact replicas_agree_iff rfl rfl rfl h1 h2

end marie.lease
