-- The epochs of a session count its grants, and a pair that is not the stored
-- one moves nothing: the fence between two controllers of a session.
import Marie.Lease.Authority

open Program
open Std (ExtTreeMap)

namespace marie.lease

/-! ## Histories -/

/-- A request, with the reading of the clock while it is handled. -/
structure Call where
  now : DateTime
  request : LeaseRequest
deriving DecidableEq

def serve (call : Call) : Program Panic LeaseAuthority LeaseResponse :=
  handle_request call.now call.request

/-- The calls made to an authority, each with its response. -/
abbrev History := List (Call × LeaseResponse)

/-- The epoch that a call is granted on the session. -/
def grantedEpoch (s : SessionId) (answered : Call × LeaseResponse) : Option Nat :=
  match answered.2.result with
  | .Granted epoch _ => if answered.1.request.session_id = s then some epoch else none
  | _ => none

/-- The epochs of the grants of a session, in their order. -/
def grantedEpochs (s : SessionId) (history : History) : List Nat :=
  history.filterMap (grantedEpoch s)

namespace LeaseAuthority

variable {a a' : LeaseAuthority} {now : DateTime} {s : SessionId} {op : LeaseOp}
  {result : LeaseResult} {history : History}

/-! ## One request -/

@[simp] theorem epoch_default : LeaseAuthority.default.epoch s = 0 := by
  simp [epoch, LeaseAuthority.default]

@[simp] theorem epoch_grant_self (holder : NodeId) (t : DateTime) :
    (a.grant s holder t).epoch s = a.epoch s + 1 := by
  simp [epoch, grant]

theorem epoch_grant_of_ne {s' : SessionId} (holder : NodeId) (t : DateTime) (h : s' ≠ s) :
    (a.grant s holder t).epoch s' = a.epoch s' := by
  simp only [epoch, grant, OrderedMap.get_insert_of_ne h]

/-- Every stored lease is of the last grant of its session. -/
def Fenced (a : LeaseAuthority) : Prop :=
  ∀ (s : SessionId) (lease : LeaseEntry), a.leases[s]? = some lease →
    a.epochs[s]? = some lease.epoch

theorem fenced_default : LeaseAuthority.default.Fenced := by
  intro s lease h
  simp [LeaseAuthority.default] at h

theorem Fenced.epoch_of_lease (h : a.Fenced) {lease : LeaseEntry}
    (hlease : a.leases[s]? = some lease) : a.epoch s = lease.epoch := by
  simp [epoch, h s lease hlease]

theorem Fenced.epoch_of_holds (h : a.Fenced) {holder : NodeId} {epoch : Nat}
    (hpair : a.Holds s holder epoch) : a.epoch s = epoch := by
  obtain ⟨t, hlease⟩ := hpair
  exact h.epoch_of_lease hlease

/-- A grant, a renewal or a release leaves the two maps in step. -/
theorem Fenced.answered (h : a.Fenced) (hop : a.Answered now s op result a') : a'.Fenced := by
  intro s' lease hlease
  cases hop with
  | granted hfree hfits htime =>
    by_cases hs : s' = s
    · subst hs
      simp only [grant, ExtTreeMap.getElem?_insert_self, Option.some.injEq] at hlease ⊢
      rw [← hlease]
    · rw [grant, OrderedMap.get_insert_of_ne hs] at hlease ⊢
      exact h s' lease hlease
  | renewed hpair htime =>
    by_cases hs : s' = s
    · subst hs
      obtain ⟨t, hold⟩ := hpair
      have hepoch := h s' _ hold
      simp only [ExtTreeMap.getElem?_insert_self, Option.some.injEq] at hlease
      rw [← hlease]
      exact hepoch
    · rw [OrderedMap.get_insert_of_ne hs] at hlease
      exact h s' lease hlease
  | released hpair =>
    simp only [ExtTreeMap.getElem?_erase] at hlease
    split at hlease
    · cases hlease
    · exact h s' lease hlease
  | held | notRenewed | notReleased => exact h s' lease hlease

/-- A call raises the epoch of the session it is granted on by one, and no other epoch. -/
theorem epoch_of_answered (s' : SessionId) (hop : a.Answered now s op result a') :
    (a'.epoch s' = a.epoch s' ∧ ∀ e t, result = .Granted e t → s' ≠ s) ∨
      (s' = s ∧ a'.epoch s = a.epoch s + 1 ∧ ∃ t, result = .Granted (a.epoch s + 1) t) := by
  cases hop with
  | granted hfree hfits htime =>
    by_cases hs : s' = s
    · exact .inr ⟨hs, epoch_grant_self _ _, _, rfl⟩
    · exact .inl ⟨epoch_grant_of_ne _ _ hs, fun _ _ _ => hs⟩
  | held | renewed | released | notRenewed | notReleased => exact .inl ⟨rfl, by simp⟩

/-- A holder that does not have the lease is told who does. -/
theorem current_denied (holder : NodeId) :
    ∃ current_holder current_epoch, a.current s holder = .Denied current_holder current_epoch := by
  unfold current
  split
  · exact ⟨_, _, rfl⟩
  · exact ⟨_, _, rfl⟩

theorem renew_of_not_holds {holder : NodeId} {epoch : Nat} (ttl : Int)
    (h : ¬ a.Holds s holder epoch) :
    exec (renew now s holder epoch ttl) a = (.ok (a.current s holder), a) := by
  unfold renew
  rw [exec_bind_ok (exec_asks _ _)]
  cases hlease : a.leases[s]? with
  | some lease =>
    have hpair := fun hp => h ((holds_of_lease_iff hlease).mpr hp)
    simp only [current, hlease, if_neg hpair, exec_pure]
  | none => simp only [current, hlease, exec_pure]

theorem release_of_not_holds {holder : NodeId} {epoch : Nat} (h : ¬ a.Holds s holder epoch) :
    exec (release s holder epoch) a = (.ok (a.current s holder), a) := by
  unfold release
  rw [exec_bind_ok (exec_asks _ _)]
  cases hlease : a.leases[s]? with
  | some lease =>
    have hpair := fun hp => h ((holds_of_lease_iff hlease).mpr hp)
    simp only [current, hlease, if_neg hpair, exec_pure]
  | none => simp only [current, hlease, exec_pure]

/-! ## The other sessions -/

/-- The lease and the epoch of the session are those of `a`. -/
def Same (a : LeaseAuthority) (s : SessionId) (a' : LeaseAuthority) : Prop :=
  a'.leases[s]? = a.leases[s]? ∧ a'.epochs[s]? = a.epochs[s]?

theorem keeps_add_ttl (I : LeaseAuthority → Prop) (ttl : Int) :
    Keeps I (add_ttl now ttl) (fun _ => True) := by
  unfold add_ttl
  split
  · exact keeps_pure trivial
  · exact keeps_throw _

theorem same_insert_lease {b : LeaseAuthority} {s' : SessionId} {lease : LeaseEntry} (h : s ≠ s')
    (hb : a.Same s b) : a.Same s { b with leases := b.leases.insert s' lease } :=
  ⟨(OrderedMap.get_insert_of_ne h).trans hb.1, hb.2⟩

theorem same_insert_epoch {b : LeaseAuthority} {s' : SessionId} {e : Nat} (h : s ≠ s')
    (hb : a.Same s b) : a.Same s { b with epochs := b.epochs.insert s' e } :=
  ⟨hb.1, (OrderedMap.get_insert_of_ne h).trans hb.2⟩

theorem keeps_next_epoch {s' : SessionId} (h : s ≠ s') :
    Keeps (a.Same s) (next_epoch s') (fun _ => True) := by
  unfold next_epoch
  refine (keeps_asks (Q := fun _ => True) fun _ _ => trivial).andThen fun stored => ?_
  cases stored with
  | none =>
    exact (keeps_modify fun b hb => same_insert_epoch h hb).andThen fun _ => keeps_pure trivial
  | some e =>
    dsimp only
    split
    · exact (keeps_modify fun b hb => same_insert_epoch h hb).andThen fun _ => keeps_pure trivial
    · exact keeps_throw _

theorem keeps_acquire {s' : SessionId} (h : s ≠ s') (holder : NodeId) (ttl : Int) :
    Keeps (a.Same s) (acquire now s' holder ttl) (fun _ => True) := by
  unfold acquire
  refine (keeps_asks (Q := fun _ => True) fun _ _ => trivial).andThen fun stored => ?_
  split
  · exact keeps_pure trivial
  · refine (keeps_next_epoch h).andThen fun epoch => ?_
    refine (keeps_add_ttl _ ttl).andThen fun t => ?_
    exact (keeps_modify fun b hb => same_insert_lease h hb).andThen fun _ => keeps_pure trivial

theorem keeps_renew {s' : SessionId} (h : s ≠ s') (holder : NodeId) (epoch : Nat) (ttl : Int) :
    Keeps (a.Same s) (renew now s' holder epoch ttl) (fun _ => True) := by
  unfold renew
  refine (keeps_asks (Q := fun _ => True) fun _ _ => trivial).andThen fun stored => ?_
  cases stored with
  | none => exact keeps_pure trivial
  | some lease =>
    dsimp only
    split
    · refine (keeps_add_ttl _ ttl).andThen fun t => ?_
      exact (keeps_modify fun b hb => same_insert_lease h hb).andThen fun _ => keeps_pure trivial
    · exact keeps_pure trivial

theorem keeps_release {s' : SessionId} (h : s ≠ s') (holder : NodeId) (epoch : Nat) :
    Keeps (a.Same s) (release s' holder epoch) (fun _ => True) := by
  unfold release
  refine (keeps_asks (Q := fun _ => True) fun _ _ => trivial).andThen fun stored => ?_
  cases stored with
  | none => exact keeps_pure trivial
  | some lease =>
    dsimp only
    split
    · refine (keeps_modify fun b hb => ?_).andThen fun _ => keeps_pure trivial
      exact ⟨(OrderedMap.get_erase_of_ne h).trans hb.1, hb.2⟩
    · exact keeps_pure trivial

/-- A request leaves the other sessions as they are, even one that panics. -/
theorem same_of_other_session (now : DateTime) {request : LeaseRequest}
    (h : s ≠ request.session_id) : a.Same s (exec (handle_request now request) a).2 := by
  refine Keeps.run (Q := fun _ => True) ?_ ⟨rfl, rfl⟩
  unfold handle_request
  refine Keeps.andThen (Q := fun _ => True) ?_ fun _ => keeps_pure trivial
  split
  · exact keeps_acquire h _ _
  · exact keeps_renew h _ _ _
  · exact keeps_release h _ _

/-! ## Any history -/

/-- The grants of a session have the epochs 1, 2, 3 and so on, up to the stored one. -/
theorem grantedEpochs_eq (h : Answers serve .default history a) :
    a.Fenced ∧ ∀ s, grantedEpochs s history = List.range' 1 (a.epoch s) := by
  refine h.rule (I := fun calls a => a.Fenced ∧
    ∀ s, grantedEpochs s calls = List.range' 1 (a.epoch s)) ⟨fenced_default, by simp [grantedEpochs]⟩ ?_
  rintro calls a1 ⟨now, request⟩ response a2 ⟨hfenced, hepochs⟩ hcall
  obtain ⟨-, hop⟩ := request_answered hcall
  refine ⟨hfenced.answered hop, fun s => ?_⟩
  have hlast : grantedEpochs s (calls ++ [(⟨now, request⟩, response)]) =
      grantedEpochs s calls ++ (grantedEpoch s (⟨now, request⟩, response)).toList := by
    cases hg : grantedEpoch s (⟨now, request⟩, response) <;> simp [grantedEpochs, hg]
  rw [hlast, hepochs s]
  rcases epoch_of_answered s hop with ⟨hsame, hno⟩ | ⟨rfl, hnext, t, hgrant⟩
  · have hnone : grantedEpoch s (⟨now, request⟩, response) = none := by
      unfold grantedEpoch
      split
      · next e t hresult => exact if_neg (Ne.symm (hno e t hresult))
      · rfl
    rw [hnone, hsame, Option.toList_none, List.append_nil]
  · have hsome : grantedEpoch request.session_id (⟨now, request⟩, response) =
        some (a1.epoch request.session_id + 1) := by
      simp [grantedEpoch, hgrant]
    rw [hsome, hnext, List.range'_1_concat, Option.toList_some, Nat.add_comm 1]

/-- The grants of each session have the epochs 1, 2, 3 and so on. Every stored lease has the
epoch of the last grant. A renewal or a release of a pair that is not the stored one is denied
and changes nothing. No request changes the lease or the epoch of another session. -/
theorem epochs_fence_the_sessions (h : Answers serve .default history a) :
    (∀ s, grantedEpochs s history = List.range' 1 (grantedEpochs s history).length) ∧
      (∀ (s : SessionId) (lease : LeaseEntry), a.leases[s]? = some lease →
        a.epochs[s]? = some lease.epoch) ∧
      (∀ now id s holder epoch ttl, ¬ a.Holds s holder epoch →
        ∃ current_holder current_epoch,
          exec (handle_request now ⟨id, s, .Renew holder epoch ttl⟩) a =
            (.ok ⟨id, .Denied current_holder current_epoch⟩, a) ∧
          exec (handle_request now ⟨id, s, .Release holder epoch⟩) a =
            (.ok ⟨id, .Denied current_holder current_epoch⟩, a)) ∧
      ∀ now request s, s ≠ request.session_id →
        (exec (handle_request now request) a).2.leases[s]? = a.leases[s]? ∧
        (exec (handle_request now request) a).2.epochs[s]? = a.epochs[s]? := by
  obtain ⟨hfenced, hepochs⟩ := grantedEpochs_eq h
  refine ⟨fun s => ?_, hfenced, ?_, fun now request s hs => same_of_other_session now hs⟩
  · rw [hepochs s, List.length_range']
  · intro now id s holder epoch ttl hpair
    obtain ⟨current_holder, current_epoch, hdenied⟩ := current_denied (a := a) (s := s) holder
    refine ⟨current_holder, current_epoch, ?_, ?_⟩
    · rw [handle_request, exec_bind_ok (renew_of_not_holds ttl hpair), hdenied, exec_pure]
    · rw [handle_request, exec_bind_ok (release_of_not_holds hpair), hdenied, exec_pure]

/-- A session that passes from one node to another, while a stale renewal is refused. -/
def handover : History :=
  [(⟨.default, 1, ⟨1⟩, .Acquire ⟨[1]⟩ 5⟩, ⟨1, .Granted 1 ⟨5, by decide⟩⟩),
    (⟨⟨2, by decide⟩, 2, ⟨2⟩, .Acquire ⟨[3]⟩ 9⟩, ⟨2, .Granted 1 ⟨11, by decide⟩⟩),
    (⟨⟨3, by decide⟩, 3, ⟨1⟩, .Acquire ⟨[2]⟩ 5⟩, ⟨3, .Denied ⟨[1]⟩ 1⟩),
    (⟨⟨6, by decide⟩, 4, ⟨1⟩, .Acquire ⟨[2]⟩ 5⟩, ⟨4, .Granted 2 ⟨11, by decide⟩⟩),
    (⟨⟨7, by decide⟩, 5, ⟨1⟩, .Renew ⟨[1]⟩ 1 5⟩, ⟨5, .Denied ⟨[2]⟩ 2⟩)]

theorem handover_answers : Answers serve .default handover
    (exec ((handover.map Prod.fst).mapM serve) .default).2 :=
  answers_iff_mapM.mpr (by decide +kernel)

theorem epochs_fence_a_handover :
    grantedEpochs ⟨1⟩ handover = List.range' 1 (grantedEpochs ⟨1⟩ handover).length :=
  (epochs_fence_the_sessions handover_answers).1 ⟨1⟩

end LeaseAuthority

end marie.lease
