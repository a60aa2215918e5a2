-- The lease of a session is with one holder at a time. While the clock does not
-- go back, a session is granted again only when every pair that it was granted
-- to before is released, or out of its time.
import Marie.Lease.Epochs

open Program
open Std (ExtTreeMap)

namespace marie.lease

/-! ## The past of a session -/

/-- The call is an acquisition of the session, granted to the holder until `expires_at`. -/
def Grants (answered : Call × LeaseResponse) (s : SessionId) (holder : NodeId) (epoch : Nat)
    (expires_at : DateTime) : Prop :=
  answered.1.request.session_id = s ∧
    (∃ ttl, answered.1.request.op = .Acquire holder ttl) ∧
    answered.2.result = .Granted epoch expires_at

/-- The call is an accepted release of the pair. -/
def Releases (answered : Call × LeaseResponse) (s : SessionId) (holder : NodeId)
    (epoch : Nat) : Prop :=
  answered.1.request.session_id = s ∧ answered.1.request.op = .Release holder epoch ∧
    ∃ t, answered.2.result = .Renewed t

def Released (later : History) (s : SessionId) (holder : NodeId) (epoch : Nat) : Prop :=
  ∃ answered ∈ later, Releases answered s holder epoch

/-- The instant that an accepted renewal of the pair moves its end to. -/
def renewedTo (s : SessionId) (holder : NodeId) (epoch : Nat)
    (answered : Call × LeaseResponse) : Option DateTime :=
  match answered.1.request.op, answered.2.result with
  | .Renew holder' epoch' _, .Renewed t =>
    if answered.1.request.session_id = s ∧ holder' = holder ∧ epoch' = epoch then some t else none
  | _, _ => none

/-- The end of a pair after the calls that came later: what its most recent accepted renewal
set, or else what its grant did. -/
def expiryAfter (s : SessionId) (holder : NodeId) (epoch : Nat) (granted : DateTime)
    (later : History) : DateTime :=
  (later.filterMap (renewedTo s holder epoch)).getLast?.getD granted

/-- The readings of the clock never go back. -/
def Monotone (history : History) : Prop := (history.map fun x => x.1.now).Pairwise (· ≤ ·)

/-- At `now`, after the calls, the pair was granted and is neither released nor out of its
time. -/
def Live (history : History) (s : SessionId) (holder : NodeId) (epoch : Nat) (now : DateTime) :
    Prop :=
  ∃ before answered later granted, history = before ++ answered :: later ∧
    Grants answered s holder epoch granted ∧ ¬ Released later s holder epoch ∧
    now < expiryAfter s holder epoch granted later

namespace LeaseAuthority

variable {a a' : LeaseAuthority} {s : SessionId} {holder : NodeId} {epoch : Nat}
  {granted : DateTime} {later calls history : History} {call : Call} {response : LeaseResponse}

/-! ## What becomes of a grant -/

@[simp] theorem expiryAfter_nil : expiryAfter s holder epoch granted [] = granted := rfl

theorem expiryAfter_concat_none {answered : Call × LeaseResponse}
    (h : renewedTo s holder epoch answered = none) :
    expiryAfter s holder epoch granted (later ++ [answered]) =
      expiryAfter s holder epoch granted later := by
  simp [expiryAfter, h]

theorem expiryAfter_concat_some {answered : Call × LeaseResponse} {t : DateTime}
    (h : renewedTo s holder epoch answered = some t) :
    expiryAfter s holder epoch granted (later ++ [answered]) = t := by
  simp [expiryAfter, h]

theorem released_append (h : Released later s holder epoch) (more : History) :
    Released (later ++ more) s holder epoch := by
  obtain ⟨answered, hmem, hreleases⟩ := h
  exact ⟨answered, List.mem_append_left _ hmem, hreleases⟩

/-- Where a grant is now: given back, or the stored lease, or behind a later grant and then out
of its time at every reading from now on. -/
inductive Standing (a : LeaseAuthority) (calls : History) (s : SessionId) (holder : NodeId)
    (epoch : Nat) (granted : DateTime) (later : History) : Prop
  | released (h : Released later s holder epoch)
  | stored (h : a.leases[s]? = some ⟨holder, epoch, expiryAfter s holder epoch granted later⟩)
  | past (hepoch : epoch < a.epoch s)
    (hover : ∀ now, (∀ x ∈ calls, x.1.now ≤ now) → expiryAfter s holder epoch granted later ≤ now)

/-- Only a renewal of the stored pair moves its end. -/
theorem renewedTo_of_answered {t : DateTime}
    (hop : a.Answered call.now call.request.session_id call.request.op response.result a')
    (h : renewedTo s holder epoch (call, response) = some t) :
    call.request.session_id = s ∧ a.Holds s holder epoch ∧
      a' = { a with leases := a.leases.insert s ⟨holder, epoch, t⟩ } := by
  unfold renewedTo at h
  split at h
  · next holder' epoch' ttl t' hrenew hresult =>
    split at h
    · next hpair =>
      obtain ⟨rfl, rfl, rfl⟩ := hpair
      cases h
      simp only at hrenew hresult
      rw [hrenew, hresult] at hop
      cases hop with
      | renewed hholds htime => exact ⟨rfl, hholds, rfl⟩
    · cases h
  · cases h

theorem epoch_le_of_answered {s' : SessionId} {now : DateTime} {op : LeaseOp}
    {result : LeaseResult} (hop : a.Answered now s' op result a') : a.epoch s ≤ a'.epoch s := by
  rcases epoch_of_answered s hop with ⟨hsame, -⟩ | ⟨rfl, hnext, -⟩
  · omega
  · omega

theorem lease_of_other_session {s' : SessionId} {now : DateTime} {op : LeaseOp}
    {result : LeaseResult} (hop : a.Answered now s' op result a') (h : s ≠ s') :
    a'.leases[s]? = a.leases[s]? := by
  cases hop with
  | granted hfree hfits htime => exact OrderedMap.get_insert_of_ne h
  | renewed hpair htime => exact OrderedMap.get_insert_of_ne h
  | released hpair => exact OrderedMap.get_erase_of_ne h
  | held | notRenewed | notReleased => rfl

/-- The stored lease after one call on its session. -/
theorem standing_of_stored
    (hlease : a.leases[s]? = some ⟨holder, epoch, expiryAfter s holder epoch granted later⟩)
    (hfenced : a.Fenced) (hs : call.request.session_id = s)
    (hop : a.Answered call.now s call.request.op response.result a') :
    a'.Standing (calls ++ [(call, response)]) s holder epoch granted
      (later ++ [(call, response)]) := by
  have hepoch := hfenced.epoch_of_lease hlease
  generalize hrequest : call.request.op = op at hop
  generalize hresult : response.result = result at hop
  cases hop with
  | granted hfree hfits htime =>
    have hnone : renewedTo s holder epoch (call, response) = none := by
      simp [renewedTo, hrequest]
    refine .past ?_ ?_
    · rw [epoch_grant_self, hepoch]
      exact Nat.lt_succ_self epoch
    · intro now hnow
      rw [expiryAfter_concat_none hnone]
      have hover : ¬ call.now < expiryAfter s holder epoch granted later :=
        fun hlive => hfree ⟨_, hlease, hlive⟩
      exact le_trans (not_lt.mp hover) (hnow _ (List.mem_append_right _ (List.mem_singleton_self _)))
  | @renewed holder' epoch' ttl t hpair htime =>
    obtain ⟨rfl, rfl⟩ : holder = holder' ∧ epoch = epoch' := (holds_of_lease_iff hlease).mp hpair
    have hsome : renewedTo s holder epoch (call, response) = some t := by
      simp [renewedTo, hrequest, hresult, hs]
    refine .stored ?_
    rw [ExtTreeMap.getElem?_insert_self, expiryAfter_concat_some hsome]
  | @released holder' epoch' hpair =>
    obtain ⟨rfl, rfl⟩ : holder = holder' ∧ epoch = epoch' := (holds_of_lease_iff hlease).mp hpair
    exact .released ⟨_, List.mem_append_right _ (List.mem_singleton_self _), hs, hrequest, _, hresult⟩
  | held | notRenewed | notReleased =>
    have hnone : renewedTo s holder epoch (call, response) = none := by
      simp [renewedTo, hrequest, hresult]
    refine .stored ?_
    rw [expiryAfter_concat_none hnone, hlease]

/-- One more call moves a grant from the stored lease to the past or out, and never back. -/
theorem Standing.answered (h : a.Standing calls s holder epoch granted later) (hfenced : a.Fenced)
    (hop : a.Answered call.now call.request.session_id call.request.op response.result a') :
    a'.Standing (calls ++ [(call, response)]) s holder epoch granted
      (later ++ [(call, response)]) := by
  cases h with
  | released h => exact .released (released_append h _)
  | stored hlease =>
    by_cases hs : call.request.session_id = s
    · rw [hs] at hop
      exact standing_of_stored hlease hfenced hs hop
    · have hnone : renewedTo s holder epoch (call, response) = none := by
        cases ht : renewedTo s holder epoch (call, response) with
        | none => rfl
        | some t => exact absurd (renewedTo_of_answered hop ht).1 hs
      refine .stored ?_
      rw [expiryAfter_concat_none hnone, lease_of_other_session hop (Ne.symm hs), hlease]
  | past hepoch hover =>
    have hnone : renewedTo s holder epoch (call, response) = none := by
      cases ht : renewedTo s holder epoch (call, response) with
      | none => rfl
      | some t =>
        obtain ⟨-, hholds, -⟩ := renewedTo_of_answered hop ht
        have hlast := hfenced.epoch_of_holds hholds
        omega
    refine .past (lt_of_lt_of_le hepoch (epoch_le_of_answered hop)) ?_
    intro now hnow
    rw [expiryAfter_concat_none hnone]
    exact hover now fun x hx => hnow x (List.mem_append_left _ hx)

/-- Right after its call, a grant is the stored lease. -/
theorem standing_of_grants (hgrant : Grants (call, response) s holder epoch granted)
    (hop : a.Answered call.now call.request.session_id call.request.op response.result a') :
    a'.Standing calls s holder epoch granted [] := by
  obtain ⟨hs, ⟨ttl, hrequest⟩, hresult⟩ := hgrant
  simp only at hs hrequest hresult
  rw [hs, hrequest, hresult] at hop
  cases hop with
  | granted hfree hfits htime =>
    refine .stored ?_
    simp [grant]

/-- Every grant of a history has its standing in the authority that the history leaves. -/
theorem standing_of_history (h : Answers serve .default history a) :
    a.Fenced ∧ ∀ before answered later s holder epoch granted,
      history = before ++ answered :: later → Grants answered s holder epoch granted →
      a.Standing history s holder epoch granted later := by
  refine h.rule (I := fun calls a => a.Fenced ∧ ∀ before answered later s holder epoch granted,
    calls = before ++ answered :: later → Grants answered s holder epoch granted →
    a.Standing calls s holder epoch granted later) ⟨fenced_default, by simp⟩ ?_
  rintro calls a1 call response a2 ⟨hfenced, hstanding⟩ hcall
  obtain ⟨-, hop⟩ := request_answered hcall
  refine ⟨hfenced.answered hop, ?_⟩
  intro before answered later s holder epoch granted heq hgrant
  cases later using List.reverseRecOn with
  | nil =>
    obtain ⟨-, hlast⟩ := List.append_inj' heq rfl
    cases hlast
    exact standing_of_grants hgrant hop
  | append_singleton later last =>
    rw [← List.cons_append, ← List.append_assoc] at heq
    obtain ⟨rfl, hlast⟩ := List.append_inj' heq rfl
    cases hlast
    exact (hstanding _ _ _ _ _ _ _ rfl hgrant).answered hfenced hop

/-! ## One holder at a time -/

/-- A pair that is live is the one that is stored. -/
theorem stored_of_live (h : Answers serve .default history a) {now : DateTime}
    (hnow : ∀ x ∈ history, x.1.now ≤ now) (hlive : Live history s holder epoch now) :
    a.Holds s holder epoch := by
  obtain ⟨before, answered, later, granted, heq, hgrant, hkept, hlt⟩ := hlive
  cases (standing_of_history h).2 _ _ _ _ _ _ _ heq hgrant with
  | released hreleased => exact absurd hreleased hkept
  | stored hlease => exact ⟨_, hlease⟩
  | past hepoch hover => exact absurd hlt (not_lt.mpr (hover now hnow))

/-- A session that is granted had no lease at the reading of the call. -/
theorem free_of_granted {again : Call × LeaseResponse}
    (h : Answers serve .default (history ++ [again]) a) (hgrant : Grants again s holder epoch granted) :
    ∃ a1, Answers serve .default history a1 ∧ ¬ a1.Held s again.1.now := by
  obtain ⟨call, response⟩ := again
  obtain ⟨a1, hbefore, hcall⟩ := h.last
  obtain ⟨-, hop⟩ := request_answered hcall
  obtain ⟨hs, ⟨ttl, hrequest⟩, hresult⟩ := hgrant
  simp only at hs hrequest hresult
  rw [hs, hrequest, hresult] at hop
  cases hop with
  | granted hfree hfits htime => exact ⟨a1, hbefore, hfree⟩

theorem readings_before {again : Call × LeaseResponse} {after : History}
    (hclock : Monotone (history ++ again :: after)) : ∀ x ∈ history, x.1.now ≤ again.1.now := by
  intro x hx
  unfold Monotone at hclock
  rw [List.map_append, List.map_cons] at hclock
  exact (List.pairwise_append.mp hclock).2.2 _ (List.mem_map_of_mem hx) _ (List.mem_cons_self ..)

/-- While the clock does not go back, a session is granted only after each earlier pair of its
is released or out of its time, and at most one of its pairs is live at every reading. -/
theorem one_holder_at_a_time (h : Answers serve .default history a) (hclock : Monotone history) :
    (∀ before earlier between again after s holder epoch granted holder' epoch' granted',
      history = before ++ earlier :: (between ++ again :: after) →
      Grants earlier s holder epoch granted → Grants again s holder' epoch' granted' →
      Released between s holder epoch ∨
        expiryAfter s holder epoch granted between ≤ again.1.now) ∧
    ∀ past rest, history = past ++ rest → ∀ now, (∀ x ∈ past, x.1.now ≤ now) →
      ∀ s holder epoch holder' epoch', Live past s holder epoch now →
        Live past s holder' epoch' now → holder = holder' ∧ epoch = epoch' := by
  constructor
  · intro before earlier between again after s holder epoch granted holder' epoch' granted' heq
      hearlier hagain
    have hpast : history = (before ++ earlier :: between) ++ again :: after := by simp [heq]
    rw [hpast] at h hclock
    have hcut : Answers serve .default ((before ++ earlier :: between) ++ [again] ++ after) a := by
      simpa using h
    obtain ⟨a2, hcalls, -⟩ := hcut.split
    obtain ⟨a1, hbefore, hfree⟩ := free_of_granted hcalls hagain
    cases (standing_of_history hbefore).2 _ _ _ _ _ _ _ rfl hearlier with
    | released hreleased => exact .inl hreleased
    | stored hlease => exact .inr (not_lt.mp fun hlive => hfree ⟨_, hlease, hlive⟩)
    | past hepoch hover => exact .inr (hover _ (readings_before hclock))
  · rintro past rest rfl now hnow s holder epoch holder' epoch' hlive hlive'
    obtain ⟨a1, hpast, -⟩ := h.split
    obtain ⟨t, hlease⟩ := stored_of_live hpast hnow hlive
    obtain ⟨rfl, rfl⟩ := (holds_of_lease_iff hlease).mp (stored_of_live hpast hnow hlive')
    exact ⟨rfl, rfl⟩

/-- In the handover the second node gets the session once the first one is out of its time. -/
theorem one_holder_in_a_handover :
    Released (handover.drop 1 |>.take 2) ⟨1⟩ ⟨[1]⟩ 1 ∨
      expiryAfter ⟨1⟩ ⟨[1]⟩ 1 ⟨5, by decide⟩ (handover.drop 1 |>.take 2) ≤ ⟨6, by decide⟩ := by
  have hclock : Monotone handover := by
    unfold Monotone
    decide +kernel
  exact (one_holder_at_a_time handover_answers hclock).1 []
    (⟨.default, 1, ⟨1⟩, .Acquire ⟨[1]⟩ 5⟩, ⟨1, .Granted 1 ⟨5, by decide⟩⟩) _
    (⟨⟨6, by decide⟩, 4, ⟨1⟩, .Acquire ⟨[2]⟩ 5⟩, ⟨4, .Granted 2 ⟨11, by decide⟩⟩)
    (handover.drop 4) ⟨1⟩ ⟨[1]⟩ 1 _ ⟨[2]⟩ 2 _ rfl ⟨rfl, ⟨5, rfl⟩, rfl⟩ ⟨rfl, ⟨5, rfl⟩, rfl⟩

end LeaseAuthority

end marie.lease
