-- What the table of the client keeps of the calls that are over. Only a reply
-- takes a sender out of it: a call whose `send` fails returns past it, and a
-- caller that drops its future takes nothing along.
import Marie.Lib.Runs
import Marie.Rpc.Correlation

open Std (HashMap)

namespace marie.rpc

open post (PostError)
open Runs (EveryState EveryStep everyState_iff_everyStep)

/-- The client, and the calls whose future was dropped by its caller. -/
structure Callers (R : Type) where
  client : RpcClient R
  dropped : List Nat

inductive CallerMove (R : Type) where
  | event (event : Event R)
  /-- The caller of call `k` drops its future, as a `select!` or a timeout does. -/
  | drop (k : Nat)

variable {R : Type}

/-- Where the future of call `k` stands. -/
def RpcClient.progress_of (k : Nat) (self : RpcClient R) : Option Progress :=
  (self.calls[k]?).map fun c => c.progress

namespace Callers

def new : Callers R := ⟨.new, []⟩

/-- A future that was dropped is not polled any more. -/
def event (self : Callers R) : Event R → Callers R
  | .poll k => if k ∈ self.dropped then self else { self with client := self.client.poll k }
  | event => { self with client := self.client.step event }

/-- Only a future that awaits its channel can be dropped: before that it runs without an `await`,
and after that it has returned. -/
def drop (k : Nat) (self : Callers R) : Callers R :=
  if self.client.progress_of k = some .Waiting then { self with dropped := k :: self.dropped }
  else self

def step (self : Callers R) : CallerMove R → Callers R
  | .event event => self.event event
  | .drop k => self.drop k

def run (moves : List (CallerMove R)) : Callers R := moves.foldl step new

/-- Call `k` began, and it has neither returned nor been dropped. -/
def Pending (self : Callers R) (k : Nat) (c : CallFuture R) : Prop :=
  (c.progress = .Sending ∨ c.progress = .Waiting) ∧ k ∉ self.dropped

end Callers

/-- Every sender of the table is that of a call under its own id, to which nothing was sent yet and
of which `Q` holds. -/
def RpcClient.Holds (Q : Nat → CallFuture R → Prop) (s : RpcClient R) : Prop :=
  ∀ (id : RpcId) (tracker : RpcTracker), s.tracked[id]? = some tracker →
    ∃ c, s.calls[tracker.tx]? = some c ∧ c.call.id = id ∧ c.rx = .Empty ∧ Q tracker.tx c

/-- The table has no sender of call `k`. -/
def RpcClient.Untracked (k : Nat) (s : RpcClient R) : Prop :=
  ∀ id : RpcId, s.tracked[id]? ≠ some ⟨k⟩

namespace Callers

/-- The table holds calls that still wait for their reply, and no other. -/
def NoLeak (s : Callers R) : Prop := s.client.Holds s.Pending

/-- A call that ends without its reply has no sender in the table. -/
def Tidy (s : Callers R) : CallerMove R → Prop
  | .event (.sent k (.error _)) =>
    s.client.progress_of k = some .Sending → s.client.Untracked k
  | .drop k => s.client.progress_of k = some .Waiting → s.client.Untracked k
  | _ => True

/-- Only calls that began were dropped. -/
structure Formed (s : Callers R) : Prop where
  holds : s.client.Holds fun _ _ => True
  dropped : ∀ k ∈ s.dropped, k < s.client.calls.length

end Callers

/-! ## The table -/

namespace RpcClient

variable {s : RpcClient R} {k : Nat} {P Q : Nat → CallFuture R → Prop}

theorem Holds.imp (h : s.Holds P) (himp : ∀ k c, s.calls[k]? = some c → P k c → Q k c) :
    s.Holds Q := by
  intro id tracker htracked
  obtain ⟨c, hcalls, hid, hrx, hP⟩ := h id tracker htracked
  exact ⟨c, hcalls, hid, hrx, himp _ c hcalls hP⟩

theorem holds_new : (new : RpcClient R).Holds Q := by
  intro id tracker htracked
  simp [new] at htracked

/-- A sender stands under the id of its call only. -/
theorem Holds.other (h : s.Holds Q) {id id' : RpcId} {tracker : RpcTracker}
    (htracked : s.tracked[id]? = some tracker) (hid : id' ≠ id) : s.tracked[id']? ≠ some tracker := by
  intro htracked'
  obtain ⟨c, hcalls, hc, -⟩ := h id tracker htracked
  obtain ⟨c', hcalls', hc', -⟩ := h id' tracker htracked'
  rw [hcalls] at hcalls'
  cases hcalls'
  exact hid (hc'.symm.trans hc)

/-- A call that begins takes a place in the table. -/
theorem Holds.call (h : s.Holds Q) (id : RpcId) (args : RpcCallArgs)
    (decode : Value → Except String R)
    (hnew : Q s.calls.length
      ⟨⟨id, args.name, args.args⟩, args.destination, decode, .Empty, .Sending⟩) :
    (s.call id args decode).Holds Q := by
  have hfresh : ∀ id' : RpcId, s.tracked[id']? ≠ some ⟨s.calls.length⟩ := by
    intro id' htracked
    obtain ⟨c, hcalls, -⟩ := h id' _ htracked
    simp at hcalls
  intro id' tracker htracked
  simp only [RpcClient.call, track, HashMap.getElem?_insert] at htracked
  by_cases hid : id = id'
  · subst hid
    simp at htracked
    subst htracked
    refine ⟨_, ?_, rfl, rfl, hnew⟩
    rw [calls_call (hfresh id)]
    simp
  · simp [hid] at htracked
    obtain ⟨c, hcalls, hc, hrx, hQ⟩ := h id' tracker htracked
    refine ⟨c, ?_, hc, hrx, hQ⟩
    rw [calls_call (h.other htracked hid)]
    have hlt := (List.getElem?_eq_some_iff.mp hcalls).1
    rw [List.getElem?_append_left hlt, hcalls]

/-- A reply takes the sender of its own id, and leaves the calls of the others. -/
theorem Holds.handle_reply (h : s.Holds Q) (reply : RpcReply) : (s.handle_reply reply).Holds Q := by
  intro id tracker htracked
  rw [tracked_handle_reply] at htracked
  by_cases hid : reply.id = id
  · simp [hid] at htracked
  · simp [hid] at htracked
    rw [calls_handle_reply (h.other htracked hid)]
    exact h id tracker htracked

/-- A call goes on: what was held of it must still hold where its sender is in the table. -/
theorem Holds.go_on (h : s.Holds Q) (progress : Progress) (ret : Option (Except RpcError R))
    (hQ : ¬ s.Untracked k → ∀ c, s.calls[k]? = some c → Q k c → Q k { c with progress }) :
    (s.go_on k progress ret).Holds Q := by
  intro id tracker htracked
  rw [tracked_go_on] at htracked
  obtain ⟨c, hcalls, hid, hrx, hc⟩ := h id tracker htracked
  rw [calls_go_on, hcalls]
  by_cases hk : k = tracker.tx
  · subst hk
    have hheld : ¬ s.Untracked tracker.tx := fun hgone => hgone id htracked
    exact ⟨{ c with progress }, by simp, hid, hrx, hQ hheld c hcalls hc⟩
  · exact ⟨c, by simp [hk], hid, hrx, hc⟩

/-- To a call whose sender is in the table nothing was sent, so a poll of it leaves it waiting. -/
theorem Holds.poll (h : s.Holds Q) (k : Nat) : (s.poll k).Holds Q := by
  have hgone : ∀ c, s.calls[k]? = some c → c.rx ≠ .Empty → s.Untracked k := by
    intro c hcalls hrx id htracked
    obtain ⟨c', hcalls', -, hrx', -⟩ := h id _ htracked
    rw [hcalls] at hcalls'
    cases hcalls'
    exact hrx hrx'
  unfold RpcClient.poll
  split
  · rename_i c hcalls
    split
    · rename_i hrx
      exact h.go_on _ _ fun hheld => absurd (hgone c hcalls (by simp [hrx])) hheld
    · rename_i hrx
      exact h.go_on _ _ fun hheld => absurd (hgone c hcalls (by simp [hrx])) hheld
    · exact h
  · exact h

theorem progress_of_eq_some {progress : Progress} :
    s.progress_of k = some progress ↔ ∃ c, s.calls[k]? = some c ∧ c.progress = progress := by
  simp [progress_of]

end RpcClient

/-! ## The runs -/

namespace Callers

variable {s : Callers R} {k : Nat}

theorem formed_new : (new : Callers R).Formed := by
  constructor
  · exact RpcClient.holds_new
  · simp [new]

theorem noLeak_new : (new : Callers R).NoLeak := RpcClient.holds_new

/-- An event leaves the calls that were dropped, and the client takes it if it takes it at all. -/
theorem event_cases (event : Event R) :
    s.event event = s ∨ s.event event = { s with client := s.client.step event } := by
  unfold Callers.event
  split
  · split
    · exact .inl rfl
    · exact .inr rfl
  · exact .inr rfl

theorem holds_event {event : Event R} (h : s.client.Holds fun _ _ => True) :
    (s.client.step event).Holds fun _ _ => True := by
  cases event with
  | call id args decode => exact h.call id args decode trivial
  | poll k => exact h.poll k
  | sent k result =>
    rcases RpcClient.goesOn_sent (s := s.client) (k := k) result with heq | ⟨-, progress, ret, heq⟩
    · rwa [RpcClient.step, heq]
    · rw [RpcClient.step, heq]
      exact h.go_on progress ret fun _ _ _ _ => trivial
  | message msg =>
    cases msg with
    | Reply reply => exact h.handle_reply reply
    | Ack ack => exact h
    | Call call => exact h

theorem formed_step (h : s.Formed) (move : CallerMove R) : (s.step move).Formed := by
  cases move with
  | event event =>
    rw [step]
    rcases event_cases (s := s) event with heq | heq
    · rwa [heq]
    · rw [heq]
      constructor
      · exact holds_event h.holds
      · intro k hk
        have hlt := h.dropped k hk
        have hlength := RpcClient.length_step (s := s.client) event
        simp only
        omega
  | drop k =>
    rw [step, drop]
    split
    · rename_i hprogress
      obtain ⟨c, hcalls, -⟩ := RpcClient.progress_of_eq_some.mp hprogress
      refine ⟨h.holds, ?_⟩
      intro j hj
      rcases List.mem_cons.mp hj with rfl | hj
      · exact (List.getElem?_eq_some_iff.mp hcalls).1
      · exact h.dropped j hj
    · exact h

theorem formed_run (moves : List (CallerMove R)) : (run moves).Formed := by
  induction moves using List.reverseRecOn with
  | nil => exact formed_new
  | append_singleton moves move ih =>
    unfold run at ih ⊢
    rw [List.foldl_append]
    exact formed_step ih move

/-- A call that `send` failed is over, so its sender must be gone. -/
theorem noLeak_failed_iff (h : s.NoLeak) (err : PostError) :
    (s.step (.event (.sent k (.error err)))).NoLeak ↔ s.Tidy (.event (.sent k (.error err))) := by
  change RpcClient.Holds _ (s.client.sent k (.error err)) ↔ _
  by_cases hprogress : s.client.progress_of k = some .Sending
  · obtain ⟨c, hcalls, hc⟩ := RpcClient.progress_of_eq_some.mp hprogress
    have hsent : s.client.sent k (.error err) =
        s.client.go_on k .Done (some (.error (.PostError err))) := by
      simp [RpcClient.sent, hcalls, hc]
    rw [hsent]
    constructor
    · intro hafter _ id htracked
      obtain ⟨c', hcalls', -, -, hpending, -⟩ := hafter id ⟨k⟩ htracked
      rw [RpcClient.calls_go_on, hcalls] at hcalls'
      simp at hcalls'
      subst hcalls'
      simp at hpending
    · intro htidy
      apply h.go_on
      intro hheld
      exact absurd (htidy hprogress) hheld
  · have hsent : s.client.sent k (.error err) = s.client := by
      unfold RpcClient.sent
      split
      · rename_i c hcalls
        split
        · rename_i hc _
          exact absurd (RpcClient.progress_of_eq_some.mpr ⟨c, hcalls, hc⟩) hprogress
        · rename_i hc _
          exact absurd (RpcClient.progress_of_eq_some.mpr ⟨c, hcalls, hc⟩) hprogress
        · rfl
      · rfl
    rw [hsent]
    simp only [Tidy, hprogress, false_implies, iff_true]
    exact h

/-- A future that is dropped is over as well. -/
theorem noLeak_drop_iff (h : s.NoLeak) : (s.step (.drop k)).NoLeak ↔ s.Tidy (.drop k) := by
  rw [step, drop, Tidy]
  split
  · rename_i hprogress
    constructor
    · intro hafter _ id htracked
      obtain ⟨c, -, -, -, -, hdropped⟩ := hafter id ⟨k⟩ htracked
      simp at hdropped
    · intro hgone id tracker htracked
      obtain ⟨c, hcalls, hid, hrx, hpending, hdropped⟩ := h id tracker htracked
      refine ⟨c, hcalls, hid, hrx, hpending, ?_⟩
      have hne : tracker.tx ≠ k := by
        rintro rfl
        exact hgone hprogress id htracked
      simp [hne, hdropped]
  · rename_i hprogress
    simp [hprogress, h]

theorem noLeak_sent (h : s.NoLeak) (k : Nat) (u : Unit) :
    (s.step (.event (.sent k (.ok u)))).NoLeak := by
  change RpcClient.Holds _ (s.client.sent k (.ok u))
  unfold RpcClient.sent
  split
  · split
    · rename_i hresult
      apply h.go_on
      intro _ c' _ hpending
      exact ⟨.inr rfl, hpending.2⟩
    · rename_i hresult
      cases hresult
    · exact h
  · exact h

/-- What a step leaves in the table. -/
theorem step_iff (hformed : s.Formed) (h : s.NoLeak) (move : CallerMove R) :
    (s.step move).NoLeak ↔ s.Tidy move := by
  cases move with
  | drop k => exact noLeak_drop_iff h
  | event event =>
    cases event with
    | sent k result =>
      cases result with
      | error err => exact noLeak_failed_iff h err
      | ok u => exact iff_of_true (noLeak_sent h k u) trivial
    | call id args decode =>
      refine iff_of_true (h.call id args decode ⟨.inl rfl, ?_⟩) trivial
      intro hmem
      exact Nat.lt_irrefl _ (hformed.dropped _ hmem)
    | poll k =>
      refine iff_of_true ?_ trivial
      rw [step, Callers.event]
      split
      · exact h
      · exact h.poll k
    | message msg =>
      cases msg with
      | Reply reply => exact iff_of_true (h.handle_reply reply) trivial
      | Ack ack => exact iff_of_true h trivial
      | Call call => exact iff_of_true h trivial

theorem run_concat (moves : List (CallerMove R)) (move : CallerMove R) :
    run (moves ++ [move]) = (run moves).step move := by
  simp [run]

end Callers

/-- The table holds no call that is over, at every moment of a run, exactly when no call ends while
its sender is still there: no `send` fails and no caller drops its future before the reply came. -/
theorem no_leak_iff (moves : List (CallerMove R)) :
    EveryState (fun before => (Callers.run before).NoLeak) moves ↔
      EveryStep (fun before move => (Callers.run before).Tidy move) moves := by
  apply everyState_iff_everyStep (I := fun _ => True) trivial
  · exact Callers.noLeak_new
  · intro before move _ _ hleak
    rw [Callers.run_concat]
    exact ⟨Callers.step_iff (Callers.formed_run before) hleak move, fun _ => trivial⟩

/-- A caller that no longer waits: its call is tracked until a reply comes, if one ever does. -/
def abandoned_call : List (CallerMove Value) :=
  [.event (.call ⟨1⟩ ⟨"echo", .Null, ⟨[]⟩⟩ .ok), .event (.sent 0 (.ok ())), .drop 0]

theorem an_abandoned_call_leaks :
    ¬ EveryState (fun before => (Callers.run before).NoLeak) abandoned_call := by
  intro h
  have hstate : (Callers.run abandoned_call).client.tracked[(⟨1⟩ : RpcId)]? = some ⟨0⟩ ∧
      0 ∈ (Callers.run abandoned_call).dropped := by
    simp [abandoned_call, Callers.run, Callers.new, Callers.step, Callers.event, Callers.drop,
      RpcClient.new, RpcClient.step, RpcClient.call, RpcClient.track, RpcClient.sent,
      RpcClient.go_on, RpcClient.progress_of]
  obtain ⟨c, -, -, -, -, hdropped⟩ := h abandoned_call (List.prefix_refl _) ⟨1⟩ ⟨0⟩ hstate.1
  exact hdropped hstate.2

end marie.rpc
