-- The client of the lease authority: it asks the leader that it knows, and once
-- more the leader that it is told of. It keeps a leader that does not answer
-- until another node names a new one.
import Marie.Lib.Program
import Marie.Lib.Runs
import Marie.Lease.Server
import Marie.Rpc.Protocol

open Program Runs

namespace marie.lease

open rpc (RpcError)

/-! ## Calls -/

/-- `RaftError` of `client_write`: all but `ForwardToLeader` are one here, with their text. -/
inductive RaftError
  | ForwardToLeader (leader_id : Option LeaseNodeId) (leader_node : Option NodeId)
  | Other (message : String)

/-- What `invoke::<SubmitLease>` gives. -/
abbrev Outcome := Except RpcError (Except RaftError LeaseResult)

inductive ClientError
  | Rpc (e : RpcError)
  | Message (text : String)

/-- A call that was made, with the hint that was cached then. -/
structure Invocation where
  request : LeaseRequest
  target : NodeId
  hint : Option NodeId
  outcome : Outcome

structure LeaseClient where
  leader_hint : Option NodeId
  invoked : List Invocation

/-- One submit: its request, what the annuary knows, and the outcome of the first and of the
second call by their target. -/
structure Submit where
  request : LeaseRequest
  annuary : annuary.Annuary
  first : NodeId → Outcome
  second : NodeId → Outcome

def invoke (request : LeaseRequest) (target : NodeId) (outcome : Outcome) :
    Program ClientError LeaseClient (Except RaftError LeaseResult) := do
  modify fun c => { c with invoked := c.invoked ++ [⟨request, target, c.leader_hint, outcome⟩] }
  match outcome with
  | .ok answer => pure answer
  | .error e => throw (.Rpc e)

/-- The last known leader, else any peer with the capability. -/
def candidate (annuary : annuary.Annuary) : Program ClientError LeaseClient (Option NodeId) := do
  match ← asks (·.leader_hint) with
  | some hint => pure (some hint)
  | none => pure (annuary.nodes_with lease_capability).head?

def RaftError.leader_node : RaftError → Option NodeId
  | .ForwardToLeader _ leader_node => leader_node
  | .Other _ => none

/-- `Display` of a node: its bytes. -/
def display_node (node : NodeId) : String := toString (node.bytes.map UInt8.toNat)

section

variable (to_string : RaftError → String)

def retry_on_forward (s : Submit) (error : RaftError) (tried : NodeId) :
    Program ClientError LeaseClient LeaseResult := do
  match error.leader_node with
  | none => throw (.Message ("échec de la soumission de la requête de bail sur " ++
      display_node tried ++ " : " ++ to_string error))
  | some target => do
    modify fun c => { c with leader_hint := some target }
    match ← invoke s.request target (s.second target) with
    | .ok result => pure result
    | .error error => throw (.Message
        ("échec de la soumission de la requête de bail sur le leader " ++ display_node target ++
          " : " ++ to_string error))

def submit (s : Submit) : Program ClientError LeaseClient LeaseResult := do
  match ← candidate s.annuary with
  | none => throw (.Message
      "aucun pair Capability::Lease connu pour soumettre la requête de bail")
  | some target => do
    match ← invoke s.request target (s.first target) with
    | .ok result => pure result
    | .error raft_error => retry_on_forward to_string s raft_error target

/-! ## What one submit does -/

/-- The submit from a hint: its calls, and the hint that it leaves. -/
def turn (hint : Option NodeId) (s : Submit) : LeaseClient :=
  (exec (submit to_string s) ⟨hint, []⟩).2

end

/-- The call failed in transport, or its answer names no leader. -/
def Outcome.Unled : Outcome → Prop
  | .error _ => True
  | .ok (.ok _) => False
  | .ok (.error error) => error.leader_node = none

/-- The answer names the node as the leader. -/
def Outcome.Names (outcome : Outcome) (node : NodeId) : Prop :=
  ∃ error, outcome = .ok (.error error) ∧ error.leader_node = some node

variable {to_string : RaftError → String} {hint : Option NodeId} {s : Submit} {node : NodeId}

/-- The node that a submit asks first. -/
def target_of (hint : Option NodeId) (annuary : annuary.Annuary) : Option NodeId :=
  hint.or (annuary.nodes_with lease_capability).head?

@[simp] theorem exec_candidate (annuary : annuary.Annuary) (c : LeaseClient) :
    exec (candidate annuary) c = (.ok (target_of c.leader_hint annuary), c) := by
  unfold candidate target_of
  rw [exec_bind_ok (exec_asks _ _)]
  cases c.leader_hint <;> rfl

@[simp] theorem exec_invoke (request : LeaseRequest) (target : NodeId) (outcome : Outcome)
    (c : LeaseClient) : exec (invoke request target outcome) c = (outcome.mapError .Rpc,
      { c with invoked := c.invoked ++ [⟨request, target, c.leader_hint, outcome⟩] }) := by
  unfold invoke
  rw [exec_bind_ok (exec_modify _ _)]
  cases outcome <;> rfl

/-- The second call is made whatever it gives. -/
theorem retry_of_named {error : RaftError} {leader tried : NodeId} {c : LeaseClient}
    (h : error.leader_node = some leader) :
    (exec (retry_on_forward to_string s error tried) c).2 = ⟨some leader,
      c.invoked ++ [⟨s.request, leader, some leader, s.second leader⟩]⟩ := by
  unfold retry_on_forward
  rw [h]
  dsimp only
  rw [exec_bind_ok (exec_modify _ _), exec_bind, exec_invoke]
  rcases s.second leader with _ | _ | _ <;> rfl

/-- The ways of a submit: it finds no one to ask, it asks one node, or it asks the node that the
first one names. -/
inductive Turned (hint : Option NodeId) (s : Submit) : LeaseClient → Prop
  | none (h : target_of hint s.annuary = none) : Turned hint s ⟨hint, []⟩
  | once {target : NodeId} (h : target_of hint s.annuary = some target)
      (hnames : ∀ node, ¬ (s.first target).Names node) :
      Turned hint s ⟨hint, [⟨s.request, target, hint, s.first target⟩]⟩
  | twice {target leader : NodeId} (h : target_of hint s.annuary = some target)
      (hnames : (s.first target).Names leader) :
      Turned hint s ⟨some leader, [⟨s.request, target, hint, s.first target⟩,
        ⟨s.request, leader, some leader, s.second leader⟩]⟩

theorem turn_once {target : NodeId} (h : target_of hint s.annuary = some target)
    (hnames : ∀ node, ¬ (s.first target).Names node) :
    turn to_string hint s = ⟨hint, [⟨s.request, target, hint, s.first target⟩]⟩ := by
  unfold turn submit
  rw [exec_bind_ok (exec_candidate _ _), h]
  dsimp only
  rw [exec_bind, exec_invoke]
  rcases hfirst : s.first target with e | error | result
  · rfl
  · have hleader : error.leader_node = none := by
      rw [Option.eq_none_iff_forall_ne_some]
      intro node hnode
      exact hnames node ⟨error, hfirst, hnode⟩
    simp [Except.mapError, retry_on_forward, hleader]
  · rfl

theorem turn_twice {target leader : NodeId} (h : target_of hint s.annuary = some target)
    (hnames : (s.first target).Names leader) :
    turn to_string hint s = ⟨some leader, [⟨s.request, target, hint, s.first target⟩,
      ⟨s.request, leader, some leader, s.second leader⟩]⟩ := by
  obtain ⟨error, hfirst, hleader⟩ := hnames
  unfold turn submit
  rw [exec_bind_ok (exec_candidate _ _), h]
  dsimp only
  rw [exec_bind, exec_invoke, hfirst]
  simp [Except.mapError, retry_of_named hleader]

theorem turned (to_string : RaftError → String) (hint : Option NodeId) (s : Submit) :
    Turned hint s (turn to_string hint s) := by
  cases htarget : target_of hint s.annuary with
  | none =>
    have hturn : turn to_string hint s = ⟨hint, []⟩ := by
      unfold turn submit
      rw [exec_bind_ok (exec_candidate _ _), htarget]
      rfl
    rw [hturn]
    exact .none htarget
  | some target =>
    by_cases hnames : ∃ leader, (s.first target).Names leader
    · obtain ⟨leader, hleader⟩ := hnames
      rw [turn_twice htarget hleader]
      exact .twice htarget hleader
    · have hno : ∀ leader, ¬ (s.first target).Names leader := fun leader h => hnames ⟨leader, h⟩
      rw [turn_once htarget hno]
      exact .once htarget hno

/-- A request is sent to two nodes at most. -/
theorem length_invoked_le : (turn to_string hint s).invoked.length ≤ 2 := by
  have hturned := turned to_string hint s
  generalize turn to_string hint s = c at hturned ⊢
  cases hturned <;> simp

/-! ## Leaders that do not answer -/

/-- A call of the submit to the node, while it was the cached hint, found no leader there, and no
later answer names the node. -/
def Invocation.Dead (invoked : List Invocation) (node : NodeId) : Prop :=
  ∃ before call after, invoked = before ++ call :: after ∧ call.target = node ∧
    call.hint = some node ∧ call.outcome.Unled ∧ ∀ later ∈ after, ¬ later.outcome.Names node

/-- The hint, or the leader that the first node names, fails or names no other. -/
inductive Dies (hint : Option NodeId) (s : Submit) : NodeId → Prop
  | cached {node : NodeId} (hhint : hint = some node) (hdead : (s.first node).Unled) :
      Dies hint s node
  | named {target node : NodeId} (htarget : target_of hint s.annuary = some target)
      (hnames : (s.first target).Names node) (hdead : (s.second node).Unled) : Dies hint s node

theorem not_unled_of_names {outcome : Outcome} (h : outcome.Names node) : ¬ outcome.Unled := by
  obtain ⟨error, rfl, hleader⟩ := h
  intro hunled
  rw [Outcome.Unled, hleader] at hunled
  cases hunled

theorem dies_of_call {call : Invocation} (hcall : call ∈ (turn to_string hint s).invoked)
    (htarget : call.target = node) (hhint : call.hint = some node)
    (hunled : call.outcome.Unled) : Dies hint s node := by
  have hturned := turned to_string hint s
  generalize turn to_string hint s = c at hturned hcall
  cases hturned with
  | none h => simp at hcall
  | once h hnames =>
    obtain rfl := List.mem_singleton.mp hcall
    subst htarget
    exact .cached hhint hunled
  | twice h hnames =>
    rcases List.mem_cons.mp hcall with rfl | hcall
    · exact absurd hunled (not_unled_of_names hnames)
    · obtain rfl := List.mem_singleton.mp hcall
      subst htarget
      exact .named h hnames hunled

theorem dead_iff : Invocation.Dead (turn to_string hint s).invoked node ↔ Dies hint s node := by
  constructor
  · rintro ⟨before, call, after, hinvoked, htarget, hhint, hunled, -⟩
    have hcall : call ∈ (turn to_string hint s).invoked := by simp [hinvoked]
    exact dies_of_call hcall htarget hhint hunled
  · intro hdies
    cases hdies with
    | cached hhint hdead =>
      subst hhint
      have hno : ∀ leader, ¬ (s.first node).Names leader := fun leader hnames =>
        not_unled_of_names hnames hdead
      rw [turn_once rfl hno]
      exact ⟨[], _, [], rfl, rfl, rfl, hdead, by simp⟩
    | named htarget hnames hdead =>
      rw [turn_twice htarget hnames]
      exact ⟨[_], _, [], rfl, rfl, rfl, hdead, by simp⟩

/-- A leader that does not answer stays the hint. -/
theorem hint_of_dies (h : Dies hint s node) : (turn to_string hint s).leader_hint = some node := by
  cases h with
  | cached hhint hdead =>
    subst hhint
    have hno : ∀ leader, ¬ (s.first node).Names leader := fun leader hnames =>
      not_unled_of_names hnames hdead
    rw [turn_once rfl hno]
  | named htarget hnames hdead => rw [turn_twice htarget hnames]

/-- A submit asks its hint first. -/
theorem first_of_hint : ((turn to_string (some node) s).invoked.head?).map (·.target) =
    some node := by
  have hturned := turned to_string (some node) s
  generalize turn to_string (some node) s = c at hturned ⊢
  cases hturned with
  | none h => cases h
  | once h hnames =>
    cases h
    rfl
  | twice h hnames =>
    cases h
    rfl

/-! ## Histories of submits -/

/-- The hint after some submits of a new client. -/
def hint_after (to_string : RaftError → String) (submits : List Submit) : Option NodeId :=
  submits.foldl (fun hint s => (turn to_string hint s).leader_hint) none

theorem hint_after_concat {submits : List Submit} :
    hint_after to_string (submits ++ [s]) =
      (turn to_string (hint_after to_string submits) s).leader_hint := by
  unfold hint_after
  rw [List.foldl_append, List.foldl_cons, List.foldl_nil]

/-- The annuary knows a node with the capability, other than this one. -/
def KnowsAnother (annuary : annuary.Annuary) (node : NodeId) : Prop :=
  ∃ peer ∈ annuary.nodes_with lease_capability, peer ≠ node

/-- A submit after some others: when the one before it found the cached leader dead, and another
peer is known, it does not ask the dead one first; and it asks two nodes at most. -/
def LetsGo (to_string : RaftError → String) (before : List Submit) (s : Submit) : Prop :=
  (∀ earlier last node, before = earlier ++ [last] →
    Invocation.Dead (turn to_string (hint_after to_string earlier) last).invoked node →
    KnowsAnother s.annuary node →
    ((turn to_string (hint_after to_string before) s).invoked.head?).map (·.target) ≠
      some node) ∧
  (turn to_string (hint_after to_string before) s).invoked.length ≤ 2

/-- The submit before this one did not find its leader dead, or no other peer is known. -/
def Spared (to_string : RaftError → String) (before : List Submit) (s : Submit) : Prop :=
  ∀ earlier last node, before = earlier ++ [last] →
    Dies (hint_after to_string earlier) last node → ¬ KnowsAnother s.annuary node

theorem lets_go_iff {before : List Submit} :
    LetsGo to_string before s ↔ Spared to_string before s := by
  constructor
  · rintro ⟨hfirst, -⟩ earlier last node rfl hdies hknows
    refine hfirst earlier last node rfl (dead_iff.mpr hdies) hknows ?_
    rw [hint_after_concat, hint_of_dies hdies]
    exact first_of_hint
  · intro hspared
    refine ⟨?_, length_invoked_le⟩
    intro earlier last node hbefore hdead hknows
    exact absurd hknows (hspared earlier last node hbefore (dead_iff.mp hdead))

/-- In a history of submits no submit asks a dead leader again exactly when none comes, with
another peer known, after one that found its leader dead. -/
theorem dead_leaders_are_left_iff (to_string : RaftError → String) (history : List Submit) :
    EveryStep (LetsGo to_string) history ↔ EveryStep (Spared to_string) history := by
  unfold EveryStep
  simp only [lets_go_iff]

/-- An annuary that knows two nodes with the capability. -/
def twoPeers : annuary.Annuary :=
  ⟨.default, ⟨[9]⟩, [(⟨[1]⟩, ⟨lease_capability⟩), (⟨[2]⟩, ⟨lease_capability⟩)]⟩

def oneRequest : LeaseRequest := ⟨1, ⟨1⟩, .Release ⟨[9]⟩ 1⟩

/-- The first node names the second one as the leader, which knows of none. -/
def forwarded : Submit where
  request := oneRequest
  annuary := twoPeers
  first _ := .ok (.error (.ForwardToLeader none (some ⟨[2]⟩)))
  second _ := .ok (.error (.ForwardToLeader none none))

/-- The second node still knows of no leader. -/
def again : Submit := { forwarded with first := fun _ => .ok (.error (.ForwardToLeader none none)) }

/-- The leader knows of no leader, and the annuary knows another node: the next submit asks the
leader again. -/
theorem a_dead_leader_is_asked_again :
    ¬ EveryStep (LetsGo fun _ => "") [forwarded, again] := by
  intro h
  obtain ⟨hfirst, -⟩ := h [forwarded] again [] rfl
  have htarget : target_of none forwarded.annuary = some ⟨[1]⟩ := by decide
  have hdead : Invocation.Dead (turn (fun _ => "") none forwarded).invoked ⟨[2]⟩ :=
    dead_iff.mpr (.named htarget ⟨_, rfl, rfl⟩ rfl)
  refine hfirst [] forwarded ⟨[2]⟩ rfl hdead ⟨⟨[1]⟩, by decide, by decide⟩ ?_
  have hhint : hint_after (fun _ => "") [forwarded] = some ⟨[2]⟩ := by decide
  rw [hhint]
  exact first_of_hint

end marie.lease
