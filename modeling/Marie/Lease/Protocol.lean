-- The messages of the lease authority: what a node asks about the lease of a
-- session, and what it is answered.
import Mathlib.Order.Basic
import Marie.Node

namespace marie.lease

/-! ## Instants -/

/-- The first and the last instant of `chrono`, in nanoseconds from the epoch. -/
def MIN_UTC : Int := -8334601228800 * 1000000000

def MAX_UTC : Int := 8210266876800 * 1000000000 - 1

structure DateTime where
  nanos : Int
  inRange : MIN_UTC ≤ nanos ∧ nanos ≤ MAX_UTC
deriving DecidableEq

theorem DateTime.nanos_injective : Function.Injective DateTime.nanos := by
  rintro ⟨_, _⟩ ⟨_, _⟩ rfl
  rfl

instance : LinearOrder DateTime := LinearOrder.lift' DateTime.nanos DateTime.nanos_injective

/-- The instant `ttl` nanoseconds later. `+` panics where this is `none`. -/
def DateTime.checked_add (t : DateTime) (ttl : Int) : Option DateTime :=
  if h : MIN_UTC ≤ t.nanos + ttl ∧ t.nanos + ttl ≤ MAX_UTC then some ⟨t.nanos + ttl, h⟩ else none

/-- `DateTime::<Utc>::default()`. -/
def DateTime.default : DateTime := ⟨0, by decide⟩

/-- Two readings that give the same instant after the same time are one. -/
theorem DateTime.checked_add_inj {t1 t2 x : DateTime} {ttl : Int}
    (h1 : t1.checked_add ttl = some x) (h2 : t2.checked_add ttl = some x) : t1 = t2 := by
  unfold checked_add at h1 h2
  split at h1
  · split at h2
    · cases h1
      have h : t2.nanos + ttl = t1.nanos + ttl := congrArg nanos (Option.some.inj h2)
      exact nanos_injective (by omega)
    · cases h2
  · cases h1

/-! ## Requests and answers -/

/-- A `ttl` is in nanoseconds, and may be negative. -/
inductive LeaseOp
  | Acquire (holder : NodeId) (ttl : Int)
  | Renew (holder : NodeId) (epoch : Nat) (ttl : Int)
  | Release (holder : NodeId) (epoch : Nat)
deriving DecidableEq

structure LeaseRequest where
  request_id : Nat
  session_id : SessionId
  op : LeaseOp
deriving DecidableEq

inductive LeaseResult
  | Granted (epoch : Nat) (expires_at : DateTime)
  | Renewed (expires_at : DateTime)
  | Denied (current_holder : NodeId) (current_epoch : Nat)
  | NotLeader (leader_hint : Option NodeId)
deriving DecidableEq

structure LeaseResponse where
  request_id : Nat
  result : LeaseResult
deriving DecidableEq

end marie.lease
