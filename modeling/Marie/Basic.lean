-- The identifiers and the JSON values that every part of the program shares.
import Mathlib.Algebra.Order.Ring.Rat

namespace marie

/-! ## Identifiers -/

/-- The 128 bits of an identifier, read as one number. The code draws them at random; here a
new identifier is one that nothing uses yet. -/
structure SessionId where
  id : Nat
deriving DecidableEq

structure WorkspaceId where
  id : Nat
deriving DecidableEq

structure FrameId where
  id : Nat
deriving DecidableEq

structure HitlId where
  id : Nat
deriving DecidableEq

structure ToolCallId where
  id : Nat
deriving DecidableEq

structure JobId where
  id : Nat
deriving DecidableEq

/-- The text of an identifier: its 32 hexadecimal digits. -/
def display_id (id : Nat) : String :=
  String.ofList ((List.range 32).reverse.map fun i => Nat.digitChar (id / 16 ^ i % 16))

/-! ## JSON values -/

/-- The nearest number with a significand of 53 bits, ties to even: what `as_f64` makes of an
integer. -/
def round_f64 (n : Nat) : Nat :=
  if n < 2 ^ 53 then n
  else
    let e := Nat.log2 n - 52
    let q := n / 2 ^ e
    let r := n % 2 ^ e
    (if 2 ^ (e - 1) < r ∨ (r = 2 ^ (e - 1) ∧ q % 2 = 1) then q + 1 else q) * 2 ^ e

/-- A JSON number, as `serde_json::Number` keeps it. A float is finite, so it is the rational
that it stands for. -/
inductive Number
  | PosInt (n : Nat)
  | NegInt (n : Nat)
  | Float (x : ℚ)
deriving DecidableEq

/-- The number as an `f64`. `NegInt n` stands for `-n`. -/
def Number.as_f64 : Number → ℚ
  | .PosInt n => round_f64 n
  | .NegInt n => -(round_f64 n)
  | .Float x => x

/-- The number itself. -/
def Number.exact : Number → ℚ
  | .PosInt n => n
  | .NegInt n => -n
  | .Float x => x

inductive Value
  | Null
  | Bool (b : Bool)
  | Number (n : Number)
  | String (s : String)
  | Array (xs : List Value)
  | Object (fields : List (String × Value))

instance : Inhabited Value := ⟨.Null⟩

def Value.as_f64 : Value → Option ℚ
  | .Number n => some n.as_f64
  | _ => none

/-- An integer that an `i64` or a `u64` holds. -/
def Value.IsInteger : Value → Prop
  | .Number (.PosInt n) => n < 2 ^ 64
  | .Number (.NegInt n) => 0 < n ∧ n ≤ 2 ^ 63
  | _ => False

/-- `Map::insert` on the fields of an object, kept in the order of their names. -/
def insert_field (name : String) (value : Value) :
    List (String × Value) → List (String × Value)
  | [] => [(name, value)]
  | (n, v) :: rest =>
    if name = n then (name, value) :: rest
    else if name < n then (name, value) :: (n, v) :: rest
    else (n, v) :: insert_field name value rest

end marie
