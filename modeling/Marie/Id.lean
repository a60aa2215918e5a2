-- The identifiers as the program writes and reads them: two words of 64 bits,
-- 32 hexadecimal digits.
import Mathlib.Data.Nat.Basic
import Mathlib.Tactic.Ring

namespace marie

/-! ## Digits -/

/-- The value of a digit for `from_str_radix(_, 16)`, which takes both cases. -/
def hex_digit (c : Char) : Option Nat :=
  if '0' ≤ c ∧ c ≤ '9' then some (c.toNat - '0'.toNat)
  else if 'a' ≤ c ∧ c ≤ 'f' then some (c.toNat - 'a'.toNat + 10)
  else if 'A' ≤ c ∧ c ≤ 'F' then some (c.toNat - 'A'.toNat + 10)
  else none

/-- The last `k` digits of a number: `{:0k x}` of a number that has no more. -/
def hex_digits (k n : Nat) : List Char :=
  (List.range k).reverse.map fun i => Nat.digitChar (n / 16 ^ i % 16)

/-- The digits read from the left, after those that gave `acc`. -/
def read_hex (acc : Nat) (cs : List Char) : Option Nat :=
  cs.foldlM (fun acc c => (hex_digit c).map (acc * 16 + ·)) acc

/-- `u64::from_str_radix(_, 16)` on 16 characters: one sign is let through. -/
def u64_from_hex : List Char → Option UInt64
  | '+' :: cs => if cs.isEmpty then none else (read_hex 0 cs).map UInt64.ofNat
  | cs => if cs.isEmpty then none else (read_hex 0 cs).map UInt64.ofNat

theorem hex_digit_digitChar_all : ∀ d < 16, hex_digit (Nat.digitChar d) = some d := by decide

theorem read_hex_digits (acc k n : Nat) :
    read_hex acc (hex_digits k n) = some (acc * 16 ^ k + n % 16 ^ k) := by
  unfold hex_digits
  induction k generalizing acc with
  | zero => simp [read_hex, Nat.mod_one]
  | succ k ih =>
    rw [List.range_succ, List.reverse_append, List.reverse_singleton, List.singleton_append,
      List.map_cons]
    have hdigit := hex_digit_digitChar_all _ (Nat.mod_lt (n / 16 ^ k) (by omega : 0 < 16))
    have hrest := ih (acc * 16 + n / 16 ^ k % 16)
    unfold read_hex at hrest ⊢
    rw [List.foldlM_cons, hdigit]
    simp only [Option.map_some, Option.bind_eq_bind, Option.bind_some]
    rw [hrest, Nat.mod_pow_succ, Nat.pow_succ]
    congr 1
    ring

theorem length_hex_digits (k n : Nat) : (hex_digits k n).length = k := by simp [hex_digits]

theorem digitChar_ne_plus : ∀ d < 16, Nat.digitChar d ≠ '+' := by decide

theorem u64_from_hex_digits (n : UInt64) : u64_from_hex (hex_digits 16 n.toNat) = some n := by
  have hread := read_hex_digits 0 16 n.toNat
  have hlt : n.toNat < 16 ^ 16 := n.toNat_lt
  rw [Nat.mod_eq_of_lt hlt] at hread
  unfold u64_from_hex
  split
  · rename_i cs hcs
    have hmem : '+' ∈ hex_digits 16 n.toNat := by simp [hcs]
    obtain ⟨i, -, hi⟩ := List.mem_map.mp hmem
    exact absurd hi (digitChar_ne_plus _ (Nat.mod_lt _ (by omega)))
  · have hne : (hex_digits 16 n.toNat).isEmpty = false := by
      rw [List.isEmpty_eq_false_iff, ← List.length_pos_iff, length_hex_digits]
      omega
    simp [hne, hread]

/-! ## Identifiers -/

/-- `ID(u64, u64)`. -/
structure ID where
  hi : UInt64
  lo : UInt64
deriving DecidableEq, Hashable

namespace ID

/-- `{:016x}{:016x}`. -/
def to_string (id : ID) : String :=
  String.ofList (hex_digits 16 id.hi.toNat ++ hex_digits 16 id.lo.toNat)

/-- `FromStr`. A text of 32 bytes with a character that is no digit is refused; so is one of 32
characters in more bytes. -/
def from_str (s : String) : Option ID :=
  if s.toList.length = 32 then do
    let id1 ← u64_from_hex (s.toList.take 16)
    let id2 ← u64_from_hex (s.toList.drop 16)
    some ⟨id1, id2⟩
  else none

theorem from_str_to_string (id : ID) : from_str id.to_string = some id := by
  unfold from_str to_string
  simp only [String.toList_ofList]
  have hlen := length_hex_digits 16
  rw [if_pos (by simp [hlen]), List.take_left' (hlen _), List.drop_left' (hlen _)]
  simp [u64_from_hex_digits]

theorem to_string_inj {id id' : ID} : id.to_string = id'.to_string ↔ id = id' := by
  constructor
  · intro h
    have := from_str_to_string id
    rw [h, from_str_to_string] at this
    exact (Option.some.inj this).symm
  · rintro rfl
    rfl

end ID

end marie
