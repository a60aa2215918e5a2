-- The texts of the identifiers, byte by byte. A text is measured and cut in bytes,
-- and each half is read as a number, which may begin with a sign.
import Mathlib.Data.List.Induction
import Marie.Basic
import Marie.Id
import Marie.Lib.Texts

namespace marie

open Texts

/-- What reading an identifier ends with, but for the identifier. -/
inductive ParseFault where
  | Err (message : String)
  /-- `String::deserialize` on another type. -/
  | InvalidType
  | Panic
deriving DecidableEq

namespace ID

/-- A half of the text. It is not empty and it has at most 16 digits, so no other error comes. -/
def parse_half (cs : List Char) : Except ParseFault UInt64 :=
  match u64_from_hex cs with
  | some n => .ok n
  | none => .error (.Err "invalid digit found in string")

/-- `FromStr`: the length is in bytes, and a slice that cuts a character panics. -/
def parse (s : String) : Except ParseFault ID :=
  if byte_len s.toList ≠ 32 then
    .error (.Err "ID parsing error : expecting a 32 long string")
  else match split_at_byte 16 s.toList with
    | none => .error .Panic
    | some (first, last) => do
      let id1 ← parse_half first
      let id2 ← parse_half last
      .ok ⟨id1, id2⟩

/-- `Deserialize`. -/
def deserialize : Value → Except ParseFault ID
  | .String repr => parse repr
  | _ => .error .InvalidType

end ID

/-! ## Numerals -/

/-- One digit or more. -/
def Numeral (cs : List Char) : Prop := cs ≠ [] ∧ ∀ c ∈ cs, (hex_digit c).isSome

/-- A numeral after a plus sign. -/
def Signed (cs : List Char) : Prop := ∃ digits, cs = '+' :: digits ∧ Numeral digits

theorem hex_digit_ascii {c : Char} {d : Nat} (h : hex_digit c = some d) : c.toNat < 128 := by
  unfold hex_digit at h
  have hle : ∀ a b : Char, a ≤ b → a.toNat ≤ b.toNat := fun a b hab => hab
  split at h
  · rename_i hc
    have hlt := hle _ _ hc.2
    have : ('9' : Char).toNat = 57 := by decide
    omega
  · split at h
    · rename_i hc
      have hlt := hle _ _ hc.2
      have : ('f' : Char).toNat = 102 := by decide
      omega
    · split at h
      · rename_i hc
        have hlt := hle _ _ hc.2
        have : ('F' : Char).toNat = 70 := by decide
        omega
      · simp at h

theorem hex_digit_all : ∀ n < 128, ∀ d ∈ hex_digit (Char.ofNat n),
    d < 16 ∧ Nat.digitChar d = (Char.ofNat n).toLower ∧ (Char.ofNat n).utf8Size = 1 := by
  decide

/-- A digit is written in lower case, in one byte. -/
theorem hex_digit_spec {c : Char} {d : Nat} (h : hex_digit c = some d) :
    d < 16 ∧ Nat.digitChar d = c.toLower ∧ c.utf8Size = 1 := by
  have hall := hex_digit_all c.toNat (hex_digit_ascii h) d
  rw [Char.ofNat_toNat] at hall
  exact hall h

theorem byte_len_digits {cs : List Char} (h : ∀ c ∈ cs, (hex_digit c).isSome) :
    byte_len cs = cs.length := by
  induction cs with
  | nil => simp [byte_len]
  | cons c cs ih =>
    obtain ⟨d, hd⟩ := Option.isSome_iff_exists.mp (h c List.mem_cons_self)
    rw [byte_len_cons, (hex_digit_spec hd).2.2, ih fun c' hc' => h c' (List.mem_cons_of_mem c hc'),
      List.length_cons, Nat.add_comm]

theorem not_numeral_plus (cs : List Char) : ¬ Numeral ('+' :: cs) := by
  intro h
  have hplus := h.2 '+' List.mem_cons_self
  revert hplus
  decide

theorem not_signed_of_numeral {cs : List Char} (h : Numeral cs) : ¬ Signed cs := by
  rintro ⟨digits, rfl, -⟩
  exact not_numeral_plus digits h

theorem signed_plus {cs : List Char} : Signed ('+' :: cs) ↔ Numeral cs := by
  unfold Signed
  constructor
  · rintro ⟨digits, ⟨⟩, h⟩
    exact h
  · intro h
    exact ⟨cs, rfl, h⟩

theorem read_hex_isSome (acc : Nat) {cs : List Char} :
    (read_hex acc cs).isSome ↔ ∀ c ∈ cs, (hex_digit c).isSome := by
  unfold read_hex
  induction cs generalizing acc with
  | nil => simp
  | cons c cs ih =>
    rw [List.foldlM_cons, List.forall_mem_cons]
    cases hc : hex_digit c with
    | none => simp
    | some d => simp [ih]

theorem read_numeral_isSome {cs : List Char} :
    (if cs.isEmpty then none else (read_hex 0 cs).map UInt64.ofNat).isSome ↔ Numeral cs := by
  unfold Numeral
  cases cs with
  | nil => simp
  | cons c cs =>
    rw [← read_hex_isSome 0]
    simp

/-- Numerals are read, with a sign or without one, and nothing else is. -/
theorem u64_from_hex_isSome {cs : List Char} :
    (u64_from_hex cs).isSome ↔ Numeral cs ∨ Signed cs := by
  unfold u64_from_hex
  split
  · rename_i digits
    rw [read_numeral_isSome, signed_plus, or_iff_right (not_numeral_plus digits)]
  · rename_i hplus
    have hsigned : ¬ Signed cs := by
      rintro ⟨digits, rfl, -⟩
      exact hplus digits rfl
    rw [read_numeral_isSome, or_iff_left hsigned]

/-! ## What is read -/

theorem hex_digits_succ (k n : Nat) :
    hex_digits (k + 1) n = hex_digits k (n / 16) ++ [Nat.digitChar (n % 16)] := by
  unfold hex_digits
  rw [List.range_succ_eq_map, List.reverse_cons, List.map_append, ← List.map_reverse, List.map_map]
  simp [Function.comp_def, Nat.pow_succ, Nat.div_div_eq_div_mul, Nat.mul_comm]

/-- The digits of a number that was read are those of the text, in lower case. -/
theorem hex_digits_of_read {cs : List Char} {n : Nat} (h : read_hex 0 cs = some n) :
    n < 16 ^ cs.length ∧ hex_digits cs.length n = cs.map Char.toLower := by
  induction cs using List.reverseRecOn generalizing n with
  | nil =>
    simp [read_hex] at h
    simp [← h, hex_digits]
  | append_singleton cs c ih =>
    unfold read_hex at h ih
    rw [List.foldlM_append] at h
    simp only [Option.bind_eq_bind, Option.bind_eq_some_iff, List.foldlM_cons, List.foldlM_nil,
      Option.pure_def, Option.map_eq_some_iff, Option.some_inj] at h
    obtain ⟨m, hm, _, ⟨d, hd, rfl⟩, rfl⟩ := h
    obtain ⟨hlt, hdigits⟩ := ih hm
    obtain ⟨hd16, hchar, -⟩ := hex_digit_spec hd
    have hdiv : (m * 16 + d) / 16 = m := by omega
    have hmod : (m * 16 + d) % 16 = d := by omega
    rw [List.length_append, List.length_singleton, hex_digits_succ, hdiv, hmod, hdigits, hchar,
      List.map_append, List.map_singleton, Nat.pow_succ]
    refine ⟨?_, by simp only⟩
    omega

theorem hex_digits_of_u64 {cs : List Char} {n : UInt64} (hlen : cs.length = 16) (h : Numeral cs)
    (hread : u64_from_hex cs = some n) : hex_digits 16 n.toNat = cs.map Char.toLower := by
  unfold u64_from_hex at hread
  split at hread
  · rename_i digits
    exact absurd h (not_numeral_plus digits)
  · have hne : cs.isEmpty = false := by simpa using h.1
    simp only [hne, Bool.false_eq_true, if_false, Option.map_eq_some_iff] at hread
    obtain ⟨m, hm, rfl⟩ := hread
    obtain ⟨hlt, hdigits⟩ := hex_digits_of_read hm
    rw [hlen] at hlt hdigits
    rw [← hdigits, UInt64.toNat_ofNat', Nat.mod_eq_of_lt (by omega)]

/-! ## The identifiers -/

/-- 32 hexadecimal digits. -/
def Hex32 (s : String) : Prop := s.toList.length = 32 ∧ ∀ c ∈ s.toList, (hex_digit c).isSome

/-- A text of 32 bytes that is cut inside a character, or whose halves are numerals of which one
has a sign. -/
def Misread (s : String) : Prop :=
  byte_len s.toList = 32 ∧ (split_at_byte 16 s.toList = none ∨
    ∃ first last, split_at_byte 16 s.toList = some (first, last) ∧
      (Numeral first ∨ Signed first) ∧ (Numeral last ∨ Signed last) ∧
      (Signed first ∨ Signed last))

namespace ID

/-- A text is read or refused, and it is read as the identifier that it writes. -/
structure TextForm (s : String) : Prop where
  returns : parse s ≠ .error .Panic
  reads : (∃ id, parse s = .ok id) ↔ Hex32 s
  lower : ∀ id, parse s = .ok id → id.to_string = s.toLower

/-- So is a JSON value that comes in a message or from a row. -/
structure JsonForm (v : Value) : Prop where
  returns : deserialize v ≠ .error .Panic
  reads : ∀ id, deserialize v = .ok id ↔
    ∃ s, v = .String s ∧ Hex32 s ∧ id.to_string = s.toLower

end ID

theorem hex32_iff {s : String} : Hex32 s ↔ byte_len s.toList = 32 ∧
    ∃ first last, split_at_byte 16 s.toList = some (first, last) ∧ Numeral first ∧ Numeral last := by
  constructor
  · rintro ⟨hlen, hdigits⟩
    have htake : ∀ c ∈ s.toList.take 16, (hex_digit c).isSome := fun c hc =>
      hdigits c (List.mem_of_mem_take hc)
    have hdrop : ∀ c ∈ s.toList.drop 16, (hex_digit c).isSome := fun c hc =>
      hdigits c (List.mem_of_mem_drop hc)
    refine ⟨by rw [byte_len_digits hdigits, hlen], s.toList.take 16, s.toList.drop 16, ?_, ?_, ?_⟩
    · rw [split_at_byte_eq_some_iff, byte_len_digits htake]
      simp [hlen]
    · refine ⟨?_, htake⟩
      apply List.ne_nil_of_length_pos
      simp [hlen]
    · refine ⟨?_, hdrop⟩
      apply List.ne_nil_of_length_pos
      simp [hlen]
  · rintro ⟨hlen, first, last, hsplit, hfirst, hlast⟩
    have hdigits : ∀ c ∈ s.toList, (hex_digit c).isSome := by
      rw [(split_at_byte_eq_some_iff.mp hsplit).1]
      intro c hc
      rcases List.mem_append.mp hc with hc | hc
      · exact hfirst.2 c hc
      · exact hlast.2 c hc
    rw [byte_len_digits hdigits] at hlen
    exact ⟨hlen, hdigits⟩

namespace ID

variable {s : String} {id : ID}

theorem parse_half_eq_ok_iff {cs : List Char} {n : UInt64} :
    parse_half cs = .ok n ↔ u64_from_hex cs = some n := by
  unfold parse_half
  cases u64_from_hex cs <;> simp

theorem parse_eq_ok_iff : parse s = .ok id ↔ byte_len s.toList = 32 ∧
    ∃ first last, split_at_byte 16 s.toList = some (first, last) ∧
      u64_from_hex first = some id.hi ∧ u64_from_hex last = some id.lo := by
  unfold parse
  by_cases hlen : byte_len s.toList = 32
  · cases hsplit : split_at_byte 16 s.toList with
    | none => simp [hlen]
    | some p =>
      obtain ⟨first, last⟩ := p
      simp only [hlen, ← parse_half_eq_ok_iff]
      cases hfirst : parse_half first with
      | error fault => simp [hfirst, bind, Except.bind]
      | ok id1 => cases hlast : parse_half last with
        | error fault => simp [hlast, bind, Except.bind]
        | ok id2 =>
          obtain ⟨hi, lo⟩ := id
          simp [hfirst, hlast, bind, Except.bind]
  · simp [hlen]

theorem parse_panics_iff : parse s = .error .Panic ↔
    byte_len s.toList = 32 ∧ split_at_byte 16 s.toList = none := by
  have hhalf : ∀ cs, parse_half cs ≠ .error .Panic := by
    intro cs
    unfold parse_half
    cases u64_from_hex cs <;> simp
  unfold parse
  by_cases hlen : byte_len s.toList = 32
  · cases hsplit : split_at_byte 16 s.toList with
    | none => simp [hlen]
    | some p =>
      obtain ⟨first, last⟩ := p
      have hfirst := hhalf first
      have hlast := hhalf last
      cases hid1 : parse_half first with
      | error fault =>
        simp [hid1] at hfirst
        simp [hlen, bind, Except.bind, hfirst, hid1]
      | ok id1 => cases hid2 : parse_half last with
        | error fault =>
          simp [hid2] at hlast
          simp [hlen, bind, Except.bind, hlast, hid1, hid2]
        | ok id2 => simp [hlen, bind, Except.bind, hid1, hid2]
  · simp [hlen]

/-- A text of 32 digits is read, and written back in lower case. -/
theorem parse_of_hex32 (h : Hex32 s) : ∃ id, parse s = .ok id := by
  obtain ⟨hlen, first, last, hsplit, hfirst, hlast⟩ := hex32_iff.mp h
  obtain ⟨id1, hid1⟩ := Option.isSome_iff_exists.mp (u64_from_hex_isSome.mpr (.inl hfirst))
  obtain ⟨id2, hid2⟩ := Option.isSome_iff_exists.mp (u64_from_hex_isSome.mpr (.inl hlast))
  exact ⟨⟨id1, id2⟩, parse_eq_ok_iff.mpr ⟨hlen, first, last, hsplit, hid1, hid2⟩⟩

theorem to_string_of_hex32 (h : Hex32 s) (hid : parse s = .ok id) : id.to_string = s.toLower := by
  obtain ⟨hlen, first, last, hsplit, hfirst, hlast⟩ := hex32_iff.mp h
  obtain ⟨-, first', last', hsplit', hhi, hlo⟩ := parse_eq_ok_iff.mp hid
  rw [hsplit] at hsplit'
  cases hsplit'
  obtain ⟨heq, hfirst16⟩ := split_at_byte_eq_some_iff.mp hsplit
  rw [byte_len_digits hfirst.2] at hfirst16
  have hlast16 : last.length = 16 := by
    have htotal := h.1
    rw [heq, List.length_append] at htotal
    omega
  unfold to_string
  rw [hex_digits_of_u64 hfirst16 hfirst hhi, hex_digits_of_u64 hlast16 hlast hlo, ← List.map_append,
    ← heq]
  apply String.toList_injective
  rw [String.toList_ofList]
  exact String.toList_map.symm

theorem parse_to_string (id : ID) : parse id.to_string = .ok id := by
  have htext : id.to_string.toList = hex_digits 16 id.hi.toNat ++ hex_digits 16 id.lo.toNat := by
    rw [to_string, String.toList_ofList]
  have hdigits : ∀ n k, ∀ c ∈ hex_digits k n, (hex_digit c).isSome := by
    intro n k
    rw [← read_hex_isSome 0, read_hex_digits]
    simp
  rw [parse_eq_ok_iff, htext]
  refine ⟨?_, hex_digits 16 id.hi.toNat, hex_digits 16 id.lo.toNat, ?_, u64_from_hex_digits _,
    u64_from_hex_digits _⟩
  · rw [byte_len_append, byte_len_digits (hdigits _ _), byte_len_digits (hdigits _ _),
      length_hex_digits, length_hex_digits]
  · rw [split_at_byte_eq_some_iff, byte_len_digits (hdigits _ _), length_hex_digits]
    simp

/-- A text is as it should be exactly when it is not misread. -/
theorem textForm_iff : TextForm s ↔ ¬ Misread s := by
  constructor
  · rintro ⟨hreturns, hreads, -⟩ ⟨hlen, hnone | ⟨first, last, hsplit, hfirst, hlast, hsigned⟩⟩
    · exact hreturns (parse_panics_iff.mpr ⟨hlen, hnone⟩)
    · obtain ⟨id1, hid1⟩ := Option.isSome_iff_exists.mp (u64_from_hex_isSome.mpr hfirst)
      obtain ⟨id2, hid2⟩ := Option.isSome_iff_exists.mp (u64_from_hex_isSome.mpr hlast)
      have hex := hreads.mp ⟨⟨id1, id2⟩, parse_eq_ok_iff.mpr ⟨hlen, first, last, hsplit, hid1, hid2⟩⟩
      obtain ⟨-, first', last', hsplit', hfirst', hlast'⟩ := hex32_iff.mp hex
      rw [hsplit] at hsplit'
      cases hsplit'
      rcases hsigned with hsigned | hsigned
      · exact not_signed_of_numeral hfirst' hsigned
      · exact not_signed_of_numeral hlast' hsigned
  · intro h
    have hex : ∀ id, parse s = .ok id → Hex32 s := by
      intro id hid
      obtain ⟨hlen, first, last, hsplit, hhi, hlo⟩ := parse_eq_ok_iff.mp hid
      have hfirst := u64_from_hex_isSome.mp (Option.isSome_of_eq_some hhi)
      have hlast := u64_from_hex_isSome.mp (Option.isSome_of_eq_some hlo)
      have hsigned : ¬ (Signed first ∨ Signed last) := fun hsigned =>
        h ⟨hlen, .inr ⟨first, last, hsplit, hfirst, hlast, hsigned⟩⟩
      rw [not_or] at hsigned
      exact hex32_iff.mpr ⟨hlen, first, last, hsplit, hfirst.resolve_right hsigned.1,
        hlast.resolve_right hsigned.2⟩
    constructor
    · intro hpanic
      obtain ⟨hlen, hnone⟩ := parse_panics_iff.mp hpanic
      exact h ⟨hlen, .inl hnone⟩
    · constructor
      · rintro ⟨id, hid⟩
        exact hex id hid
      · exact parse_of_hex32
    · intro id hid
      exact to_string_of_hex32 (hex id hid) hid

theorem jsonForm_iff {v : Value} : JsonForm v ↔ ¬ ∃ s, v = .String s ∧ Misread s := by
  cases v with
  | String s =>
    have hmisread : (∃ s', Value.String s = .String s' ∧ Misread s') ↔ Misread s := by simp
    rw [hmisread, ← textForm_iff]
    constructor
    · rintro ⟨hreturns, hreads⟩
      simp only [deserialize, Value.String.injEq, exists_eq_left'] at hreturns hreads
      refine ⟨hreturns, ⟨?_, ?_⟩, ?_⟩
      · rintro ⟨id, hid⟩
        exact ((hreads id).mp hid).1
      · exact parse_of_hex32
      · intro id hid
        exact ((hreads id).mp hid).2
    · rintro ⟨hreturns, hreads, hlower⟩
      refine ⟨hreturns, fun id => ?_⟩
      simp only [deserialize, Value.String.injEq, exists_eq_left']
      constructor
      · intro hid
        exact ⟨hreads.mp ⟨id, hid⟩, hlower id hid⟩
      · rintro ⟨hex, htext⟩
        obtain ⟨id', hid'⟩ := hreads.mpr hex
        rw [hid', ← to_string_inj.mp (htext.trans (hlower id' hid').symm)]
  | Null => exact iff_of_true ⟨by simp [deserialize], by simp [deserialize]⟩ (by simp)
  | Bool b => exact iff_of_true ⟨by simp [deserialize], by simp [deserialize]⟩ (by simp)
  | Number n => exact iff_of_true ⟨by simp [deserialize], by simp [deserialize]⟩ (by simp)
  | Array xs => exact iff_of_true ⟨by simp [deserialize], by simp [deserialize]⟩ (by simp)
  | Object fields => exact iff_of_true ⟨by simp [deserialize], by simp [deserialize]⟩ (by simp)

/-- The text of an identifier is read back, and any text is read or refused as it should be,
exactly when it is not misread. -/
theorem text_form_iff (id : ID) (s : String) (v : Value) :
    parse id.to_string = .ok id ∧ (TextForm s ↔ ¬ Misread s) ∧
      (JsonForm v ↔ ¬ ∃ s, v = .String s ∧ Misread s) :=
  ⟨parse_to_string id, textForm_iff, jsonForm_iff⟩

/-- Fifteen digits, a character of two bytes and fifteen digits more. -/
def straddling : String := String.ofList (List.replicate 15 '0' ++ 'é' :: List.replicate 15 '0')

/-- The text panics. The other one is read, as an identifier that has no sign. -/
theorem malformed_texts_are_not_refused :
    ¬ TextForm straddling ∧ ¬ TextForm "+000000000000001+000000000000002" := by
  constructor
  · intro h
    exact h.returns (by decide)
  · intro h
    have hex := h.reads.mp ⟨⟨1, 2⟩, by decide⟩
    exact absurd (hex.2 '+' (by decide)) (by decide)

end ID

end marie
