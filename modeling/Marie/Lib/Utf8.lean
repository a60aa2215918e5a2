-- Texts as bytes, and bytes as texts: what is no text is replaced, one mark for
-- each sequence as far as it could have gone on.
import Mathlib.Data.List.Basic

namespace Utf8

/-- The bytes of a text. -/
def utf8 (cs : List Char) : List UInt8 := cs.flatMap String.utf8EncodeChar

def is_cont (b : UInt8) : Bool := 0x80 ≤ b && b ≤ 0xBF

/-- The second byte goes on the sequence of three that the first begins. -/
def begins_three (a b : UInt8) : Bool :=
  a == 0xE0 && 0xA0 ≤ b && b ≤ 0xBF || 0xE1 ≤ a && a ≤ 0xEC && is_cont b ||
    a == 0xED && 0x80 ≤ b && b ≤ 0x9F || 0xEE ≤ a && a ≤ 0xEF && is_cont b

def begins_four (a b : UInt8) : Bool :=
  a == 0xF0 && 0x90 ≤ b && b ≤ 0xBF || 0xF1 ≤ a && a ≤ 0xF3 && is_cont b ||
    a == 0xF4 && 0x80 ≤ b && b ≤ 0x8F

/-- How many bytes the mark replaces, where no character begins. -/
def broken_len : List UInt8 → Nat
  | a :: b :: rest =>
    if begins_three a b then 2
    else if begins_four a b then if rest.head?.any is_cont then 3 else 2
    else 1
  | _ => 1

/-- The first character, if there is one. -/
def decode_char (bytes : List UInt8) : Option Char :=
  ByteArray.utf8DecodeChar? bytes.toByteArray 0

/-- As many characters as the first argument. -/
def lossy : Nat → List UInt8 → List Char
  | 0, _ => []
  | _ + 1, [] => []
  | n + 1, b :: bytes =>
    match decode_char (b :: bytes) with
    | some c => c :: lossy n ((b :: bytes).drop c.utf8Size)
    | none => '\uFFFD' :: lossy n ((b :: bytes).drop (broken_len (b :: bytes)))

/-- `String::from_utf8_lossy`: there are no more characters than bytes. -/
def from_utf8_lossy (bytes : List UInt8) : List Char := lossy bytes.length bytes

theorem broken_len_pos (bytes : List UInt8) : 0 < broken_len bytes := by
  unfold broken_len
  split
  · split
    · omega
    · split
      · split <;> omega
      · omega
  · omega

theorem lossy_eq {n : Nat} {bytes : List UInt8} (h : bytes.length ≤ n) :
    lossy n bytes = from_utf8_lossy bytes := by
  unfold from_utf8_lossy
  induction hlen : bytes.length using Nat.strongRecOn generalizing n bytes with
  | _ k ih =>
    subst hlen
    cases bytes with
    | nil => cases n <;> simp [lossy]
    | cons b bytes =>
      cases n with
      | zero => simp at h
      | succ n =>
        -- at least one byte is taken
        have hdrop : ∀ m, 0 < m → lossy n ((b :: bytes).drop m) =
            lossy bytes.length ((b :: bytes).drop m) := by
          intro m hm
          have hlt : ((b :: bytes).drop m).length < (b :: bytes).length := by
            rw [List.length_drop, List.length_cons]
            omega
          rw [List.length_cons] at h hlt
          rw [ih _ hlt (by omega) rfl, ih _ hlt (by omega : _ ≤ bytes.length) rfl]
        rw [List.length_cons, lossy, lossy]
        cases decode_char (b :: bytes) with
        | some c => simp only [hdrop _ c.utf8Size_pos]
        | none => simp only [hdrop _ (broken_len_pos _)]

theorem decode_char_append (c : Char) (bytes : List UInt8) :
    decode_char (String.utf8EncodeChar c ++ bytes) = some c := by
  unfold decode_char
  rw [List.toByteArray_append]
  exact ByteArray.utf8DecodeChar?_utf8EncodeChar_append

/-- A text at the front is read as it is. -/
theorem from_utf8_lossy_append (text : List Char) (bytes : List UInt8) :
    from_utf8_lossy (utf8 text ++ bytes) = text ++ from_utf8_lossy bytes := by
  induction text with
  | nil => simp [utf8]
  | cons c text ih =>
    have hbytes : utf8 (c :: text) ++ bytes = String.utf8EncodeChar c ++ (utf8 text ++ bytes) := by
      simp [utf8]
    have hpos : 0 < (String.utf8EncodeChar c).length := by
      rw [String.length_utf8EncodeChar]
      exact c.utf8Size_pos
    rw [hbytes]
    cases hfirst : String.utf8EncodeChar c with
    | nil => simp [hfirst] at hpos
    | cons b rest =>
      have hchar := decode_char_append c (utf8 text ++ bytes)
      have hsize : (b :: rest).length = c.utf8Size := by
        rw [← hfirst, String.length_utf8EncodeChar]
      rw [hfirst, List.cons_append] at hchar
      rw [from_utf8_lossy, List.cons_append, List.length_cons, lossy, hchar]
      simp only
      rw [← hsize, ← List.cons_append, List.drop_left, lossy_eq (by simp), ih, List.cons_append]

theorem from_utf8_lossy_utf8 (text : List Char) : from_utf8_lossy (utf8 text) = text := by
  have happend := from_utf8_lossy_append text []
  rw [List.append_nil] at happend
  rw [happend]
  simp [from_utf8_lossy, lossy]

theorem from_utf8_lossy_ne_nil {bytes : List UInt8} (h : bytes ≠ []) : from_utf8_lossy bytes ≠ [] := by
  cases bytes with
  | nil => exact absurd rfl h
  | cons b bytes =>
    rw [from_utf8_lossy, List.length_cons, lossy]
    split <;> simp

theorem utf8_append (as bs : List Char) : utf8 (as ++ bs) = utf8 as ++ utf8 bs := by
  simp [utf8]

theorem utf8_eq_nil {text : List Char} : utf8 text = [] ↔ text = [] := by
  cases text with
  | nil => simp [utf8]
  | cons c text => simp [utf8]

end Utf8
