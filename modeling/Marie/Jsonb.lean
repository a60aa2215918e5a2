-- What the queries do with a `jsonb`: the field of an object, its value as a
-- flag, the replacement of one field, and the equality of two values.
import Marie.Serde

namespace marie.serde

open Codecs Maps

/-- What stops a call on the database: a parameter that has no JSON, a JSON that is no `jsonb`, a
row that names no session, no row, a row that does not decode, and the `bail!` of the program. -/
inductive PgError
  | Encode
  | InvalidJson
  | ForeignKeyViolation (session_id : ID)
  | RowNotFound
  | Decode
  | Bail (message : String)

/-- `v -> 'name'`, `none` for `NULL`. -/
def arrow (name : String) : Value → Option Value
  | .Object fields => entry name fields
  | _ => none

/-- `v::boolean IS TRUE`; the program only writes booleans where it reads one. -/
def is_true : Option Value → Bool
  | some (.Bool b) => b
  | _ => false

/-- `jsonb_set(v, '{name}', x)`; the program only sets the fields of objects. -/
def jsonb_set (name : String) (x : Value) : Value → Value
  | .Object fields => .Object (Entries.insertEntry name x fields)
  | v => v

/-- The number as a `numeric`. `NegInt n` stands for `-n`. -/
def numeric : Number → ℚ
  | .PosInt n => n
  | .NegInt n => -n
  | .Float x => x

mutual

/-- `v = w`: the order of the fields of an object stands for nothing. -/
def jsonb_eq : Value → Value → Bool
  | .Null, .Null => true
  | .Bool a, .Bool b => a = b
  | .Number a, .Number b => numeric a = numeric b
  | .String a, .String b => a = b
  | .Array xs, .Array ys => all_jsonb_eq xs ys
  | .Object fs, .Object gs => fs.length = gs.length && fields_jsonb_eq fs gs
  | _, _ => false

def all_jsonb_eq : List Value → List Value → Bool
  | [], [] => true
  | x :: xs, y :: ys => jsonb_eq x y && all_jsonb_eq xs ys
  | _, _ => false

def fields_jsonb_eq : List (String × Value) → List (String × Value) → Bool
  | [], _ => true
  | (name, x) :: fs, gs =>
    (match entry name gs with
      | some y => jsonb_eq x y
      | none => false) && fields_jsonb_eq fs gs

end

section

variable {α β γ : Type} {F : Fields Jsonb α} {c : Serde β} {G : Fields Jsonb γ} {name : String}
  {absent : Option β} {a : α} {b : β} {g : γ}

/-- A record has each of its fields. -/
theorem arrow_record {hnames : ∀ n ∈ F.names, no_nul n = true} {v : Value} (hname : name ∈ F.names)
    (h : (record F hnames).encode a = some v) : (arrow name v).isSome = true := by
  obtain ⟨fields, hfields, rfl⟩ := Option.map_eq_some_iff.mp h
  apply entry_isSome
  rw [F.write_names hfields]
  exact hname

/-- The field `name` in the middle of a record is read as it was written. -/
theorem arrow_middle {fields : List (String × Value)} {v : Value} (hname : name ∉ F.names)
    (h : (F.both ((Fields.fieldOr name c absent).both G)).write (a, b, g) = some fields)
    (hv : c.encode b = some v) : arrow name (.Object fields) = some v := by
  obtain ⟨pre, rest, hpre, hrest, rfl⟩ := Fields.write_both.mp h
  obtain ⟨xs, post, hxs, -, rfl⟩ := Fields.write_both.mp hrest
  obtain ⟨d, hd, rfl⟩ := Fields.write_fieldOr.mp hxs
  obtain rfl := Option.some.inj (hd.symm.trans hv)
  rw [← F.write_names hpre] at hname
  rw [arrow, entry_append hname, List.singleton_append, entry_cons]

/-- To set the field `name` in the middle of a record is to write the record with it. -/
theorem jsonb_set_middle {fields : List (String × Value)} {b' : β} {v : Value}
    (hname : name ∉ F.names)
    (h : (F.both ((Fields.fieldOr name c absent).both G)).write (a, b, g) = some fields)
    (hv : c.encode b' = some v) :
    ((F.both ((Fields.fieldOr name c absent).both G)).write (a, b', g)).map Value.Object =
      some (jsonb_set name v (.Object fields)) := by
  obtain ⟨pre, rest, hpre, hrest, rfl⟩ := Fields.write_both.mp h
  obtain ⟨xs, post, hxs, hpost, rfl⟩ := Fields.write_both.mp hrest
  obtain ⟨d, -, rfl⟩ := Fields.write_fieldOr.mp hxs
  have hmiddle : (Fields.fieldOr name c absent).write b' = some [(name, v)] :=
    Fields.write_fieldOr.mpr ⟨v, hv, rfl⟩
  have hwhole := Fields.write_both.mpr
    ⟨pre, _, hpre, Fields.write_both.mpr ⟨_, _, hmiddle, hpost, rfl⟩, rfl⟩
  rw [hwhole, Option.map_some]
  rw [← F.write_names hpre] at hname
  rw [jsonb_set, List.singleton_append, List.singleton_append, insertEntry_middle hname]

end

end marie.serde
