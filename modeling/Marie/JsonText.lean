-- What is read of a JSON that was written as a text. `serde_json` refuses a text that is nested
-- too deep, and it does not give every float back: the module says which values are read back as
-- they were, and that a type that `serde` writes notices a float that was not.
import Marie.Serde

namespace marie.serde

open Codecs Maps

/-! ## The reader -/

/-- `remaining_depth` of a `serde_json::Deserializer`. -/
def recursion_limit : Nat := 128

mutual

/-- How deep the arrays and the objects of a value are nested. -/
def depth : Value → Nat
  | .Array xs => all_depth xs + 1
  | .Object fields => fields_depth fields + 1
  | .Null | .Bool _ | .Number _ | .String _ => 0

def all_depth : List Value → Nat
  | [] => 0
  | v :: xs => max (depth v) (all_depth xs)

def fields_depth : List (String × Value) → Nat
  | [] => 0
  | (_, v) :: fields => max (depth v) (fields_depth fields)

end

mutual

/-- The floats of a value, each replaced by what `float` makes of it. -/
def map_floats (float : ℚ → Number) : Value → Value
  | .Number (.Float x) => .Number (float x)
  | .Array xs => .Array (all_map_floats float xs)
  | .Object fields => .Object (fields_map_floats float fields)
  | v => v

def all_map_floats (float : ℚ → Number) : List Value → List Value
  | [] => []
  | v :: xs => map_floats float v :: all_map_floats float xs

def fields_map_floats (float : ℚ → Number) : List (String × Value) → List (String × Value)
  | [] => []
  | (name, v) :: fields => (name, map_floats float v) :: fields_map_floats float fields

end

mutual

/-- The floats that a value holds. -/
def floats : Value → List ℚ
  | .Number (.Float x) => [x]
  | .Array xs => all_floats xs
  | .Object fields => fields_floats fields
  | _ => []

def all_floats : List Value → List ℚ
  | [] => []
  | v :: xs => floats v ++ all_floats xs

def fields_floats : List (String × Value) → List ℚ
  | [] => []
  | (_, v) :: fields => floats v ++ fields_floats fields

end

/-- What `serde_json` reads of the text of a value. An integer is read as it was written. `float` is
the number that the text of a float is read as: a float that is as large as 1e17 may have become
the digits of an integer on the way, and one that is read as a float may be a neighbour. -/
def reread (float : ℚ → Number) (v : Value) : Option Value :=
  if depth v < recursion_limit then some (map_floats float v) else none

/-- The text of a value is read as it: it is not nested too deep, and its floats are read as they
are. -/
def Exact (float : ℚ → Number) (v : Value) : Prop :=
  depth v < recursion_limit ∧ ∀ x ∈ floats v, float x = .Float x

variable {float : ℚ → Number} {v : Value}

mutual

theorem map_floats_eq_self : ∀ v : Value,
    map_floats float v = v ↔ ∀ x ∈ floats v, float x = .Float x
  | .Null | .Bool _ | .String _ | .Number (.PosInt _) | .Number (.NegInt _) => by
    simp [map_floats, floats]
  | .Number (.Float x) => by simp [map_floats, floats]
  | .Array xs => by
    rw [map_floats, floats, Value.Array.injEq, all_map_floats_eq_self xs]
  | .Object fields => by
    rw [map_floats, floats, Value.Object.injEq, fields_map_floats_eq_self fields]

theorem all_map_floats_eq_self : ∀ xs : List Value,
    all_map_floats float xs = xs ↔ ∀ x ∈ all_floats xs, float x = .Float x
  | [] => by simp [all_map_floats, all_floats]
  | v :: xs => by
    rw [all_map_floats, all_floats, List.cons.injEq, List.forall_mem_append,
      map_floats_eq_self v, all_map_floats_eq_self xs]

theorem fields_map_floats_eq_self : ∀ fields : List (String × Value),
    fields_map_floats float fields = fields ↔ ∀ x ∈ fields_floats fields, float x = .Float x
  | [] => by simp [fields_map_floats, fields_floats]
  | (name, v) :: fields => by
    rw [fields_map_floats, fields_floats, List.cons.injEq, Prod.mk.injEq, List.forall_mem_append,
      map_floats_eq_self v, fields_map_floats_eq_self fields]
    simp

end

theorem reread_of_exact (h : Exact float v) : reread float v = some v := by
  rw [reread, if_pos h.1, (map_floats_eq_self v).mpr h.2]

/-- What is read back as it was, was not changed. -/
theorem exact_of_reread {v' : Value} (h : reread float v = some v')
    (hsame : map_floats float v = v) : Exact float v := by
  unfold reread at h
  split at h
  · rename_i hdepth
    exact ⟨hdepth, (map_floats_eq_self v).mp hsame⟩
  · cases h

theorem reread_eq_some {v' : Value} (h : reread float v = some v') : v' = map_floats float v := by
  unfold reread at h
  split at h
  · exact (Option.some.inj h).symm
  · cases h

/-! ## Types that notice a float -/

@[simp] theorem map_floats_array (xs : List Value) :
    map_floats float (.Array xs) = .Array (xs.map (map_floats float)) := by
  rw [map_floats]
  congr 1
  induction xs with
  | nil => rfl
  | cons v xs ih => rw [all_map_floats, List.map_cons, ih]

@[simp] theorem map_floats_object (fields : List (String × Value)) :
    map_floats float (.Object fields) =
      .Object (fields.map (Prod.map id (map_floats float))) := by
  rw [map_floats]
  congr 1
  induction fields with
  | nil => rfl
  | cons p fields ih =>
    obtain ⟨name, v⟩ := p
    rw [fields_map_floats, List.map_cons, ih]
    rfl

section

variable {α β : Type}

/-- Data without a float. -/
theorem notices_fixed {c : Serde α} {a : α} {d : Value} (henc : c.encode a = some d)
    (hd : map_floats float d = d) : c.Notices (map_floats float) a := by
  intro d' hd' _
  obtain rfl := Option.some.inj (henc.symm.trans hd')
  exact hd

@[simp] theorem notices_json (v : Value) : json.Notices (map_floats float) v := by
  rintro _ ⟨⟩ hdec
  exact Option.some.inj hdec

@[simp] theorem notices_string (s : String) : string.Notices (map_floats float) s :=
  notices_fixed rfl rfl

@[simp] theorem notices_bool (b : Bool) : bool.Notices (map_floats float) b :=
  notices_fixed rfl rfl

@[simp] theorem notices_u8 (n : UInt8) : u8.Notices (map_floats float) n :=
  notices_fixed rfl rfl

@[simp] theorem notices_u32 (n : UInt32) : u32.Notices (map_floats float) n :=
  notices_fixed rfl rfl

@[simp] theorem notices_u64 (n : UInt64) : u64.Notices (map_floats float) n :=
  notices_fixed rfl rfl

@[simp] theorem notices_identifier (i : ID) : identifier.Notices (map_floats float) i :=
  notices_fixed rfl rfl

theorem notices_option {c : Serde α} {o : Option α}
    (hc : ∀ a, o = some a → c.Notices (map_floats float) a) :
    (option c).Notices (map_floats float) o := by
  intro d henc hdec
  cases o with
  | none =>
    obtain rfl := Option.some.inj henc
    rfl
  | some a =>
    have hread : c.decode (map_floats float d) = some a := by
      cases hd : map_floats float d with
      | Null =>
        rw [hd] at hdec
        cases hdec
      | _ =>
        rw [hd] at hdec
        obtain ⟨a', ha, heq⟩ := Option.map_eq_some_iff.mp hdec
        rw [ha, Option.some.inj heq]
    exact hc a rfl d henc hread

@[simp] theorem notices_seq {c : Serde α} {as : List α}
    (hc : ∀ a ∈ as, c.Notices (map_floats float) a) : (seq c).Notices (map_floats float) as := by
  intro d henc hdec
  obtain ⟨vs, hvs, rfl⟩ := Option.map_eq_some_iff.mp henc
  rw [map_floats_array] at hdec ⊢
  rw [Codec.mapM_notices hc hvs hdec]

theorem notices_pair {κ : Type} {key : Key κ} {c : Serde α} {e : κ × α}
    (hc : c.Notices (map_floats float) e.2) :
    (pair key c).Notices (Prod.map id (map_floats float)) e := by
  intro p henc hdec
  obtain ⟨v, hv, rfl⟩ := Option.map_eq_some_iff.mp henc
  simp only [pair, Prod.map_apply, id, key.parse_text, Option.bind_eq_bind,
    Option.bind_some] at hdec
  obtain ⟨a, ha, heq⟩ := Option.bind_eq_some_iff.mp hdec
  have hsnd : a = e.2 := congrArg Prod.snd (Option.some.inj heq)
  rw [hsnd] at ha
  rw [Prod.map_apply, hc v hv ha, id]

@[simp] theorem notices_map {κ : Type} [DecidableEq κ] {key : Key κ} {c : Serde α}
    {m : Entries κ α} (hc : ∀ e ∈ m.entries, c.Notices (map_floats float) e.2) :
    (map key c).Notices (map_floats float) m := by
  intro d henc hdec
  obtain ⟨fields, hfields, rfl⟩ := Option.map_eq_some_iff.mp henc
  rw [map_floats_object] at hdec ⊢
  obtain ⟨es, hes, hback⟩ := Option.map_eq_some_iff.mp hdec
  -- the keys are those that were written, so no entry that is read is dropped
  have hkeys : es.map (·.1) = m.entries.map (·.1) := by
    refine mapM_pair_parse ?_ hes
    rw [Fields.names_map, mapM_pair_keys hfields]
  have hsame : (Entries.ofList es).entries = es :=
    Entries.entries_foldl_insert (hkeys ▸ m.nodup)
  rw [hback] at hsame
  rw [← hsame] at hes
  rw [Codec.mapM_notices (fun e he => notices_pair (hc e he)) hfields hes]

@[simp] theorem notices_field {name : String} {c : Serde α} {absent : Option α} {a : α}
    (hc : c.Notices (map_floats float) a) :
    (Fields.fieldOr name c absent).Notices (map_floats float) a := Fields.notices_fieldOr hc

theorem notices_record {F : Fields Jsonb α} {hnames : ∀ n ∈ F.names, no_nul n = true} {a : α}
    (hF : F.Notices (map_floats float) a) : (record F hnames).Notices (map_floats float) a := by
  intro d henc hdec
  obtain ⟨fields, hfields, rfl⟩ := Option.map_eq_some_iff.mp henc
  rw [map_floats_object] at hdec ⊢
  rw [hF fields hfields hdec]

theorem notices_external {e : Serde β} {c : Serde α} {f : α → β} (name : String)
    (hf : Function.Injective f) {a : α} (henc : e.encode (f a) = (c.encode a).map (variant name))
    (hdec : ∀ v, e.decode (variant name v) = (c.decode v).map f)
    (hc : c.Notices (map_floats float) a) : e.Notices (map_floats float) (f a) := by
  refine Codec.notices_variant (variant name) ?_ hf henc hdec hc
  intro d
  simp [variant]

theorem untagged_map_floats {tag : String} (h : Untagged tag v) :
    Untagged tag (map_floats float v) := by
  obtain ⟨fields, rfl, htag⟩ := h
  refine ⟨_, map_floats_object fields, ?_⟩
  rwa [Fields.names_map]

theorem notices_internal {e : Serde β} {c : Serde α} {f : α → β} (tag name : String)
    (hf : Function.Injective f) {a : α} (hcontent : ∀ v, c.encode a = some v → Untagged tag v)
    (henc : e.encode (f a) = (c.encode a).bind (with_tag tag name))
    (hdec : ∀ v v', read_tag tag v' = some (name, v) → e.decode v' = (c.decode v).map f)
    (hc : c.Notices (map_floats float) a) : e.Notices (map_floats float) (f a) := by
  intro d' hd' hback
  rw [henc] at hd'
  obtain ⟨d, hd, htag⟩ := Option.bind_eq_some_iff.mp hd'
  have huntagged := hcontent d hd
  obtain ⟨fields, rfl, -⟩ := huntagged
  have hchanged : with_tag tag name (map_floats float (.Object fields)) =
      some (map_floats float d') := by
    obtain rfl := Option.some.inj htag
    rw [map_floats_object, map_floats_object]
    rfl
  rw [hdec _ _ (read_tag_with_tag (untagged_map_floats (hcontent _ hd)) hchanged)] at hback
  obtain ⟨b, hb, heq⟩ := Option.map_eq_some_iff.mp hback
  rw [hf heq] at hb
  rw [hc _ hd hb, htag] at hchanged
  exact (Option.some.inj hchanged).symm

end

end marie.serde
