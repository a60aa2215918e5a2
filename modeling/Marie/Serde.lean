-- What `serde` derives, over the JSON values: how the types of the standard
-- library, the records and the enumerations are written and read back, and
-- which of them a `jsonb` column takes.
import Mathlib.Data.Nat.Basic
import Marie.Basic
import Marie.Id
import Marie.Lib.Codec
import Marie.Lib.Entries

namespace marie.serde

open Codecs Maps

/-! ## The column -/

/-- A `jsonb` holds no NUL, neither in a string nor in a key. -/
def no_nul (s : String) : Bool := s.toList.all (· ≠ Char.ofNat 0)

mutual

def is_jsonb : Value → Bool
  | .String s => no_nul s
  | .Array xs => all_jsonb xs
  | .Object fields => fields_jsonb fields
  | .Null | .Bool _ | .Number _ => true

def all_jsonb : List Value → Bool
  | [] => true
  | v :: xs => is_jsonb v && all_jsonb xs

def fields_jsonb : List (String × Value) → Bool
  | [] => true
  | (name, v) :: fields => no_nul name && is_jsonb v && fields_jsonb fields

end

/-- A `jsonb` column takes the value. -/
def Jsonb (v : Value) : Prop := is_jsonb v = true

theorem Jsonb.ne_false {v : Value} (h : Jsonb v) : is_jsonb v ≠ false := by
  rw [h]
  decide

theorem jsonb_array {xs : List Value} : Jsonb (.Array xs) ↔ ∀ v ∈ xs, Jsonb v := by
  unfold Jsonb
  rw [is_jsonb]
  induction xs with
  | nil => simp [all_jsonb]
  | cons v xs ih => simp [all_jsonb, ih]

theorem jsonb_object {fields : List (String × Value)} :
    Jsonb (.Object fields) ↔ ∀ p ∈ fields, no_nul p.1 = true ∧ Jsonb p.2 := by
  unfold Jsonb
  rw [is_jsonb]
  induction fields with
  | nil => simp [fields_jsonb]
  | cons p fields ih =>
    obtain ⟨name, v⟩ := p
    simp [fields_jsonb, ih]

/-- `Serialize` and `Deserialize` of a type, through JSON. -/
abbrev Serde (α : Type) := Codec Jsonb α

/-! ## Plain values -/

def json : Serde Value where
  encode := some
  decode := some
  Fits := Jsonb
  fits_iff := by
    rintro v _ ⟨⟩
    rfl

@[simp] theorem lossless_json (v : Value) : json.Lossless v := ⟨v, rfl, rfl⟩

def string : Serde String where
  encode s := some (.String s)
  decode
    | .String s => some s
    | _ => none
  Fits s := no_nul s = true
  fits_iff := by
    rintro s _ ⟨⟩
    rfl

@[simp] theorem lossless_string (s : String) : string.Lossless s := ⟨_, rfl, rfl⟩

def bool : Serde Bool where
  encode b := some (.Bool b)
  decode
    | .Bool b => some b
    | _ => none
  Fits _ := True
  fits_iff := by
    rintro b _ ⟨⟩
    exact iff_of_true rfl trivial

@[simp] theorem lossless_bool (b : Bool) : bool.Lossless b := ⟨_, rfl, rfl⟩

/-- An unsigned integer: a number below `bound`. -/
def unsigned {α : Type} (bound : Nat) (to_nat : α → Nat) (of_nat : Nat → α) : Serde α where
  encode a := some (.Number (.PosInt (to_nat a)))
  decode
    | .Number (.PosInt n) => if n < bound then some (of_nat n) else none
    | _ => none
  Fits _ := True
  fits_iff := by
    rintro a _ ⟨⟩
    exact iff_of_true rfl trivial

theorem lossless_unsigned {α : Type} {bound : Nat} {to_nat : α → Nat} {of_nat : Nat → α} {a : α}
    (hlt : to_nat a < bound) (hback : of_nat (to_nat a) = a) :
    (unsigned bound to_nat of_nat).Lossless a := by
  refine ⟨_, rfl, ?_⟩
  simp [unsigned, hlt, hback]

def u8 : Serde UInt8 := unsigned (2 ^ 8) UInt8.toNat UInt8.ofNat

def u32 : Serde UInt32 := unsigned (2 ^ 32) UInt32.toNat UInt32.ofNat

def u64 : Serde UInt64 := unsigned (2 ^ 64) UInt64.toNat UInt64.ofNat

@[simp] theorem lossless_u8 (n : UInt8) : u8.Lossless n :=
  lossless_unsigned n.toNat_lt UInt8.ofNat_toNat

@[simp] theorem lossless_u32 (n : UInt32) : u32.Lossless n :=
  lossless_unsigned n.toNat_lt UInt32.ofNat_toNat

@[simp] theorem lossless_u64 (n : UInt64) : u64.Lossless n :=
  lossless_unsigned n.toNat_lt UInt64.ofNat_toNat

theorem digitChar_ne_nul : ∀ d < 16, Nat.digitChar d ≠ Char.ofNat 0 := by decide

theorem no_nul_id (id : ID) : no_nul id.to_string = true := by
  have hdigits : ∀ k n, ∀ c ∈ hex_digits k n, c ≠ Char.ofNat 0 := by
    intro k n c hc
    obtain ⟨i, -, rfl⟩ := List.mem_map.mp hc
    exact digitChar_ne_nul _ (Nat.mod_lt _ (by omega))
  unfold no_nul ID.to_string
  rw [String.toList_ofList, List.all_eq_true]
  intro c hc
  rw [decide_eq_true_eq]
  rcases List.mem_append.mp hc with hc | hc
  · exact hdigits 16 _ c hc
  · exact hdigits 16 _ c hc

def identifier : Serde ID where
  encode i := some (.String i.to_string)
  decode
    | .String s => ID.from_str s
    | _ => none
  Fits _ := True
  fits_iff := by
    rintro i _ ⟨⟩
    exact iff_of_true (no_nul_id i) trivial

theorem identifier_decode (text : String) : identifier.decode (.String text) = ID.from_str text := rfl

@[simp] theorem lossless_identifier (i : ID) : identifier.Lossless i := by
  refine ⟨.String i.to_string, rfl, ?_⟩
  rw [identifier_decode, ID.from_str_to_string]

/-! ## Options and lists -/

section

variable {α : Type}

/-- `Option`: nothing is written `null`, so a content that is written `null` is nothing. -/
def option (c : Serde α) : Serde (Option α) where
  encode
    | none => some .Null
    | some a => c.encode a
  decode
    | .Null => some none
    | v => (c.decode v).map some
  Fits
    | none => True
    | some a => c.Fits a
  fits_iff := by
    intro o v h
    cases o with
    | none =>
      cases h
      exact iff_of_true rfl trivial
    | some a => exact c.fits_iff h

@[simp] theorem lossless_none {c : Serde α} : (option c).Lossless none := ⟨_, rfl, rfl⟩

@[simp] theorem lossless_some {c : Serde α} {a : α} :
    (option c).Lossless (some a) ↔ c.Lossless a ∧ c.encode a ≠ some .Null := by
  have hdec : ∀ v, v ≠ .Null → (option c).decode v = (c.decode v).map some := by
    intro v hv
    cases v <;> first | rfl | exact absurd rfl hv
  constructor
  · rintro ⟨v, henc, hback⟩
    have hne : v ≠ .Null := by
      rintro rfl
      cases hback
    rw [hdec v hne] at hback
    obtain ⟨a', ha, heq⟩ := Option.map_eq_some_iff.mp hback
    obtain rfl := Option.some.inj heq
    refine ⟨⟨v, henc, ha⟩, ?_⟩
    intro hnull
    exact hne (Option.some.inj (henc.symm.trans hnull))
  · rintro ⟨⟨v, henc, hback⟩, hnull⟩
    have hne : v ≠ .Null := by
      rintro rfl
      exact hnull henc
    exact ⟨v, henc, by rw [hdec v hne, hback, Option.map_some]⟩

def seq (c : Serde α) : Serde (List α) where
  encode as := (as.mapM c.encode).map .Array
  decode
    | .Array vs => vs.mapM c.decode
    | _ => none
  Fits as := ∀ a ∈ as, c.Fits a
  fits_iff := by
    intro as v h
    obtain ⟨vs, hvs, rfl⟩ := Option.map_eq_some_iff.mp h
    rw [jsonb_array, Codec.mapM_fits hvs]

@[simp] theorem lossless_seq {c : Serde α} {as : List α} :
    (seq c).Lossless as ↔ ∀ a ∈ as, c.Lossless a := by
  rw [← Codec.mapM_lossless]
  constructor
  · rintro ⟨v, henc, hdec⟩
    obtain ⟨vs, hvs, rfl⟩ := Option.map_eq_some_iff.mp henc
    exact ⟨vs, hvs, hdec⟩
  · rintro ⟨vs, hvs, hdec⟩
    exact ⟨.Array vs, by simp [seq, hvs], hdec⟩

end

/-! ## Maps -/

/-- The text of a key, and how it is read. -/
structure Key (κ : Type) where
  text : κ → String
  parse : String → Option κ
  parse_text : ∀ k, parse (text k) = some k

section

variable {κ α : Type}

/-- One entry of an object. -/
def pair (key : Key κ) (c : Serde α) :
    Codec (fun p : String × Value => no_nul p.1 = true ∧ Jsonb p.2) (κ × α) where
  encode e := (c.encode e.2).map (key.text e.1, ·)
  decode p := do
    let k ← key.parse p.1
    let a ← c.decode p.2
    some (k, a)
  Fits e := no_nul (key.text e.1) = true ∧ c.Fits e.2
  fits_iff := by
    intro e p h
    obtain ⟨v, hv, rfl⟩ := Option.map_eq_some_iff.mp h
    rw [c.fits_iff hv]

theorem lossless_pair {key : Key κ} {c : Serde α} {e : κ × α} :
    (pair key c).Lossless e ↔ c.Lossless e.2 := by
  constructor
  · rintro ⟨p, henc, hdec⟩
    obtain ⟨v, hv, rfl⟩ := Option.map_eq_some_iff.mp henc
    simp only [pair, key.parse_text, Option.bind_eq_bind, Option.bind_some] at hdec
    obtain ⟨a, ha, heq⟩ := Option.bind_eq_some_iff.mp hdec
    have hsnd : a = e.2 := congrArg Prod.snd (Option.some.inj heq)
    exact ⟨v, hv, by rw [ha, hsnd]⟩
  · rintro ⟨v, hv, hback⟩
    exact ⟨(key.text e.1, v), by simp [pair, hv], by simp [pair, key.parse_text, hback]⟩

theorem mapM_pair_keys {key : Key κ} {c : Serde α} {es : List (κ × α)}
    {fields : List (String × Value)} (h : es.mapM (pair key c).encode = some fields) :
    fields.map (·.1) = es.map fun e => key.text e.1 := by
  induction es generalizing fields with
  | nil =>
    cases h
    rfl
  | cons e es ih =>
    rw [List.mapM_cons] at h
    obtain ⟨p, hp, h⟩ := Option.bind_eq_some_iff.mp h
    obtain ⟨fields', hf, h⟩ := Option.bind_eq_some_iff.mp h
    obtain rfl := Option.some.inj h
    obtain ⟨v, -, rfl⟩ := Option.map_eq_some_iff.mp hp
    rw [List.map_cons, List.map_cons, ih hf]

/-- The keys that are read back are those that were written. -/
theorem mapM_pair_parse {key : Key κ} {c : Serde α} {es es' : List (κ × α)}
    {fields : List (String × Value)} (hkeys : fields.map (·.1) = es.map fun e => key.text e.1)
    (h : fields.mapM (pair key c).decode = some es') : es'.map (·.1) = es.map (·.1) := by
  induction es generalizing fields es' with
  | nil =>
    obtain rfl := List.map_eq_nil_iff.mp hkeys
    cases h
    rfl
  | cons e es ih =>
    obtain ⟨p, fields', rfl, hp, hrest⟩ := List.map_eq_cons_iff.mp hkeys
    rw [List.mapM_cons] at h
    obtain ⟨e', he, h⟩ := Option.bind_eq_some_iff.mp h
    obtain ⟨es'', hes, h⟩ := Option.bind_eq_some_iff.mp h
    obtain rfl := Option.some.inj h
    simp only [pair, hp, key.parse_text, Option.bind_eq_bind, Option.bind_some] at he
    obtain ⟨a, -, he⟩ := Option.bind_eq_some_iff.mp he
    obtain rfl := Option.some.inj he
    rw [List.map_cons, List.map_cons, ih hrest hes]

variable [DecidableEq κ]

/-- `HashMap`: the keys of an object are strings. -/
def map (key : Key κ) (c : Serde α) : Serde (Entries κ α) where
  encode m := (m.entries.mapM (pair key c).encode).map .Object
  decode
    | .Object fields => (fields.mapM (pair key c).decode).map Entries.ofList
    | _ => none
  Fits m := ∀ e ∈ m.entries, no_nul (key.text e.1) = true ∧ c.Fits e.2
  fits_iff := by
    intro m v h
    obtain ⟨fields, hfields, rfl⟩ := Option.map_eq_some_iff.mp h
    rw [jsonb_object, Codec.mapM_fits hfields]
    rfl

/-- A map is not written `null`. -/
theorem map_ne_null {key : Key κ} {c : Serde α} {m : Entries κ α} :
    (map key c).encode m ≠ some .Null := by
  intro h
  obtain ⟨fields, -, h⟩ := Option.map_eq_some_iff.mp h
  cases h

@[simp] theorem lossless_map {key : Key κ} {c : Serde α} {m : Entries κ α} :
    (map key c).Lossless m ↔ ∀ e ∈ m.entries, c.Lossless e.2 := by
  have hall : (∀ e ∈ m.entries, c.Lossless e.2) ↔ ∀ e ∈ m.entries, (pair key c).Lossless e := by
    simp only [lossless_pair]
  rw [hall, ← Codec.mapM_lossless]
  constructor
  · rintro ⟨v, henc, hdec⟩
    obtain ⟨fields, hfields, rfl⟩ := Option.map_eq_some_iff.mp henc
    obtain ⟨es, hes, hback⟩ := Option.map_eq_some_iff.mp hdec
    -- the entries that are read have no key twice, so none of them is dropped
    have hkeys := mapM_pair_parse (mapM_pair_keys hfields) hes
    have hnodup : (es.map (·.1)).Nodup := hkeys ▸ m.nodup
    have hsame : (Entries.ofList es).entries = es := Entries.entries_foldl_insert hnodup
    rw [hback] at hsame
    exact ⟨fields, hfields, by rw [hes, hsame]⟩
  · rintro ⟨fields, hfields, hdec⟩
    refine ⟨.Object fields, by simp [map, hfields], ?_⟩
    simp [map, hdec, Entries.ofList_entries]

end

/-- A key that is a string is its own text. -/
def string_key : Key String := ⟨fun k => k, some, fun _ => rfl⟩

/-- `u32` as the key of an object: its decimal digits. -/
def u32_key : Key UInt32 where
  text n := String.ofList (Nat.toDigits 10 n.toNat)
  parse s :=
    let n := Nat.ofDigitChars 10 s.toList 0
    if Nat.toDigits 10 n = s.toList ∧ n < 2 ^ 32 then some (UInt32.ofNat n) else none
  parse_text := by
    intro n
    have hlt : n.toNat < 4294967296 := n.toNat_lt
    simp [hlt]

/-! ## Records and enumerations -/

section

variable {α β : Type}

/-- A struct. -/
def record (F : Fields Jsonb α) (hnames : ∀ n ∈ F.names, no_nul n = true) : Serde α where
  encode a := (F.write a).map .Object
  decode
    | .Object fields => F.read fields
    | _ => none
  Fits := F.Fits
  fits_iff := by
    intro a v h
    obtain ⟨fields, hfields, rfl⟩ := Option.map_eq_some_iff.mp h
    rw [jsonb_object, ← F.fits_iff hfields]
    constructor
    · intro hall p hp
      exact (hall p hp).2
    · intro hall p hp
      refine ⟨hnames p.1 ?_, hall p hp⟩
      rw [← F.write_names hfields]
      exact List.mem_map_of_mem hp

@[simp] theorem lossless_record {F : Fields Jsonb α} {hnames : ∀ n ∈ F.names, no_nul n = true}
    {a : α} : (record F hnames).Lossless a ↔ F.Lossless a := by
  constructor
  · rintro ⟨v, henc, hdec⟩
    obtain ⟨fields, hfields, rfl⟩ := Option.map_eq_some_iff.mp henc
    exact ⟨fields, hfields, hdec⟩
  · rintro ⟨fields, hfields, hdec⟩
    exact ⟨.Object fields, by simp [record, hfields], hdec⟩

@[simp] theorem fits_record {F : Fields Jsonb α} {hnames : ∀ n ∈ F.names, no_nul n = true}
    {a : α} : (record F hnames).Fits a ↔ F.Fits a := Iff.rfl

/-- A struct is not written `null`. -/
theorem record_ne_null {F : Fields Jsonb α} {hnames : ∀ n ∈ F.names, no_nul n = true} {a : α} :
    (record F hnames).encode a ≠ some .Null := by
  intro h
  obtain ⟨fields, -, h⟩ := Option.map_eq_some_iff.mp h
  cases h

/-- A field that may be missing, as `serde` reads an `Option`. -/
def optional_field (name : String) (c : Serde α) : Fields Jsonb (Option α) :=
  .fieldOr name (option c) (some none)

theorem lossless_optional_field {name : String} {c : Serde α} {o : Option α}
    (hall : ∀ a, c.Lossless a) (hnull : ∀ a, c.encode a ≠ some .Null) :
    (optional_field name c).Lossless o := by
  rw [optional_field, Fields.lossless_fieldOr]
  cases o with
  | none => exact lossless_none
  | some a => exact lossless_some.mpr ⟨hall a, hnull a⟩

theorem lossless_optional_id {name : String} {o : Option ID} :
    (optional_field name identifier).Lossless o := by
  apply lossless_optional_field lossless_identifier
  rintro a ⟨⟩

/-- A variant with a content, in an externally tagged enumeration. -/
def variant (name : String) (content : Value) : Value := .Object [(name, content)]

/-- The variant of an externally tagged enumeration: one that is only a name, or one with a
content. -/
def read_variant : Value → Option (String × Option Value)
  | .String name => some (name, none)
  | .Object [(name, content)] => some (name, some content)
  | _ => none

theorem jsonb_variant {name : String} (hname : no_nul name = true) (content : Value) :
    Jsonb (variant name content) ↔ Jsonb content := by
  unfold variant
  rw [jsonb_object]
  simp [hname]

theorem lossless_external {e : Serde β} {c : Serde α} {f : α → β} (name : String)
    (hf : Function.Injective f) {a : α} (henc : e.encode (f a) = (c.encode a).map (variant name))
    (hdec : ∀ v, e.decode (variant name v) = (c.decode v).map f) :
    e.Lossless (f a) ↔ c.Lossless a :=
  Codec.lossless_variant (variant name) hf henc hdec

/-- The content of a variant of an internally tagged enumeration, with the tag put before its
fields. A content that is no object has no place for the tag: it is an error. -/
def with_tag (tag name : String) : Value → Option Value
  | .Object fields => some (.Object ((tag, .String name) :: fields))
  | _ => none

/-- The tag of an object, and the object without it. -/
def read_tag (tag : String) : Value → Option (String × Value)
  | .Object fields =>
    match entry tag fields with
    | some (.String name) => some (name, .Object (fields.filter (·.1 ≠ tag)))
    | _ => none
  | _ => none

/-- An object without the field `tag`. -/
def Untagged (tag : String) (v : Value) : Prop :=
  ∃ fields, v = .Object fields ∧ tag ∉ fields.map (·.1)

theorem read_tag_with_tag {tag name : String} {v v' : Value} (hv : Untagged tag v)
    (h : with_tag tag name v = some v') : read_tag tag v' = some (name, v) := by
  obtain ⟨fields, rfl, htag⟩ := hv
  obtain rfl := Option.some.inj h
  have hrest : fields.filter (·.1 ≠ tag) = fields := by
    rw [List.filter_eq_self]
    intro p hp
    rw [decide_eq_true_eq]
    rintro rfl
    exact htag (List.mem_map_of_mem hp)
  simp only [read_tag, entry_cons]
  rw [List.filter_cons_of_neg (by simp), hrest]

theorem jsonb_with_tag {tag name : String} (htag : no_nul tag = true) (hname : no_nul name = true)
    {v v' : Value} (h : with_tag tag name v = some v') : Jsonb v' ↔ Jsonb v := by
  cases v with
  | Object fields =>
    obtain rfl := Option.some.inj h
    have hstring : Jsonb (.String name) := hname
    rw [jsonb_object, jsonb_object, List.forall_mem_cons]
    simp [htag, hstring]
  | _ => cases h

theorem untagged_record {F : Fields Jsonb α} {hnames : ∀ n ∈ F.names, no_nul n = true} {a : α}
    {tag : String} (htag : tag ∉ F.names) {v : Value} (h : (record F hnames).encode a = some v) :
    Untagged tag v := by
  obtain ⟨fields, hfields, rfl⟩ := Option.map_eq_some_iff.mp h
  refine ⟨fields, rfl, ?_⟩
  rw [F.write_names hfields]
  exact htag

theorem lossless_internal {e : Serde β} {c : Serde α} {f : α → β} (tag name : String)
    (hf : Function.Injective f) {a : α} (hcontent : ∀ v, c.encode a = some v → Untagged tag v)
    (henc : e.encode (f a) = (c.encode a).bind (with_tag tag name))
    (hdec : ∀ v v', read_tag tag v' = some (name, v) → e.decode v' = (c.decode v).map f) :
    e.Lossless (f a) ↔ c.Lossless a := by
  unfold Codec.Lossless
  rw [henc]
  constructor
  · rintro ⟨v', hv', hback⟩
    obtain ⟨v, hv, htag⟩ := Option.bind_eq_some_iff.mp hv'
    rw [hdec v v' (read_tag_with_tag (hcontent v hv) htag)] at hback
    obtain ⟨b, hb, heq⟩ := Option.map_eq_some_iff.mp hback
    rw [hf heq] at hb
    exact ⟨v, hv, hb⟩
  · rintro ⟨v, hv, hback⟩
    have hread : ∀ v', with_tag tag name v = some v' → e.decode v' = some (f a) := by
      intro v' h
      rw [hdec v v' (read_tag_with_tag (hcontent v hv) h), hback, Option.map_some]
    obtain ⟨fields, rfl, -⟩ := hcontent v hv
    exact ⟨_, by rw [hv]; rfl, hread _ rfl⟩

theorem fits_internal {c : Serde α} {tag name : String} (htag : no_nul tag = true)
    (hname : no_nul name = true) {a : α} {v' : Value}
    (h : (c.encode a).bind (with_tag tag name) = some v') : Jsonb v' ↔ c.Fits a := by
  obtain ⟨v, hv, h⟩ := Option.bind_eq_some_iff.mp h
  rw [jsonb_with_tag htag hname h, c.fits_iff hv]

/-- A variant that is only a name. -/
theorem fits_unit {v v' : Value} (h : some v = some v') (hv : Jsonb v) : Jsonb v' ↔ True := by
  obtain rfl := Option.some.inj h
  exact iff_of_true hv trivial

end

end marie.serde
