-- What a variable holds after its file was edited. Writing begins at the first byte
-- of what is stored, whatever was asked for, and a text that is JSON is not kept as
-- a text.
import Mathlib.Data.List.Induction
import Marie.Persistency.Var

namespace marie.var

open Maps Texts Utf8

variable {json : Json}

/-! ## JSON texts -/

/-- What JSON texts are: none is empty, none begins or ends with an `x`, a string has its quotes,
and no blank is written around a value. -/
structure Json.Lawful (json : Json) : Prop where
  empty : json.from_str [] = none
  first : ∀ text, json.from_str ('x' :: text) = none
  last : ∀ text, json.from_str (text ++ ['x']) = none
  quoted : ∀ text value, json.from_str text = some (.String value) →
    value.toList.length + 2 ≤ text.length
  written : ∀ v text, json.to_vec v = some text → trim text = text

/-- A text is kept if it is no JSON, and any other value if its JSON is read back. -/
def Keeps (json : Json) : Value → Prop
  | .String text => json.from_str (trim text.toList) = none
  | other => json.from_str ((json.to_vec other).getD []) = some other

/-- The options allow to write. -/
def OpenOptions.Writes (options : OpenOptions) : Prop :=
  (options.write || options.append || options.create || options.create_new) = true

/-- A file that is not there is made. -/
def OpenOptions.Makes (options : OpenOptions) : Prop :=
  (options.create || options.create_new || options.write) = true

/-! ## A value -/

theorem decode_utf8 (text : List Char) : decode_value json (utf8 text) =
    (json.from_str (trim text)).getD (.String (String.ofList text)) := by
  unfold decode_value
  rw [from_utf8_lossy_utf8]

theorem trim_written (h : json.Lawful) (v : Value) :
    trim ((json.to_vec v).getD []) = (json.to_vec v).getD [] := by
  cases htext : json.to_vec v with
  | none => simp [trim]
  | some text => exact h.written v text htext

/-- A text is read back as it is, but for one that is JSON. -/
theorem decode_encode_string (h : json.Lawful) (text : String) :
    decode_value json (encode_value json (.String text)) = .String text ↔
      Keeps json (.String text) := by
  rw [encode_value, decode_utf8, Keeps, String.ofList_toList]
  cases hread : json.from_str (trim text.toList) with
  | none => simp
  | some w =>
    simp only [Option.getD_some, reduceCtorEq, iff_false]
    rintro rfl
    have hquoted := h.quoted _ _ hread
    have htrim := length_trim_le text.toList
    omega

theorem decode_encode_json (h : json.Lawful) {v : Value} (hv : ∀ text, v ≠ .String text)
    (hencode : encode_value json v = utf8 ((json.to_vec v).getD [])) :
    decode_value json (encode_value json v) = v ↔
      json.from_str ((json.to_vec v).getD []) = some v := by
  rw [hencode, decode_utf8, trim_written h]
  cases hread : json.from_str ((json.to_vec v).getD []) with
  | none =>
    simp only [Option.getD_none, reduceCtorEq, iff_false]
    exact fun heq => hv _ heq.symm
  | some w => simp

theorem decode_encode_iff (h : json.Lawful) (v : Value) :
    decode_value json (encode_value json v) = v ↔ Keeps json v := by
  cases v with
  | String text => exact decode_encode_string h text
  | Null => exact decode_encode_json h (by simp) rfl
  | Bool b => exact decode_encode_json h (by simp) rfl
  | Number n => exact decode_encode_json h (by simp) rfl
  | Array xs => exact decode_encode_json h (by simp) rfl
  | Object fields => exact decode_encode_json h (by simp) rfl

/-- Every value is written as some text. -/
theorem exists_text (json : Json) (v : Value) : ∃ text, encode_value json v = utf8 text := by
  cases v with
  | String text => exact ⟨_, rfl⟩
  | Null => exact ⟨_, rfl⟩
  | Bool b => exact ⟨_, rfl⟩
  | Number n => exact ⟨_, rfl⟩
  | Array xs => exact ⟨_, rfl⟩
  | Object fields => exact ⟨_, rfl⟩

/-! ## An edition -/

theorem poll_write_eq {d : VarDescriptor} (hwrite : d.write = true)
    (hposition : d.position ≤ d.data.length) (buf : List UInt8) :
    d.poll_write buf = .ok
      { d with
        data := d.data.take d.position ++ buf ++ d.data.drop (d.position + buf.length)
        position := d.position + buf.length } := by
  have hgap : d.position - d.data.length = 0 := by omega
  simp [VarDescriptor.poll_write, hwrite, hgap]

/-- The chunks go over the bytes that were there, one after the other. -/
theorem foldlM_poll_write (chunks : List (List UInt8)) {d : VarDescriptor} (hwrite : d.write = true)
    (hposition : d.position ≤ d.data.length) :
    chunks.foldlM (fun d buf => VarDescriptor.poll_write buf d) d = .ok
      { d with
        data := d.data.take d.position ++ chunks.flatten ++
          d.data.drop (d.position + chunks.flatten.length)
        position := d.position + chunks.flatten.length } := by
  induction chunks generalizing d with
  | nil =>
    obtain ⟨data, position, write, key⟩ := d
    simp [pure, Except.pure]
  | cons buf chunks ih =>
    have hlater := ih (d := { d with
      data := d.data.take d.position ++ buf ++ d.data.drop (d.position + buf.length)
      position := d.position + buf.length }) hwrite (by simp; omega)
    rw [List.foldlM_cons, poll_write_eq hwrite hposition]
    simp only [bind, Except.bind] at hlater ⊢
    rw [hlater]
    have htake : (d.data.take d.position ++ buf).length = d.position + buf.length := by
      rw [List.length_append, List.length_take, Nat.min_eq_left hposition]
    simp only [List.flatten_cons, List.length_append, Except.ok.injEq, VarDescriptor.mk.injEq,
      and_true]
    refine ⟨?_, by omega⟩
    rw [List.take_left' htake, List.drop_append, htake]
    have hdrop : (d.data.take d.position ++ buf).drop
        (d.position + buf.length + chunks.flatten.length) = [] := by
      apply List.drop_eq_nil_of_le
      omega
    rw [hdrop, List.nil_append, List.drop_drop]
    simp only [List.append_assoc]
    congr 4
    omega

/-- The bytes that are stored at a path. -/
def stored (json : Json) (path : Path) (store : VarStore) : List UInt8 :=
  ((store.find (path_to_key path)).map (encode_value json)).getD []

/-- An edition leaves what it writes, and what was stored after as many bytes. -/
theorem edit_eq {path : Path} {options : OpenOptions} {store : VarStore}
    (hwrites : options.Writes)
    (hopens : (store.find (path_to_key path)).isSome ∨ options.Makes)
    (chunks : List (List UInt8)) : edit json path options chunks store = .ok
      (store.insert (path_to_key path, decode_value json
        (chunks.flatten ++ (stored json path store).drop chunks.flatten.length))) := by
  have hfound : ((store.find (path_to_key path)).isNone &&
      !(options.create || options.create_new || options.write)) = false := by
    rcases hopens with hsome | hmakes
    · rw [Option.isNone_eq_false_iff.mpr hsome, Bool.false_and]
    · rw [show (options.create || options.create_new || options.write) = true from hmakes]
      simp
  unfold edit open_file
  simp only [hfound, Bool.false_eq_true, if_false, bind, Except.bind]
  rw [foldlM_poll_write chunks (by exact hwrites) (Nat.zero_le _)]
  simp only [VarDescriptor.poll_shutdown]
  rw [show (options.write || options.append || options.create || options.create_new) = true
    from hwrites]
  simp [stored]

/-! ## What is saved -/

/-- After the edition the variable has this value. -/
def Saves (json : Json) (path : Path) (options : OpenOptions) (chunks : List (List UInt8))
    (store : VarStore) (v : Value) : Prop :=
  ∃ store', edit json path options chunks store = .ok store' ∧
    store'.find (path_to_key path) = some v

theorem saves_iff {path : Path} {options : OpenOptions} {store : VarStore} {v : Value}
    {chunks : List (List UInt8)} (hwrites : options.Writes)
    (hopens : (store.find (path_to_key path)).isSome ∨ options.Makes) :
    Saves json path options chunks store v ↔ decode_value json
      (chunks.flatten ++ (stored json path store).drop chunks.flatten.length) = v := by
  unfold Saves
  rw [edit_eq hwrites hopens]
  simp

/-- A text that begins or ends with an `x` is kept as a text. -/
theorem decode_of_x (h : json.Lawful) {text rest : List Char}
    (htext : text = 'x' :: rest ∨ text = rest ++ ['x']) :
    (json.from_str (trim text)).getD (.String (String.ofList text)) =
      .String (String.ofList text) := by
  have hblank : is_whitespace 'x' = false := by decide
  rcases htext with rfl | rfl
  · obtain ⟨rest', htrim⟩ := trim_cons hblank rest
    rw [htrim, h.first, Option.getD_none]
  · obtain ⟨rest', htrim⟩ := trim_concat hblank rest
    rw [htrim, h.last, Option.getD_none]

theorem length_le_utf8 (text : List Char) : text.length ≤ (utf8 text).length := by
  induction text with
  | nil => simp
  | cons c text ih =>
    have hpos := c.utf8Size_pos
    unfold utf8 at ih ⊢
    rw [List.flatMap_cons, List.length_append, String.length_utf8EncodeChar, List.length_cons]
    omega

theorem length_utf8_x (n : Nat) : (utf8 (List.replicate n 'x')).length = n := by
  have hchar : (String.utf8EncodeChar 'x').length = 1 := by decide
  induction n with
  | zero => simp [utf8]
  | succ n ih =>
    unfold utf8 at ih ⊢
    rw [List.replicate_succ, List.flatMap_cons, List.length_append, hchar, ih]
    omega

theorem ofList_inj {as bs : List Char}
    (h : Value.String (String.ofList as) = .String (String.ofList bs)) : as = bs := by
  have htexts := congrArg String.toList (Value.String.inj h)
  rwa [String.toList_ofList, String.toList_ofList] at htexts

/-- Over stored bytes some contents are not what is left: nothing at all, or an `x`. -/
theorem exists_content_not_kept (h : json.Lawful) {text : List Char} (hne : text ≠ []) :
    ∃ content, decode_value json (content ++ (utf8 text).drop content.length) ≠
      decode_value json content := by
  cases hold : utf8 text with
  | nil => exact absurd (utf8_eq_nil.mp hold) hne
  | cons b rest =>
    cases rest with
    | nil =>
      refine ⟨[], ?_⟩
      have hlength := length_le_utf8 text
      rw [hold, List.length_singleton] at hlength
      have hnothing : decode_value json [] = .String (String.ofList []) := by
        simp [decode_value, from_utf8_lossy, lossy, trim, h.empty]
      rw [List.nil_append, List.length_nil, List.drop_zero, ← hold, decode_utf8, hnothing]
      cases hread : json.from_str (trim text) with
      | none =>
        rw [Option.getD_none]
        exact fun heq => hne (ofList_inj heq)
      | some w =>
        rw [Option.getD_some]
        rintro rfl
        have hquoted := h.quoted _ _ hread
        have htrim := length_trim_le text
        omega
    | cons b' rest =>
      refine ⟨utf8 ['x'], ?_⟩
      have hx : (utf8 ['x']).length = 1 := length_utf8_x 1
      rw [hx, List.drop_one, List.tail_cons, decode_utf8, decode_of_x h (.inl rfl), decode_value,
        from_utf8_lossy_append, List.singleton_append, decode_of_x h (.inl rfl)]
      intro heq
      have htail := ofList_inj heq
      exact from_utf8_lossy_ne_nil (List.cons_ne_nil b' rest) (List.cons.inj htail).2

/-- As many bytes as are stored are written over them, and not after them. -/
theorem exists_content_not_appended (h : json.Lawful) {text : List Char} (hne : text ≠ []) :
    ∃ content, decode_value json (content ++ (utf8 text).drop content.length) ≠
      decode_value json (utf8 text ++ content) := by
  obtain ⟨n, hn⟩ : ∃ n, (utf8 text).length = n + 1 := by
    apply Nat.exists_eq_succ_of_ne_zero
    intro hlength
    exact hne (utf8_eq_nil.mp (List.length_eq_zero_iff.mp hlength))
  refine ⟨utf8 (List.replicate (n + 1) 'x'), ?_⟩
  have hfirst : List.replicate (n + 1) 'x' = 'x' :: List.replicate n 'x' := List.replicate_succ
  have hlast : text ++ List.replicate (n + 1) 'x' = (text ++ List.replicate n 'x') ++ ['x'] := by
    rw [List.replicate_succ', List.append_assoc]
  have hdrop : (utf8 text).drop (n + 1) = [] := by rw [← hn, List.drop_length]
  rw [length_utf8_x, hdrop, List.append_nil, decode_utf8, decode_of_x h (.inl hfirst),
    ← utf8_append, decode_utf8, decode_of_x h (.inr hlast)]
  intro heq
  have hlength := congrArg List.length (ofList_inj heq)
  rw [List.length_append] at hlength
  exact hne (List.length_eq_zero_iff.mp (by omega))

/-! ## The editions -/

section Editions

variable {path : Path} {options : OpenOptions} {store : VarStore} {v : Value}

/-- Where something is stored, the file is opened with its bytes. -/
theorem saves_over_iff (hfind : store.find (path_to_key path) = some v)
    (hwrites : options.Writes) (chunks : List (List UInt8)) (w : Value) :
    Saves json path options chunks store w ↔ decode_value json
      (chunks.flatten ++ (encode_value json v).drop chunks.flatten.length) = w := by
  rw [saves_iff hwrites (.inl (by rw [hfind]; simp)), stored, hfind, Option.map_some,
    Option.getD_some]

/-- What is asked of every content is saved exactly when nothing is stored, if it is so over no byte
and some content is another value over the bytes of a text. -/
theorem saves_asked_iff (hfind : store.find (path_to_key path) = some v) (hwrites : options.Writes)
    (asked : List UInt8 → Value)
    (hempty : encode_value json v = [] → ∀ content, asked content = decode_value json content)
    (hlost : ∀ text, text ≠ [] → encode_value json v = utf8 text → ∃ content,
      decode_value json (content ++ (utf8 text).drop content.length) ≠ asked content) :
    (∀ chunks : List (List UInt8), Saves json path options chunks store (asked chunks.flatten)) ↔
      encode_value json v = [] := by
  simp only [saves_over_iff hfind hwrites]
  constructor
  · intro hall
    obtain ⟨text, htext⟩ := exists_text json v
    by_contra hne
    rw [htext] at hne
    obtain ⟨content, hcontent⟩ := hlost text (fun hnil => hne (utf8_eq_nil.mpr hnil)) htext
    have hchunk := hall [content]
    rw [List.flatten_singleton, htext] at hchunk
    exact hcontent hchunk
  · intro hnil chunks
    rw [hnil, List.drop_nil, List.append_nil, hempty hnil]

theorem truncation_iff (h : json.Lawful) (hfind : store.find (path_to_key path) = some v)
    (hwrites : options.Writes) :
    (∀ chunks : List (List UInt8),
      Saves json path options chunks store (decode_value json chunks.flatten)) ↔
        encode_value json v = [] := by
  apply saves_asked_iff hfind hwrites (decode_value json)
  · exact fun _ _ => rfl
  · exact fun text hne _ => exists_content_not_kept h hne

theorem appending_iff (h : json.Lawful) (hfind : store.find (path_to_key path) = some v)
    (hwrites : options.Writes) :
    (∀ chunks : List (List UInt8), Saves json path options chunks store
      (decode_value json (encode_value json v ++ chunks.flatten))) ↔ encode_value json v = [] := by
  apply saves_asked_iff hfind hwrites fun content => decode_value json (encode_value json v ++ content)
  · intro hnil content
    rw [hnil, List.nil_append]
  · intro text hne htext
    rw [htext]
    exact exists_content_not_appended h hne

/-- A content as long as what is stored leaves none of it. -/
theorem saves_of_longer (hfind : store.find (path_to_key path) = some v) (hwrites : options.Writes)
    (chunks : List (List UInt8)) (hlong : (encode_value json v).length ≤ chunks.flatten.length) :
    Saves json path options chunks store (decode_value json chunks.flatten) := by
  rw [saves_over_iff hfind hwrites, List.drop_eq_nil_of_le hlong, List.append_nil]

end Editions

/-- A value is kept by its file exactly when it is no text that is JSON and its JSON is read back.
What is written to a new file is stored. Over a stored value it is, truncated or appended as it was
asked, exactly when the value is written in no byte; a truncation also when enough is written. -/
theorem variable_files_iff (h : json.Lawful) :
    (∀ v, decode_value json (encode_value json v) = v ↔ Keeps json v) ∧
    (∀ path store v (options : OpenOptions), store.find (path_to_key path) = some v →
      options.Writes → (Saves json path options [] store v ↔ Keeps json v)) ∧
    (∀ path store (options : OpenOptions), store.find (path_to_key path) = none → options.Makes →
      ∀ chunks, Saves json path options chunks store (decode_value json chunks.flatten)) ∧
    (∀ path store v (options : OpenOptions), store.find (path_to_key path) = some v →
      options.truncate = true → options.Writes →
        ((∀ chunks, Saves json path options chunks store (decode_value json chunks.flatten)) ↔
          encode_value json v = []) ∧
        ∀ chunks, (encode_value json v).length ≤ chunks.flatten.length →
          Saves json path options chunks store (decode_value json chunks.flatten)) ∧
    ∀ path store v (options : OpenOptions), store.find (path_to_key path) = some v →
      options.append = true →
        ((∀ chunks, Saves json path options chunks store
            (decode_value json (encode_value json v ++ chunks.flatten))) ↔
          encode_value json v = []) := by
  refine ⟨decode_encode_iff h, ?_, ?_, ?_, ?_⟩
  · intro path store v options hfind hwrites
    rw [saves_over_iff hfind hwrites, List.flatten_nil, List.nil_append, List.length_nil,
      List.drop_zero]
    exact decode_encode_iff h v
  · intro path store options hfind hmakes chunks
    have hwrites : options.Writes := by
      unfold OpenOptions.Makes at hmakes
      unfold OpenOptions.Writes
      grind
    rw [saves_iff hwrites (.inr hmakes), stored, hfind]
    simp
  · intro path store v options hfind _ hwrites
    exact ⟨truncation_iff h hfind hwrites, saves_of_longer hfind hwrites⟩
  · intro path store v options hfind happend
    have hwrites : options.Writes := by
      unfold OpenOptions.Writes
      simp [happend]
    exact appending_iff h hfind hwrites

/-! ## What is lost -/

/-- `serde_json`, of a few texts. -/
def few_texts : Json where
  to_vec
    | .Null => some "null".toList
    | .Number (.PosInt 1) => some "1".toList
    | _ => none
  from_str text :=
    if text = "null".toList then some .Null
    else if text = "1".toList then some (.Number (.PosInt 1))
    else none

theorem few_texts_lawful : few_texts.Lawful := by
  have hread : ∀ text v, few_texts.from_str text = some v →
      (text = "null".toList ∧ v = .Null) ∨ text = "1".toList ∧ v = .Number (.PosInt 1) := by
    intro text v hread
    unfold few_texts at hread
    simp only at hread
    split at hread
    · rename_i htext
      cases hread
      exact .inl ⟨htext, rfl⟩
    · split at hread
      · rename_i htext
        cases hread
        exact .inr ⟨htext, rfl⟩
      · cases hread
  have hnone : ∀ text, text ≠ "null".toList → text ≠ "1".toList →
      few_texts.from_str text = none := by
    intro text hnull hone
    cases hv : few_texts.from_str text with
    | none => rfl
    | some v => rcases hread text v hv with ⟨htext, -⟩ | ⟨htext, -⟩ <;> contradiction
  constructor
  · decide
  · intro text
    exact hnone _ (by simp) (by simp)
  · intro text
    apply hnone
    · intro heq
      have hlast := congrArg List.getLast? heq
      rw [List.getLast?_concat] at hlast
      revert hlast
      decide
    · intro heq
      have hlast := congrArg List.getLast? heq
      rw [List.getLast?_concat] at hlast
      revert hlast
      decide
  · intro text value hsome
    rcases hread _ _ hsome with ⟨-, hv⟩ | ⟨-, hv⟩
    · cases hv
    · cases hv
  · intro v text hwritten
    unfold few_texts at hwritten
    simp only at hwritten
    split at hwritten
    · cases hwritten
      decide
    · cases hwritten
      decide
    · cases hwritten

theorem a_null_is_kept : decode_value few_texts (encode_value few_texts .Null) = .Null ∧
    Saves few_texts "/a".toList { create := true } [utf8 ['n'], utf8 ['u', 'l', 'l']] Entries.empty
      (decode_value few_texts [utf8 ['n'], utf8 ['u', 'l', 'l']].flatten) :=
  ⟨((variable_files_iff few_texts_lawful).1 .Null).mpr (by unfold Keeps; rfl),
    (variable_files_iff few_texts_lawful).2.2.1 _ _ _ Entries.find_empty
      (by unfold OpenOptions.Makes; simp) _⟩

/-- A variable with a text of two letters. -/
def two_letters : VarStore := Entries.empty.insert ("a".toList, .String "ab")

/-- The text `1` comes back as a number. The text of two letters is neither cut off nor added to. -/
theorem variables_are_not_kept :
    decode_value few_texts (encode_value few_texts (.String "1")) ≠ .String "1" ∧
      ¬ Saves few_texts "/a".toList { write := true, truncate := true } [utf8 ['x']] two_letters
        (decode_value few_texts [utf8 ['x']].flatten) ∧
      ¬ Saves few_texts "/a".toList { append := true } [utf8 ['x']] two_letters
        (decode_value few_texts
          (encode_value few_texts (.String "ab") ++ [utf8 ['x']].flatten)) := by
  have hkey : path_to_key "/a".toList = "a".toList := by decide
  have hfind : two_letters.find (path_to_key "/a".toList) = some (.String "ab") := by
    rw [hkey, two_letters, Entries.find_insert, if_pos rfl]
  have hleft : [utf8 ['x']].flatten ++
      (encode_value few_texts (.String "ab")).drop [utf8 ['x']].flatten.length =
        utf8 ['x', 'b'] := by decide
  have hasked : encode_value few_texts (.String "ab") ++ [utf8 ['x']].flatten =
      utf8 (['a', 'b'] ++ ['x']) := by decide
  have hdecode : decode_value few_texts (utf8 ['x', 'b']) = .String (String.ofList ['x', 'b']) := by
    rw [decode_utf8, decode_of_x few_texts_lawful (.inl rfl)]
  refine ⟨?_, ?_, ?_⟩
  · have hread : few_texts.from_str (trim "1".toList) = some (.Number (.PosInt 1)) := rfl
    rw [encode_value, decode_utf8, hread, Option.getD_some]
    exact fun heq => Value.noConfusion heq
  · have hwrites : OpenOptions.Writes { write := true, truncate := true } := by
      unfold OpenOptions.Writes
      simp
    rw [saves_over_iff hfind hwrites, hleft, hdecode, List.flatten_singleton, decode_utf8,
      decode_of_x few_texts_lawful (.inl rfl)]
    intro heq
    exact absurd (ofList_inj heq) (by decide)
  · have hwrites : OpenOptions.Writes { append := true } := by
      unfold OpenOptions.Writes
      simp
    rw [saves_over_iff hfind hwrites, hleft, hdecode, hasked, decode_utf8,
      decode_of_x few_texts_lawful (.inr rfl)]
    intro heq
    exact absurd (ofList_inj heq) (by decide)

end marie.var
