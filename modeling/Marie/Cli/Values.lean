-- How a typed value is read. A list is cut at its commas by counting brackets alone, each
-- of its parts is read in turn, and a number that is not finite is null.
import Mathlib.Data.List.Forall2
import Marie.Cli.Numbers
import Marie.Cli.TextArguments

namespace marie.cli

open Texts

/-! ## Where a list is cut -/

/-- The brackets of the text that open, without those that close. -/
def level (t : Text) : Int := t.count '[' - t.count ']'

/-- No comma of the text has as many brackets that open as that close before it. -/
def NoSplit (t : Text) : Prop := ∀ before after, t = before ++ ',' :: after → level before ≠ 0

section Split

variable {depth : Int} {part cs t before after : Text}

theorem level_nil : level [] = 0 := by simp [level]

theorem level_append (s t : Text) : level (s ++ t) = level s + level t := by
  unfold level
  rw [List.count_append, List.count_append]
  push_cast
  omega

theorem NoSplit.of_append (h : NoSplit (cs ++ t)) : NoSplit cs := by
  rintro before after rfl
  exact h before (after ++ t) (by simp)

/-- The first comma where a text is cut. -/
theorem noSplit_or (t : Text) : NoSplit t ∨
    ∃ before after, t = before ++ ',' :: after ∧ NoSplit before ∧ level before = 0 := by
  induction t using List.reverseRecOn with
  | nil =>
    left
    intro before after h
    simp at h
  | append_singleton t c ih =>
    rcases ih with ht | ⟨before, after, rfl, hbefore, hlevel⟩
    · by_cases hcut : c = ',' ∧ level t = 0
      · obtain ⟨rfl, hlevel⟩ := hcut
        exact .inr ⟨t, [], rfl, ht, hlevel⟩
      · left
        intro before after heq hlevel
        rcases List.eq_nil_or_concat after with rfl | ⟨after, d, rfl⟩
        · obtain ⟨rfl, hc⟩ := List.append_inj' heq rfl
          exact hcut ⟨by simpa using hc, hlevel⟩
        · rw [List.concat_eq_append, ← List.cons_append, ← List.append_assoc] at heq
          exact ht before after (List.append_inj' heq rfl).1 hlevel
    · exact .inr ⟨before, after ++ [c], by simp, hbefore, hlevel⟩

/-- The part that is begun goes on. -/
theorem split_commas_begun (depth : Int) (part cs : Text) :
    ∃ more rest, split_commas depth part cs = (part ++ more) :: rest := by
  fun_induction split_commas depth part cs with
  | case1 depth part => exact ⟨[], [], by simp⟩
  | case2 depth part cs ih =>
    obtain ⟨more, rest, h⟩ := ih
    exact ⟨'[' :: more, rest, by simpa using h⟩
  | case3 depth part cs _ ih =>
    obtain ⟨more, rest, h⟩ := ih
    exact ⟨']' :: more, rest, by simpa using h⟩
  | case4 depth part c cs _ _ _ => exact ⟨[], split_commas depth [] cs, by simp⟩
  | case5 depth part c cs _ _ _ ih =>
    obtain ⟨more, rest, h⟩ := ih
    exact ⟨c :: more, rest, by simpa using h⟩

/-- A part is not at its end before a bracket that closes, or a comma at another depth. -/
theorem split_commas_longer {c : Char} (h : c = ']' ∨ c = ',' ∧ depth ≠ 0) (part rest : Text) :
    ∃ more parts, split_commas depth part (c :: rest) = (part ++ c :: more) :: parts := by
  have hstep : ∃ depth', split_commas depth part (c :: rest) =
      split_commas depth' (part ++ [c]) rest := by
    rcases h with rfl | ⟨rfl, hdepth⟩
    · exact ⟨depth - 1, by rw [split_commas]; simp⟩
    · exact ⟨depth, by rw [split_commas]; simp [hdepth]⟩
  obtain ⟨depth', hdepth'⟩ := hstep
  obtain ⟨more, parts, hparts⟩ := split_commas_begun depth' (part ++ [c]) rest
  exact ⟨more, parts, by rw [hdepth', hparts]; simp⟩

/-- A text is not cut where no comma is at the depth that counts. -/
theorem split_commas_append
    (h : ∀ before after, t = before ++ ',' :: after → depth + level before ≠ 0) (rest : Text) :
    split_commas depth part (t ++ rest) = split_commas (depth + level t) (part ++ t) rest := by
  induction t generalizing depth part with
  | nil => simp [level_nil]
  | cons c t ih =>
    have hlevel : ∀ s : Text, level (c :: s) = level [c] + level s := fun s => level_append [c] s
    have hrest : ∀ before after, t = before ++ ',' :: after →
        depth + level [c] + level before ≠ 0 := by
      rintro before after rfl
      have hne := h (c :: before) after rfl
      rw [hlevel] at hne
      omega
    have hstep : split_commas depth part (c :: (t ++ rest)) =
        split_commas (depth + level [c]) (part ++ [c]) (t ++ rest) := by
      by_cases hopen : c = '['
      · subst hopen
        rw [split_commas]
        simp [level]
      by_cases hclose : c = ']'
      · subst hclose
        rw [split_commas]
        simp [level]
        rfl
      · have hsame : level [c] = 0 := by simp [level, hopen, hclose]
        have hcut : ¬ (c = ',' ∧ depth = 0) := by
          rintro ⟨rfl, rfl⟩
          exact h [] t rfl (by simp [level_nil])
        rw [split_commas, if_neg hopen, if_neg hclose, if_neg hcut, hsame, Int.add_zero]
    rw [List.cons_append, hstep, ih hrest, hlevel t, Int.add_assoc]
    simp

theorem NoSplit.goes_on (h : NoSplit t) (part rest : Text) :
    split_commas 0 part (t ++ rest) = split_commas (level t) (part ++ t) rest := by
  have hzero : ∀ before after, t = before ++ ',' :: after → 0 + level before ≠ 0 := by
    intro before after heq
    rw [Int.zero_add]
    exact h before after heq
  rw [split_commas_append hzero, Int.zero_add]

theorem split_commas_comma (part rest : Text) :
    split_commas 0 part (',' :: rest) = part :: split_commas 0 [] rest := by
  rw [split_commas]
  simp

/-- Each part has its own commas, and there is one between any two. -/
theorem count_split_commas (depth : Int) (part cs : Text) :
    ((split_commas depth part cs).map fun p => p.count ',' + 1).sum =
      part.count ',' + cs.count ',' + 1 := by
  fun_induction split_commas depth part cs with
  | case1 => simp
  | case2 depth part cs ih =>
    rw [ih]
    simp
  | case3 depth part cs _ ih =>
    rw [ih]
    simp
  | case4 depth part c cs _ _ hcut ih =>
    obtain ⟨rfl, -⟩ := hcut
    rw [List.map_cons, List.sum_cons, ih]
    simp
    omega
  | case5 depth part c cs _ _ _ ih =>
    simp only [ih, List.count_append, List.count_cons, List.count_nil]
    omega

end Split

/-! ## What is read -/

/-- The value that the text is read as. -/
def Reads (raw : Text) (v : Value) : Prop := parse_value f64_value raw = .ok v

/-- The parts of a list that are not blank. -/
def kept_parts (parts : List Text) : List Text := (parts.map trim).filter (!·.isEmpty)

/-- The values of a list, as they were typed. -/
def items (inner : Text) : List Text := kept_parts (split_top_level_commas inner)

section Reads

variable {raw inner : Text}

theorem mapM_ok_iff {α β : Type} {f : α → Except CliError β} {xs : List α} {ys : List β} :
    xs.mapM f = .ok ys ↔ List.Forall₂ (fun x y => f x = .ok y) xs ys := by
  induction xs generalizing ys with
  | nil =>
    rw [List.forall₂_nil_left_iff, List.mapM_nil]
    constructor
    · rintro ⟨⟩
      rfl
    · rintro rfl
      rfl
  | cons x xs ih =>
    rw [List.mapM_cons, bind_eq_ok_iff]
    constructor
    · rintro ⟨y, hy, h⟩
      obtain ⟨ys', hys', hok⟩ := bind_eq_ok_iff.mp h
      cases hok
      exact .cons hy (ih.mp hys')
    · rintro (_ | ⟨hy, hys⟩)
      exact ⟨_, hy, bind_eq_ok_iff.mpr ⟨_, ih.mpr hys, rfl⟩⟩

/-- `parse_value`, with the items of a list. -/
theorem parse_value_eq (raw : Text) : parse_value f64_value raw =
    if (trim raw).isEmpty ∨ trim raw = ['"', '"'] then .ok (.String "")
    else if (trim raw).head? = some '"' ∧ (trim raw).getLast? = some '"' ∧ 2 ≤ byte_len (trim raw) then
      .ok (.String (String.ofList (unquote (trim raw))))
    else if (trim raw).head? = some '[' ∧ (trim raw).getLast? = some ']' then
      (items (trim raw).tail.dropLast).mapM (parse_value f64_value) >>= fun vs => .ok (.Array vs)
    else match i64_from_str (trim raw) with
      | some i => .ok (value_of_i64 i)
      | none => .ok ((f64_value (trim raw)).getD (.String (String.ofList (trim raw)))) := by
  have hmap : ∀ texts : List Text, texts.attach.mapM (fun item => parse_value f64_value item.1) =
      texts.mapM (parse_value f64_value) := by
    intro texts
    conv_rhs => rw [← List.attach_map_subtype_val texts, List.mapM_map]
    rfl
  conv_lhs => rw [parse_value]
  simp only [hmap, dite_eq_ite]
  rfl

theorem value_of_i64_number (i : Int) : ∃ n, value_of_i64 i = .Number n := by
  unfold value_of_i64
  split
  · exact ⟨_, rfl⟩
  · exact ⟨_, rfl⟩

theorem f64_value_cases {s : Text} {v : Value} (h : f64_value s = some v) :
    v = .Null ∨ ∃ x, v = .Number (.Float x) := by
  obtain ⟨x, -, rfl⟩ := Option.map_eq_some_iff.mp h
  cases x with
  | Finite x => exact .inr ⟨x, rfl⟩
  | _ => exact .inl rfl

/-- What is read as an integer or as a float is neither a text nor a list. -/
theorem number_cases {s : Text} {v : Value}
    (h : (∃ i, i64_from_str s = some i ∧ v = value_of_i64 i) ∨ f64_value s = some v) :
    v = .Null ∨ ∃ n, v = .Number n := by
  rcases h with ⟨i, -, rfl⟩ | hfloat
  · exact .inr (value_of_i64_number i)
  · rcases f64_value_cases hfloat with rfl | ⟨x, rfl⟩
    · exact .inl rfl
    · exact .inr ⟨_, rfl⟩

theorem between_ends {a b : Char} {s : Text} (ha : s.head? = some a) (hb : s.getLast? = some b)
    (hne : s ≠ [a]) : ∃ inner, s = a :: inner ++ [b] := by
  obtain ⟨rest, rfl⟩ := List.head?_eq_some_iff.mp ha
  rcases List.eq_nil_or_concat rest with rfl | ⟨inner, c, rfl⟩
  · exact absurd rfl hne
  · rw [List.concat_eq_append, ← List.cons_append, List.getLast?_concat, Option.some_inj] at hb
    exact ⟨inner, by rw [hb]; simp⟩

/-- What is read: a text, in quotes or not, a list, an integer, or what a float is. -/
theorem Reads.cases {v : Value} (h : Reads raw v) :
    (∃ s, v = .String (String.ofList s) ∧
      (trim raw = s ∨ ∃ t, trim raw = '"' :: t ++ ['"'] ∧ s = unescape t)) ∨
    (∃ inner vs, trim raw = '[' :: inner ++ [']'] ∧ v = .Array vs ∧
      List.Forall₂ Reads (items inner) vs) ∨
    (∃ i, i64_from_str (trim raw) = some i ∧ v = value_of_i64 i) ∨
    f64_value (trim raw) = some v := by
  unfold Reads at h
  rw [parse_value_eq] at h
  split at h
  · rename_i hempty
    cases h
    refine .inl ⟨[], rfl, ?_⟩
    rcases hempty with hempty | hempty
    · exact .inl (by simpa using hempty)
    · exact .inr ⟨[], hempty, rfl⟩
  split at h
  · rename_i hquoted
    cases h
    have hne : trim raw ≠ ['"'] := by
      intro heq
      rw [heq] at hquoted
      exact absurd hquoted.2.2 (by decide)
    obtain ⟨t, ht⟩ := between_ends hquoted.1 hquoted.2.1 hne
    refine .inl ⟨_, rfl, .inr ⟨t, ht, ?_⟩⟩
    rw [ht, unquote_token]
  split at h
  · rename_i hlist
    obtain ⟨vs, hvs, hok⟩ := bind_eq_ok_iff.mp h
    cases hok
    have hne : trim raw ≠ ['['] := by
      intro heq
      rw [heq] at hlist
      exact absurd hlist.2 (by decide)
    obtain ⟨inner, hinner⟩ := between_ends hlist.1 hlist.2 hne
    refine .inr (.inl ⟨inner, vs, hinner, rfl, mapM_ok_iff.mp ?_⟩)
    rw [hinner] at hvs
    simpa using hvs
  split at h
  · cases h
    exact .inr (.inr (.inl ⟨_, ‹_›, rfl⟩))
  · cases h
    cases hfloat : f64_value (trim raw) with
    | none => exact .inl ⟨_, rfl, .inl rfl⟩
    | some v => exact .inr (.inr (.inr rfl))

theorem Reads.string_cases {t : Text} (h : Reads raw (.String (String.ofList t))) :
    trim raw = t ∨ ∃ inner, trim raw = '"' :: inner ++ ['"'] ∧ t = unescape inner := by
  rcases h.cases with ⟨s, hs, htext⟩ | ⟨inner, vs, -, hvs, -⟩ | hnumber
  · injection hs with hs
    rwa [String.ofList_inj.mp hs]
  · cases hvs
  · rcases number_cases hnumber with hnull | ⟨n, hn⟩
    · cases hnull
    · cases hn

theorem Reads.array_cases {vs : List Value} (h : Reads raw (.Array vs)) :
    ∃ inner, trim raw = '[' :: inner ++ [']'] ∧ List.Forall₂ Reads (items inner) vs := by
  rcases h.cases with ⟨s, hs, -⟩ | ⟨inner, vs', hinner, hvs, hitems⟩ | hnumber
  · cases hs
  · cases hvs
    exact ⟨inner, hinner, hitems⟩
  · rcases number_cases hnumber with hnull | ⟨n, hn⟩
    · cases hnull
    · cases hn

/-- An integer is read from its digits only: a float is none. -/
theorem Reads.int_cases {i : Int} (h : Reads raw (value_of_i64 i)) :
    ∃ j, i64_from_str (trim raw) = some j := by
  have hfloat : ∀ x, value_of_i64 i ≠ .Number (.Float x) := by
    intro x
    unfold value_of_i64
    split <;> simp
  obtain ⟨n, hn⟩ := value_of_i64_number i
  rcases h.cases with ⟨s, hs, -⟩ | ⟨inner, vs, -, hvs, -⟩ | ⟨j, hj, -⟩ | hvalue
  · rw [hn] at hs
    cases hs
  · rw [hn] at hvs
    cases hvs
  · exact ⟨j, hj⟩
  · rcases f64_value_cases hvalue with hnull | ⟨x, hx⟩
    · rw [hn] at hnull
      cases hnull
    · exact absurd hx (hfloat x)

theorem reads_quoted {t : Text} (h : trim raw = '"' :: t ++ ['"']) :
    Reads raw (.String (String.ofList (unescape t))) := by
  unfold Reads
  rw [parse_value_eq, h]
  by_cases ht : t = []
  · subst ht
    rfl
  · have hlen : 2 ≤ byte_len ('"' :: t ++ ['"']) := by
      have hsize : Char.utf8Size '"' = 1 := by decide
      rw [byte_len_append, byte_len_cons, byte_len_cons]
      omega
    rw [if_neg (by simp [ht]), if_pos ⟨by simp, List.getLast?_concat, hlen⟩, unquote_token]

theorem reads_list {vs : List Value} (h : trim raw = '[' :: inner ++ [']'])
    (hitems : List.Forall₂ Reads (items inner) vs) : Reads raw (.Array vs) := by
  unfold Reads
  have hlast : ('[' :: inner ++ [']']).getLast? = some ']' := List.getLast?_concat
  rw [parse_value_eq, h, if_neg (by simp), if_neg (by simp), if_pos ⟨by simp, hlast⟩,
    bind_eq_ok_iff]
  have htail : ('[' :: inner ++ [']']).tail.dropLast = inner := by simp
  rw [htail]
  exact ⟨vs, mapM_ok_iff.mpr hitems, rfl⟩

end Reads

/-! ## What is read as null -/

theorem reads_null_iff {raw : Text} : Reads raw .Null ↔ NotFinite (trim raw) := by
  constructor
  · intro h
    rcases h.cases with ⟨s, hs, -⟩ | ⟨inner, vs, -, hvs, -⟩ | ⟨i, -, hi⟩ | hfloat
    · cases hs
    · cases hvs
    · obtain ⟨n, hn⟩ := value_of_i64_number i
      rw [hn] at hi
      cases hi
    · exact f64_value_eq_null_iff.mp hfloat
  · intro h
    obtain ⟨sign, body, hsign, hbody, hname⟩ := h
    obtain ⟨c, cs, rfl, hc⟩ := head_of_not_finite hname
    have hhead : ∃ d ds, trim raw = d :: ds ∧ d ≠ '"' ∧ d ≠ '[' := by
      rw [hbody]
      simp at hsign
      rcases hsign with rfl | rfl | rfl
      · refine ⟨c, cs, rfl, ?_, ?_⟩
        · rintro rfl
          exact absurd hc (by decide)
        · rintro rfl
          exact absurd hc (by decide)
      · exact ⟨'-', c :: cs, rfl, by decide, by decide⟩
      · exact ⟨'+', c :: cs, rfl, by decide, by decide⟩
    have hnot : NotFinite (trim raw) := ⟨sign, c :: cs, hsign, hbody, hname⟩
    obtain ⟨d, ds, htrim, hquote, hbracket⟩ := hhead
    have hint : i64_from_str (trim raw) = none := by
      rw [Option.eq_none_iff_forall_ne_some]
      intro i hi
      exact finite_of_i64 hi hnot
    have hfloat := f64_value_eq_null_iff.mpr hnot
    unfold Reads
    rw [parse_value_eq, hint, hfloat, htrim]
    simp [hquote, hbracket]

end marie.cli
