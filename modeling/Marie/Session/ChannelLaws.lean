-- What a commit makes of each channel: its reducer, applied to the values that
-- the updates have for the channel, in their order.
import Marie.Session.Checkpointer

namespace marie.session

/-! ## Values by channel -/

/-- The values of a channel in a list of groups. -/
def entriesAt (name : ChannelName) (groups : List (ChannelName × List Value)) : List Value :=
  ((groups.find? (·.1 = name)).map (·.2)).getD []

/-- The values that the updates have for a channel. -/
def contributions (name : ChannelName) (updates : List ChannelUpdate) : List Value :=
  (updates.filter (·.name = name)).map (·.value)

/-- Groups as the code makes them: one for each channel, and none with no value. -/
structure Grouped (groups : List (ChannelName × List Value)) : Prop where
  nodup : (groups.map (·.1)).Nodup
  values : ∀ g ∈ groups, g.2 ≠ []

variable {name n : ChannelName} {value : Value} {vs : List Value}
  {groups : List (ChannelName × List Value)}

theorem entriesAt_cons :
    entriesAt name ((n, vs) :: groups) = if n = name then vs else entriesAt name groups := by
  unfold entriesAt
  by_cases h : n = name
  · simp [h]
  · simp [h]

theorem entriesAt_push :
    entriesAt name (push_entry n value groups) =
      if n = name then entriesAt name groups ++ [value] else entriesAt name groups := by
  induction groups with
  | nil => by_cases h : n = name <;> simp [push_entry, entriesAt, h]
  | cons g groups ih =>
    obtain ⟨m, vs⟩ := g
    unfold push_entry
    by_cases hm : m = n
    · subst hm
      by_cases h : m = name <;> simp [entriesAt_cons, h]
    · rw [if_neg hm, entriesAt_cons, entriesAt_cons, ih]
      by_cases h : m = name
      · have hn : n ≠ name := fun hn => hm (h.trans hn.symm)
        simp [h, hn]
      · simp [h]

theorem keys_push :
    (push_entry n value groups).map (·.1) =
      if n ∈ groups.map (·.1) then groups.map (·.1) else groups.map (·.1) ++ [n] := by
  induction groups with
  | nil => rfl
  | cons g groups ih =>
    obtain ⟨m, vs⟩ := g
    unfold push_entry
    by_cases hm : m = n
    · simp [hm]
    · have hn : n ≠ m := fun h => hm h.symm
      rw [if_neg hm, List.map_cons, ih]
      by_cases hmem : n ∈ groups.map (·.1)
      · simp [hmem]
      · simp [hmem, hn]

theorem Grouped.nil : Grouped [] := ⟨by simp, by simp⟩

theorem Grouped.push (h : Grouped groups) (n : ChannelName) (value : Value) :
    Grouped (push_entry n value groups) := by
  constructor
  · rw [keys_push]
    split
    · exact h.nodup
    · rename_i hn
      have hn' : ∀ a ∈ groups.map (·.1), ¬ a = n := by
        rintro a ha rfl
        exact hn ha
      simpa [List.nodup_append, h.nodup] using hn'
  · have hvalues := h.values
    clear h
    induction groups with
    | nil => simp [push_entry]
    | cons g groups ih =>
      obtain ⟨m, vs⟩ := g
      have ih' := ih fun g hg => hvalues g (by simp [hg])
      have hhead := hvalues (m, vs) (by simp)
      unfold push_entry
      split
      · intro g hg
        rcases List.mem_cons.mp hg with rfl | hg
        · simp
        · exact hvalues g (by simp [hg])
      · intro g hg
        rcases List.mem_cons.mp hg with rfl | hg
        · exact hhead
        · exact ih' g hg

theorem entriesAt_of_absent (h : n ∉ groups.map (·.1)) : entriesAt n groups = [] := by
  have hnone : groups.find? (·.1 = n) = none := by
    rw [List.find?_eq_none]
    intro g hg heq
    exact h (List.mem_map.mpr ⟨g, hg, by simpa using heq⟩)
  simp [entriesAt, hnone]

/-! ## A commit, channel by channel -/

/-- The value of a channel after a commit with these values. -/
def CommonSpec.reduced (spec : CommonSpec) (name : ChannelName) (current : Option Value)
    (vs : List Value) : Option Value :=
  if vs.isEmpty then current else some ((spec.reducer_of name).reduce current vs)

theorem reduce_channels_at (spec : CommonSpec) (channels : Channels) (h : Grouped groups) :
    reduce_channels spec channels groups name =
      spec.reduced name (channels name) (entriesAt name groups) := by
  unfold reduce_channels
  induction groups generalizing channels with
  | nil => rfl
  | cons g groups ih =>
    obtain ⟨m, vs⟩ := g
    have hnodup := h.nodup
    simp only [List.map_cons, List.nodup_cons] at hnodup
    have htail : Grouped groups := ⟨hnodup.2, fun g hg => h.values g (by simp [hg])⟩
    rw [List.foldl_cons, ih _ htail, entriesAt_cons]
    by_cases hm : m = name
    · subst hm
      have hvs : vs ≠ [] := h.values (m, vs) (by simp)
      simp [entriesAt_of_absent hnodup.1, CommonSpec.reduced, Channels.write, Channels.get, hvs]
    · have hm' : name ≠ m := fun h => hm h.symm
      simp [hm, hm', Channels.write]

theorem per_channel_spec (updates : List ChannelUpdate) (h : Grouped groups) :
    Grouped (updates.foldl (fun m u => push_entry u.name u.value m) groups) ∧
    ∀ name, entriesAt name (updates.foldl (fun m u => push_entry u.name u.value m) groups) =
      entriesAt name groups ++ contributions name updates := by
  induction updates generalizing groups with
  | nil => exact ⟨h, by simp [contributions]⟩
  | cons u updates ih =>
    obtain ⟨h1, h2⟩ := ih (h.push u.name u.value)
    refine ⟨h1, fun name => ?_⟩
    rw [List.foldl_cons, h2, entriesAt_push]
    by_cases hu : u.name = name
    · simp [hu, contributions]
    · simp [hu, contributions]

/-- A commit reduces each channel by itself. -/
theorem commit_channels_at (spec : CommonSpec) (channels : Channels)
    (updates : List ChannelUpdate) (name : ChannelName) :
    commit_channels spec channels updates name =
      spec.reduced name (channels name) (contributions name updates) := by
  obtain ⟨h1, h2⟩ := per_channel_spec updates Grouped.nil
  unfold commit_channels per_channel
  rw [reduce_channels_at spec channels h1, h2]
  rfl

/-! ## The updates of a join -/

/-- The values that a child with these channels gives to a channel of its parent: one for each
time that its spec exports the channel. -/
def exportedTo (parent_spec child_spec : CommonSpec) (channels : Channels) (name : ChannelName) :
    List Value :=
  (child_spec.exported_channels.filter fun e => e = name ∧ e ∈ parent_spec.imported_channels).flatMap
    fun e => (channels.get e).toList

theorem export_channels_spec (parent_spec child_spec : CommonSpec) (channels : Channels)
    (h : Grouped groups) :
    Grouped (export_channels parent_spec child_spec channels groups) ∧
    ∀ name, entriesAt name (export_channels parent_spec child_spec channels groups) =
      entriesAt name groups ++ exportedTo parent_spec child_spec channels name := by
  unfold export_channels exportedTo
  induction child_spec.exported_channels generalizing groups with
  | nil => exact ⟨h, by simp⟩
  | cons e exported ih =>
    rw [List.foldl_cons]
    by_cases himp : e ∈ parent_spec.imported_channels
    · rw [if_pos himp]
      cases hv : channels.get e with
      | none =>
        obtain ⟨h1, h2⟩ := ih h
        refine ⟨h1, fun name => ?_⟩
        rw [h2]
        by_cases hname : e = name
        · subst hname
          simp [himp, hv]
        · simp [hname]
      | some value =>
        obtain ⟨h1, h2⟩ := ih (h.push e value)
        refine ⟨h1, fun name => ?_⟩
        rw [h2, entriesAt_push]
        by_cases hname : e = name
        · subst hname
          simp [himp, hv]
        · simp [hname]
    · rw [if_neg himp]
      obtain ⟨h1, h2⟩ := ih h
      exact ⟨h1, fun name => by rw [h2]; simp [himp]⟩

theorem contributions_accumulated (contributor : FrameId) (h : Grouped groups) :
    contributions name (accumulated contributor groups) = entriesAt name groups := by
  unfold accumulated
  induction groups with
  | nil => rfl
  | cons g groups ih =>
    obtain ⟨m, vs⟩ := g
    have hnodup := h.nodup
    simp only [List.map_cons, List.nodup_cons] at hnodup
    have ih' := ih ⟨hnodup.2, fun g hg => h.values g (by simp [hg])⟩
    unfold contributions at ih' ⊢
    rw [List.flatMap_cons, List.filter_append, List.map_append, ih', entriesAt_cons]
    by_cases hm : m = name
    · subst hm
      simp [entriesAt_of_absent hnodup.1, List.filter_map, Function.comp_def]
    · simp [hm, List.filter_map, Function.comp_def]

end marie.session
