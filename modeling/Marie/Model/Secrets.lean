-- The secrets that the vault holds for the models, and the versions that refer to
-- them. The two stores stay in step as long as no call stops between them, and no
-- deletion finds versions with two keys.
import Marie.Catalog.Backends
import Marie.Lib.Runs
import Marie.Model.Calls

open Program

namespace marie.models

open catalog secret Runs

variable {σ Key Tag : Type} (models : Models σ Key Tag)

/-! ## What is asked -/

/-- A version that is in the catalog and not deleted. -/
def Models.Readable (w : Stores σ) (id : String) (v : Nat) (m : EncryptedModel) : Prop :=
  ∃ data, models.catalog.get_catalog_item MODEL_KIND id v w.catalog = some data ∧
    models.json.from_slice data = some m

/-- The vault has the secret of every version that can be read, and of the ids that were drawn it
has only those of such versions. -/
structure Models.Kept (refs : List SecretRef) (w : Stores σ) : Prop where
  no_dangling : ∀ id v m, models.Readable w id v m → m.api_key ∈ w.vault.store
  no_orphan : ∀ ref ∈ refs, ref ∈ w.vault.store →
    ∃ id v m, models.Readable w id v m ∧ m.api_key = ref

/-- An insertion that stored its secret publishes, and a deletion that removed a secret deletes
versions that all have this one. -/
def Models.Meets (w : Stores σ) : Op → Prop
  | .insert model id nonce =>
    models.StoresSecret w id nonce model.api_key → w.failures.tail.head? ≠ some true
  | .change _ _ => True
  | .delete id => ∀ r m, models.Reads w id.name r m → w.failures.tail.tail.head? ≠ some true →
    w.failures.tail.tail.tail.head? ≠ some true ∧
      ∀ v m', models.Readable w id.name v m' → m'.api_key = m.api_key

/-! ## The versions on the shelf -/

/-- A version of a model, deleted or not. -/
def Models.Version (shelf : Shelf) (id : String) (v : Nat) (m : EncryptedModel) : Prop :=
  ∃ item, (shelf MODEL_KIND id)[v]? = some item ∧ item.data = models.json.to_vec m

/-- Each version is of a model of its id with a key that was drawn, and no key is of two ids. -/
structure Models.Tidy (refs : List SecretRef) (shelf : Shelf) : Prop where
  model : ∀ {id : String} {v : Nat} {item : StoredItem},
    (shelf MODEL_KIND id)[v]? = some item → item.deprecated = false ∧
    ∃ m, item.data = models.json.to_vec m ∧ m.id.name = id ∧ m.api_key ∈ refs
  owned : ∀ {id v m id' v' m'}, models.Version shelf id v m → models.Version shelf id' v' m' →
    m.api_key = m'.api_key → id = id'

variable {models} {new : σ} {holds : σ → Shelf → Prop} {shelf : Shelf} {w w' : Stores σ}
  {refs : List SecretRef} {id : String} {v : Nat} {m m' : EncryptedModel}

section

variable (himpl : Implements models.catalog new holds) (hjson : models.type.RoundTrips)

include himpl in
theorem readable_iff (hs : holds w.catalog shelf) : models.Readable w id v m ↔
    ∃ item, (shelf MODEL_KIND id)[v]? = some item ∧ item.deleted = false ∧
      models.json.from_slice item.data = some m := by
  rw [Models.Readable, himpl.got MODEL_KIND id v hs]
  constructor
  · rintro ⟨data, hdata, hm⟩
    obtain ⟨item, hitem, rfl⟩ := Option.map_eq_some_iff.mp hdata
    obtain ⟨hget, hdeleted⟩ := Option.filter_eq_some_iff.mp hitem
    exact ⟨item, hget, by simpa using hdeleted, hm⟩
  · rintro ⟨item, hget, hdeleted, hm⟩
    exact ⟨item.data, by simp [hget, hdeleted], hm⟩

include hjson in
theorem version_spec (htidy : models.Tidy refs shelf) (h : models.Version shelf id v m) :
    m.id.name = id ∧ m.api_key ∈ refs := by
  obtain ⟨item, hitem, hdata⟩ := h
  obtain ⟨-, m', hdata', hid, hkey⟩ := htidy.model hitem
  have h1 : models.json.from_slice (models.json.to_vec m) = some m := hjson m
  have h2 : models.json.from_slice (models.json.to_vec m') = some m' := hjson m'
  rw [← hdata, hdata', h2] at h1
  cases h1
  exact ⟨hid, hkey⟩

include himpl hjson in
/-- What is read is a version of the shelf. -/
theorem version_of_readable (hs : holds w.catalog shelf) (htidy : models.Tidy refs shelf)
    (h : models.Readable w id v m) : models.Version shelf id v m := by
  obtain ⟨item, hitem, -, hm⟩ := (readable_iff himpl hs).mp h
  obtain ⟨-, m', hdata, -, -⟩ := htidy.model hitem
  have hsame : models.json.from_slice (models.json.to_vec m') = some m' := hjson m'
  rw [hdata, hsame] at hm
  cases hm
  exact ⟨item, hitem, hdata⟩

include himpl in
/-- The latest version that is read is a version of the id. -/
theorem readable_of_reads (hs : holds w.catalog shelf) {r : CatalogItemRef}
    (h : models.Reads w id r m) : r.kind = MODEL_KIND ∧ r.id = id ∧ models.Readable w id r.version m := by
  have href := h.ref
  rw [himpl.last MODEL_KIND id hs] at href
  obtain ⟨v, -, rfl⟩ := Option.map_eq_some_iff.mp href
  exact ⟨rfl, rfl, h.item⟩

/-! ## A publication -/

theorem lookup_publish {data : List UInt8} {name : String} {item : StoredItem} :
    (shelf.next (.insert_catalog_item ⟨name, MODEL_KIND, data⟩) MODEL_KIND id)[v]? = some item ↔
      (shelf MODEL_KIND id)[v]? = some item ∨
        (id = name ∧ v = (shelf MODEL_KIND id).length ∧ item = ⟨data, false, false⟩) := by
  by_cases h : name = id
  · subst h
    simp only [Shelf.next, shelve, and_self, if_true, true_and]
    rcases Nat.lt_trichotomy v (shelf MODEL_KIND name).length with hlt | rfl | hgt
    · rw [List.getElem?_append_left hlt]
      exact ⟨.inl, fun h => h.elim (fun h => h) fun h => absurd h.1 hlt.ne⟩
    · simp [eq_comm]
    · rw [List.getElem?_eq_none (by simp; omega), List.getElem?_eq_none (by omega)]
      simp only [reduceCtorEq, false_or, false_iff]
      omega
  · have hne : ¬ id = name := fun heq => h heq.symm
    simp [Shelf.next, shelve, h, hne]

include himpl in
theorem holds_published (hs : holds w.catalog shelf) : holds (models.published m w.catalog)
    (shelf.next (.insert_catalog_item ⟨m.id.name, MODEL_KIND, models.json.to_vec m⟩)) :=
  (himpl.inserted _ hs).2

include hjson in
/-- A model is published under a key of its own id. -/
theorem tidy_publish (htidy : models.Tidy refs shelf) {refs' : List SecretRef}
    (hmore : refs ⊆ refs') (hkey : m.api_key ∈ refs')
    (howned : ∀ {id v m'}, models.Version shelf id v m' → m'.api_key = m.api_key → id = m.id.name) :
    models.Tidy refs'
      (shelf.next (.insert_catalog_item ⟨m.id.name, MODEL_KIND, models.json.to_vec m⟩)) := by
  have hversion : ∀ {id v m'}, models.Version
      (shelf.next (.insert_catalog_item ⟨m.id.name, MODEL_KIND, models.json.to_vec m⟩)) id v m' →
        models.Version shelf id v m' ∨ (id = m.id.name ∧ m' = m) := by
    rintro id v m' ⟨item, hitem, hdata⟩
    rcases lookup_publish.mp hitem with hold | ⟨rfl, -, rfl⟩
    · exact .inl ⟨item, hold, hdata⟩
    · have h1 : models.json.from_slice (models.json.to_vec m) = some m := hjson m
      have h2 : models.json.from_slice (models.json.to_vec m') = some m' := hjson m'
      rw [← hdata, h1] at h2
      exact .inr ⟨rfl, (Option.some.inj h2).symm⟩
  refine ⟨?_, ?_⟩
  · intro id v item hitem
    rcases lookup_publish.mp hitem with hold | ⟨rfl, -, rfl⟩
    · obtain ⟨hdep, m', hdata, hid, hin⟩ := htidy.model hold
      exact ⟨hdep, m', hdata, hid, hmore hin⟩
    · exact ⟨rfl, m, rfl, rfl, hkey⟩
  · intro id v m1 id' v' m2 h1 h2 heq
    rcases hversion h1 with hold1 | ⟨rfl, rfl⟩ <;> rcases hversion h2 with hold2 | ⟨rfl, rfl⟩
    · exact htidy.owned hold1 hold2 heq
    · exact howned hold1 heq
    · exact (howned hold2 heq.symm).symm
    · rfl

include himpl hjson in
theorem readable_publish (hs : holds w.catalog shelf)
    (hw : w'.catalog = models.published m w.catalog) :
    models.Readable w' id v m' ↔ models.Readable w id v m' ∨
      (id = m.id.name ∧ v = (shelf MODEL_KIND id).length ∧ m' = m) := by
  have hs' : holds w'.catalog _ := hw ▸ holds_published himpl (m := m) hs
  have hsame : models.json.from_slice (models.json.to_vec m) = some m := hjson m
  rw [readable_iff himpl hs', readable_iff himpl hs]
  constructor
  · rintro ⟨item, hitem, hdeleted, hm⟩
    rcases lookup_publish.mp hitem with hold | ⟨rfl, hv, rfl⟩
    · exact .inl ⟨item, hold, hdeleted, hm⟩
    · rw [hsame] at hm
      exact .inr ⟨rfl, hv, (Option.some.inj hm).symm⟩
  · rintro (⟨item, hitem, hdeleted, hm⟩ | ⟨rfl, rfl, rfl⟩)
    · exact ⟨item, lookup_publish.mpr (.inl hitem), hdeleted, hm⟩
    · exact ⟨_, lookup_publish.mpr (.inr ⟨rfl, rfl, rfl⟩), rfl, hsame⟩

/-! ## A deletion -/

theorem lookup_delete {name : String} {item : StoredItem} :
    (shelf.next (.delete_catalog_item MODEL_KIND name) MODEL_KIND id)[v]? = some item ↔
      ∃ old, (shelf MODEL_KIND id)[v]? = some old ∧
        item = if name = id then { old with deleted := true } else old := by
  by_cases h : name = id
  · subst h
    simp [Shelf.next, shelve, eq_comm]
  · simp [Shelf.next, shelve, h]

theorem tidy_delete (htidy : models.Tidy refs shelf) {name : String} :
    models.Tidy refs (shelf.next (.delete_catalog_item MODEL_KIND name)) := by
  have hold : ∀ {id : String} {v : Nat} {item : StoredItem},
      (shelf.next (.delete_catalog_item MODEL_KIND name) MODEL_KIND id)[v]? =
      some item → ∃ old, (shelf MODEL_KIND id)[v]? = some old ∧ old.data = item.data ∧
        old.deprecated = item.deprecated := by
    intro id v item hitem
    obtain ⟨old, hget, rfl⟩ := lookup_delete.mp hitem
    exact ⟨old, hget, by split <;> rfl, by split <;> rfl⟩
  refine ⟨?_, ?_⟩
  · intro id v item hitem
    obtain ⟨old, hget, hdata, hdep⟩ := hold hitem
    rw [← hdata, ← hdep]
    exact htidy.model hget
  · rintro id v m id' v' m' ⟨item, hitem, hdata⟩ ⟨item', hitem', hdata'⟩ heq
    obtain ⟨old, hget, hsame, -⟩ := hold hitem
    obtain ⟨old', hget', hsame', -⟩ := hold hitem'
    exact htidy.owned ⟨old, hget, hsame.trans hdata⟩ ⟨old', hget', hsame'.trans hdata'⟩ heq

include himpl in
theorem readable_delete (hs : holds w.catalog shelf) {name : String}
    (hw : w'.catalog = models.catalog.delete_catalog_item MODEL_KIND name w.catalog) :
    models.Readable w' id v m ↔ name ≠ id ∧ models.Readable w id v m := by
  have hs' : holds w'.catalog _ := hw ▸ himpl.deleted MODEL_KIND name hs
  rw [readable_iff himpl hs', readable_iff himpl hs]
  constructor
  · rintro ⟨item, hitem, hdeleted, hm⟩
    obtain ⟨old, hget, rfl⟩ := lookup_delete.mp hitem
    by_cases h : name = id
    · simp [h] at hdeleted
    · rw [if_neg h] at hdeleted hm
      exact ⟨h, old, hget, hdeleted, hm⟩
  · rintro ⟨hne, old, hget, hdeleted, hm⟩
    exact ⟨old, lookup_delete.mpr ⟨old, hget, by rw [if_neg hne]⟩, hdeleted, hm⟩

/-! ## One call -/

/-- What is known of the stores when the calls so far drew `refs` and left the two stores in step. -/
structure Models.Sound (models : Models σ Key Tag) (holds : σ → Shelf → Prop) (w₀ : Stores σ)
    (refs : List SecretRef) (w : Stores σ) : Prop where
  tidy : ∃ shelf, holds w.catalog shelf ∧ models.Tidy refs shelf
  drawn : ∀ ref ∈ w.vault.store, ref ∈ w₀.vault.store ∨ ref ∈ refs

variable {w₀ : Stores σ}

theorem Stores.Same.readable (h : w.Same w') : models.Readable w' id v m ↔ models.Readable w id v m := by
  rw [Models.Readable, h.2, Models.Readable]

theorem Models.Sound.same (hsound : models.Sound holds w₀ refs w) (hsame : w.Same w') :
    models.Sound holds w₀ refs w' := by
  obtain ⟨⟨shelf, hs, htidy⟩, hdrawn⟩ := hsound
  exact ⟨⟨shelf, hsame.2 ▸ hs, htidy⟩, hsame.1 ▸ hdrawn⟩

theorem Models.Kept.same (hkept : models.Kept refs w) (hsame : w.Same w') :
    models.Kept refs w' := by
  refine ⟨?_, ?_⟩
  · intro id v m hread
    rw [hsame.1]
    exact hkept.no_dangling id v m (hsame.readable.mp hread)
  · intro ref href hin
    obtain ⟨id, v, m, hread, hkey⟩ := hkept.no_orphan ref href (hsame.1 ▸ hin)
    exact ⟨id, v, m, hsame.readable.mpr hread, hkey⟩

theorem Tidy.mono (htidy : models.Tidy refs shelf) {refs' : List SecretRef}
    (hmore : refs ⊆ refs') : models.Tidy refs' shelf := by
  refine ⟨fun hitem => ?_, htidy.owned⟩
  obtain ⟨hdep, m, hdata, hid, hkey⟩ := htidy.model hitem
  exact ⟨hdep, m, hdata, hid, hmore hkey⟩

include himpl hjson in
theorem insert_step (hsound : models.Sound holds w₀ refs w) (hkept : models.Kept refs w)
    (model : CreateModel) {ref : SecretRef} (nonce : Nonce) (hfresh : ref ∉ refs)
    (habsent : ref ∉ w.vault.store) :
    models.Sound holds w₀ (refs ++ [ref]) (exec (models.insert model ref nonce) w).2 ∧
      (models.Kept (refs ++ [ref]) (exec (models.insert model ref nonce) w).2 ↔
        models.Meets w (.insert model ref nonce)) := by
  obtain ⟨⟨shelf, hs, htidy⟩, hdrawn⟩ := hsound
  have hmore : refs ⊆ refs ++ [ref] := List.subset_append_left _ _
  -- No version refers to the id that is drawn.
  have hunused : ∀ {id v m}, models.Readable w id v m → m.api_key ≠ ref := by
    rintro id v m hread rfl
    exact hfresh (version_spec hjson htidy (version_of_readable himpl hjson hs htidy hread)).2
  rcases insert_cases models w model ref nonce with ⟨hstores, hsame⟩ | ⟨hstores, row, hstore, hcatalog⟩
  · generalize (exec (models.insert model ref nonce) w).2 = w' at *
    refine ⟨?_, ⟨fun _ h => absurd h hstores, fun _ => ⟨(hkept.same hsame).no_dangling, ?_⟩⟩⟩
    · refine Models.Sound.same ⟨⟨shelf, hs, Tidy.mono htidy hmore⟩, fun r hr => ?_⟩ hsame
      exact (hdrawn r hr).imp_right (hmore ·)
    · intro r hr hin
      rcases List.mem_append.mp hr with hr | hr
      · exact (hkept.same hsame).no_orphan r hr hin
      · rw [List.mem_singleton.mp hr, hsame.1] at hin
        exact absurd hin habsent
  · generalize (exec (models.insert model ref nonce) w).2 = w' at *
    have hmem : ∀ r, r ∈ w'.vault.store ↔ r = ref ∨ r ∈ w.vault.store := by
      intro r
      rw [hstore, Std.ExtTreeMap.mem_insert]
      simp only [Std.compare_eq_iff_eq, @eq_comm _ ref]
    have hdrawn' : ∀ r ∈ w'.vault.store, r ∈ w₀.vault.store ∨ r ∈ refs ++ [ref] := by
      intro r hr
      rcases (hmem r).mp hr with rfl | hr
      · exact .inr (by simp)
      · exact (hdrawn r hr).imp_right (hmore ·)
    rcases hcatalog with ⟨hfails, hcatalog⟩ | ⟨hpublishes, m, hid, rfl, hcatalog⟩
    · refine ⟨⟨⟨shelf, hcatalog ▸ hs, Tidy.mono htidy hmore⟩, hdrawn'⟩, ?_, ?_⟩
      · intro h
        obtain ⟨id, v, m, hread, hkey⟩ := h.no_orphan ref (by simp) ((hmem ref).mpr (.inl rfl))
        rw [Models.Readable, hcatalog] at hread
        exact absurd hkey (hunused hread)
      · intro h
        exact absurd hfails (h hstores)
    · refine ⟨⟨⟨_, hcatalog ▸ holds_published himpl hs, ?_⟩, hdrawn'⟩, fun _ _ => hpublishes, fun _ => ?_⟩
      · refine tidy_publish hjson htidy hmore (by simp) ?_
        intro id v m' hversion hkey
        exact absurd (hkey ▸ (version_spec hjson htidy hversion).2) hfresh
      · have hread : ∀ {id v m'}, models.Readable w' id v m' ↔ _ :=
          fun {id v m'} => readable_publish himpl hjson hs hcatalog
        refine ⟨?_, ?_⟩
        · intro id v m' h
          rcases hread.mp h with hold | ⟨-, -, rfl⟩
          · exact (hmem _).mpr (.inr (hkept.no_dangling id v m' hold))
          · exact (hmem _).mpr (.inl rfl)
        · intro r hr hin
          rcases (hmem r).mp hin with rfl | hin
          · exact ⟨_, _, m, hread.mpr (.inr ⟨rfl, rfl, rfl⟩), rfl⟩
          · rcases List.mem_append.mp hr with hr | hr
            · obtain ⟨id, v, m', h, hkey⟩ := hkept.no_orphan r hr hin
              exact ⟨id, v, m', hread.mpr (.inl h), hkey⟩
            · exact absurd (List.mem_singleton.mp hr ▸ hin) habsent

include himpl hjson in
theorem change_step (hsound : models.Sound holds w₀ refs w) (hkept : models.Kept refs w)
    (changeset : ModelChangeset) (nonces : Nat → Nonce) :
    models.Sound holds w₀ refs (exec (models.change changeset nonces) w).2 ∧
      models.Kept refs (exec (models.change changeset nonces) w).2 := by
  rcases change_cases models w changeset nonces with ⟨-, hsame⟩ | ⟨r, m, hreads, hcases⟩
  · exact ⟨hsound.same hsame, hkept.same hsame⟩
  obtain ⟨⟨shelf, hs, htidy⟩, hdrawn⟩ := hsound
  obtain ⟨-, -, hread⟩ := readable_of_reads himpl hs hreads
  have hversion := version_of_readable himpl hjson hs htidy hread
  obtain ⟨hid, hkey⟩ := version_spec hjson htidy hversion
  obtain ⟨hstore, hcatalog⟩ := hcases (hkept.no_dangling _ _ _ hread)
  generalize (exec (models.change changeset nonces) w).2 = w' at *
  have hdrawn' : ∀ r ∈ w'.vault.store, r ∈ w₀.vault.store ∨ r ∈ refs :=
    fun r hr => hdrawn r ((hstore r).mp hr)
  rcases hcatalog with hcatalog | ⟨m', hid', hkey', hcatalog⟩
  · have hread' : ∀ {id v m}, models.Readable w' id v m ↔ models.Readable w id v m := by
      intro id v m
      rw [Models.Readable, hcatalog, Models.Readable]
    refine ⟨⟨⟨shelf, hcatalog ▸ hs, htidy⟩, hdrawn'⟩, ?_, ?_⟩
    · intro id v m h
      exact (hstore _).mpr (hkept.no_dangling id v m (hread'.mp h))
    · intro ref href hin
      obtain ⟨id, v, m, h, heq⟩ := hkept.no_orphan ref href ((hstore ref).mp hin)
      exact ⟨id, v, m, hread'.mpr h, heq⟩
  · -- The version that is published refers to the secret of the one that was read.
    have hread' : ∀ {id v m}, models.Readable w' id v m ↔ _ :=
      fun {id v m} => readable_publish himpl hjson hs hcatalog
    refine ⟨⟨⟨_, hcatalog ▸ holds_published himpl hs, ?_⟩, hdrawn'⟩, ?_, ?_⟩
    · refine tidy_publish hjson htidy (fun _ h => h) (hkey' ▸ hkey) ?_
      intro id v m2 h2 heq
      rw [hid', hid]
      exact htidy.owned h2 hversion (heq.trans hkey')
    · intro id v m2 h
      rcases hread'.mp h with hold | ⟨-, -, rfl⟩
      · exact (hstore _).mpr (hkept.no_dangling id v m2 hold)
      · exact (hstore _).mpr (hkey' ▸ hkept.no_dangling _ _ _ hread)
    · intro ref href hin
      obtain ⟨id, v, m2, h, heq⟩ := hkept.no_orphan ref href ((hstore ref).mp hin)
      exact ⟨id, v, m2, hread'.mpr (.inl h), heq⟩

include himpl hjson in
/-- Where a secret and the versions of one id are gone, the stores are in step exactly when all of
these versions had this secret. -/
theorem kept_deleted (hs : holds w.catalog shelf) (htidy : models.Tidy refs shelf)
    (hkept : models.Kept refs w) (hread : models.Readable w id v m)
    (hmem : ∀ ref, ref ∈ w'.vault.store ↔ m.api_key ≠ ref ∧ ref ∈ w.vault.store)
    (hread' : ∀ {id' v m'}, models.Readable w' id' v m' ↔ id ≠ id' ∧ models.Readable w id' v m') :
    models.Kept refs w' ↔ ∀ v m', models.Readable w id v m' → m'.api_key = m.api_key := by
  have hversion := version_of_readable himpl hjson hs htidy hread
  constructor
  · intro h v m2 h2
    by_contra hne
    have hversion2 := version_of_readable himpl hjson hs htidy h2
    obtain ⟨id3, v3, m3, h3, heq⟩ := h.no_orphan m2.api_key (version_spec hjson htidy hversion2).2
      ((hmem _).mpr ⟨fun heq => hne heq.symm, hkept.no_dangling _ _ _ h2⟩)
    obtain ⟨hother, h3⟩ := hread'.mp h3
    exact hother (htidy.owned hversion2 (version_of_readable himpl hjson hs htidy h3) heq.symm)
  · intro hall
    constructor
    · intro id2 v2 m2 h2
      obtain ⟨hother, h2⟩ := hread'.mp h2
      refine (hmem _).mpr ⟨fun heq => ?_, hkept.no_dangling id2 v2 m2 h2⟩
      exact hother (htidy.owned hversion (version_of_readable himpl hjson hs htidy h2) heq)
    · intro ref href hin
      obtain ⟨hne, hin⟩ := (hmem ref).mp hin
      obtain ⟨id2, v2, m2, h2, rfl⟩ := hkept.no_orphan ref href hin
      refine ⟨id2, v2, m2, hread'.mpr ⟨?_, h2⟩, rfl⟩
      rintro rfl
      exact hne (hall v2 m2 h2).symm

include himpl hjson in
theorem delete_step (hsound : models.Sound holds w₀ refs w) (hkept : models.Kept refs w)
    (id : ModelId) :
    models.Sound holds w₀ refs (exec (models.delete id) w).2 ∧
      (models.Kept refs (exec (models.delete id) w).2 ↔ models.Meets w (.delete id)) := by
  rcases delete_cases models w id with ⟨hnot, hsame⟩ | ⟨hremoves, r, m, hreads, hstore, hcatalog⟩
  · refine ⟨hsound.same hsame, fun _ r m hreads hremoves => ?_, fun _ => hkept.same hsame⟩
    rcases hnot with hfails | hno
    · exact absurd hfails hremoves
    · exact absurd ⟨r, m, hreads⟩ hno
  obtain ⟨⟨shelf, hs, htidy⟩, hdrawn⟩ := hsound
  obtain ⟨hkind, hid, hread⟩ := readable_of_reads himpl hs hreads
  generalize (exec (models.delete id) w).2 = w' at *
  have hmem : ∀ ref, ref ∈ w'.vault.store ↔ m.api_key ≠ ref ∧ ref ∈ w.vault.store := by
    intro ref
    rw [hstore, Std.ExtTreeMap.mem_erase]
    simp
  have hdrawn' : ∀ r ∈ w'.vault.store, r ∈ w₀.vault.store ∨ r ∈ refs :=
    fun r hr => hdrawn r ((hmem r).mp hr).2
  rcases hcatalog with ⟨hfails, hcatalog⟩ | ⟨hdeletes, hcatalog⟩
  · refine ⟨⟨⟨shelf, hcatalog ▸ hs, htidy⟩, hdrawn'⟩, ?_, ?_⟩
    · intro h
      have hread' : models.Readable w' id.name r.version m := by
        rw [Models.Readable, hcatalog]
        exact hread
      exact absurd rfl ((hmem _).mp (h.no_dangling _ _ _ hread')).1
    · intro h
      exact absurd hfails (h r m hreads hremoves).1
  · rw [hkind, hid] at hcatalog
    have hread' : ∀ {id' v m'}, models.Readable w' id' v m' ↔
        id.name ≠ id' ∧ models.Readable w id' v m' :=
      fun {id' v m'} => readable_delete himpl hs hcatalog
    have hiff := kept_deleted himpl hjson hs htidy hkept hread hmem hread'
    refine ⟨⟨⟨_, hcatalog ▸ himpl.deleted MODEL_KIND id.name hs, tidy_delete htidy⟩, hdrawn'⟩, ?_, ?_⟩
    · intro h r' m' hreads' _
      rw [hreads.model_eq hreads']
      exact ⟨hdeletes, hiff.mp h⟩
    · intro h
      exact hiff.mpr (h r m hreads hremoves).2

/-! ## Runs -/

/-- No insertion draws an id that the vault has, or that another one drew. -/
structure Fresh (vault : Vault) (attempts : List Attempt) : Prop where
  nodup : (drawn attempts).Nodup
  absent : ∀ ref ∈ drawn attempts, ref ∉ vault.store

/-- What is true of the stores before the first call. -/
theorem sound_new (himpl : Implements models.catalog new holds) (vault : Vault) :
    models.Sound holds ⟨vault, new, []⟩ [] ⟨vault, new, []⟩ ∧ models.Kept [] ⟨vault, new, []⟩ := by
  refine ⟨⟨⟨_, himpl.init, ⟨by simp, ?_⟩⟩, fun _ h => .inl h⟩, ?_, by simp⟩
  · rintro id v m id' v' m' ⟨item, hitem, -⟩
    simp at hitem
  · intro id v m hread
    obtain ⟨item, hitem, -⟩ := (readable_iff himpl (w := ⟨vault, new, []⟩) himpl.init).mp hread
    simp at hitem

theorem drawn_concat (attempts : List Attempt) (attempt : Attempt) :
    drawn (attempts ++ [attempt]) = drawn attempts ++ attempt.op.drawn.toList := by
  rw [drawn, List.filterMap_append, ← drawn]
  cases h : attempt.op.drawn <;> simp [h]

include himpl hjson in
theorem attempt_step {failures : List Bool} {op : Op} (hsound : models.Sound holds w₀ refs w)
    (hkept : models.Kept refs w) (hfresh : ∀ ref ∈ op.drawn, ref ∉ refs ∧ ref ∉ w.vault.store) :
    models.Sound holds w₀ (refs ++ op.drawn.toList) (models.step w ⟨op, failures⟩) ∧
      (models.Kept (refs ++ op.drawn.toList) (models.step w ⟨op, failures⟩) ↔
        models.Meets { w with failures } op) := by
  have hsame : w.Same { w with failures } := ⟨rfl, rfl⟩
  have hstate : ∀ {α : Type} (call : Program ModelError (Stores σ) α) (w : Stores σ),
      (exec (call >>= fun _ => pure ()) w).2 = (exec call w).2 := by
    intro α call w
    rw [exec_bind]
    rcases exec call w with ⟨_ | _, _⟩ <;> rfl
  cases op with
  | insert model id nonce =>
    obtain ⟨hunused, habsent⟩ := hfresh id rfl
    have := insert_step himpl hjson (hsound.same hsame) (hkept.same hsame) model nonce hunused habsent
    rwa [← hstate] at this
  | change changeset nonces =>
    obtain ⟨hsound', hkept'⟩ :=
      change_step himpl hjson (hsound.same hsame) (hkept.same hsame) changeset nonces
    rw [← hstate] at hsound' hkept'
    simp only [Op.drawn, Option.toList_none, List.append_nil]
    exact ⟨hsound', fun _ => trivial, fun _ => hkept'⟩
  | delete id =>
    simp only [Op.drawn, Option.toList_none, List.append_nil]
    exact delete_step himpl hjson (hsound.same hsame) (hkept.same hsame) id

/-- The stores are in step at every moment exactly when every insertion that stores its secret
publishes, and every deletion that removes a secret deletes versions that all have this one. -/
theorem secrets_are_kept_iff (himpl : Implements models.catalog new holds)
    (hjson : models.type.RoundTrips) (vault : Vault) (attempts : List Attempt)
    (hfresh : Fresh vault attempts) :
    EveryState (fun before => models.Kept (drawn before) (models.run ⟨vault, new, []⟩ before))
        attempts ↔
      EveryStep (fun before attempt => models.Meets
        { models.run ⟨vault, new, []⟩ before with failures := attempt.failures } attempt.op)
        attempts := by
  obtain ⟨hsound, hkept⟩ := sound_new himpl vault
  refine everyState_iff_everyStep
    (I := fun before => models.Sound holds ⟨vault, new, []⟩ (drawn before) (models.run _ before))
    hsound hkept ?_
  intro before attempt hprefix hsound hkept
  obtain ⟨after, rfl⟩ := hprefix
  have hrun : models.run ⟨vault, new, []⟩ (before ++ [attempt]) =
      models.step (models.run ⟨vault, new, []⟩ before) attempt := by
    rw [Models.run, List.foldl_append]
    rfl
  rw [hrun, drawn_concat]
  refine (fun h => ⟨h.2, fun _ => h.1⟩) (attempt_step himpl hjson hsound hkept ?_)
  intro ref href
  have hall : drawn (before ++ [attempt] ++ after) = drawn before ++ ref :: drawn after := by
    simp [drawn, Option.mem_def.mp href]
  have hnodup := hall ▸ hfresh.nodup
  have habsent : ref ∉ vault.store := hfresh.absent ref (by rw [hall]; simp)
  have hunused : ref ∉ drawn before :=
    fun hin => (List.nodup_append.mp hnodup).2.2 ref hin ref (by simp) rfl
  refine ⟨hunused, fun hin => ?_⟩
  rcases hsound.drawn ref hin with hold | hin
  · exact habsent hold
  · exact hunused hin

end

/-! ## A second insertion -/

/-- Each number as so many ones and a zero. -/
def unary : List Nat → List UInt8
  | [] => []
  | n :: ns => List.replicate n 1 ++ 0 :: unary ns

def of_unary : List UInt8 → Nat → List Nat
  | [], _ => []
  | b :: bs, n => if b = 1 then of_unary bs (n + 1) else n :: of_unary bs 0

theorem of_unary_unary (ns : List Nat) : of_unary (unary ns) 0 = ns := by
  have hones : ∀ k rest n, of_unary (List.replicate k 1 ++ 0 :: rest) n = (n + k) :: of_unary rest 0 := by
    intro k
    induction k with
    | zero => simp [of_unary]
    | succ k ih =>
      intro rest n
      rw [List.replicate_succ, List.cons_append, of_unary, if_pos rfl, ih]
      congr 1
      omega
  induction ns with
  | nil => rfl
  | cons n ns ih => rw [unary, hones, ih, Nat.zero_add]

/-- A text as its length and its characters. -/
def text (s : String) : List Nat := s.toList.length :: s.toList.map Char.toNat

def take_text : List Nat → Option (String × List Nat)
  | [] => none
  | n :: rest => some (String.ofList ((rest.take n).map Char.ofNat), rest.drop n)

theorem take_text_text (s : String) (rest : List Nat) : take_text (text s ++ rest) = some (s, rest) := by
  simp [text, take_text, Function.comp_def]

/-- A codec that writes the fields one after the other. -/
def plainJson : Json EncryptedModel where
  to_vec m := unary (m.api_key.id :: (text m.id.name ++ (text m.base_url ++ (text m.client_id ++
    (text m.model ++ (m.system_prompt.map text).getD [])))))
  from_slice data :=
    match of_unary data 0 with
    | [] => none
    | key :: rest => do
      let (id, rest) ← take_text rest
      let (base_url, rest) ← take_text rest
      let (client_id, rest) ← take_text rest
      let (model, rest) ← take_text rest
      pure ⟨⟨id⟩, base_url, client_id, ⟨key⟩, model, (take_text rest).map Prod.fst⟩

/-- Models over the table of the database, with primitives that can be run. -/
def plainModels : Models PgCatalog (List UInt8) (List UInt8) := ⟨plainKeys, PgCatalog.store, plainJson⟩

theorem plainModels_round_trips : plainModels.type.RoundTrips := by
  rintro ⟨⟨id⟩, base_url, client_id, ⟨key⟩, model, system_prompt⟩
  change plainJson.from_slice (plainJson.to_vec _) = _
  simp only [plainJson, of_unary_unary, take_text_text, Option.bind_eq_bind, Option.bind_some]
  cases system_prompt with
  | none => rfl
  | some prompt =>
    have := take_text_text prompt []
    rw [List.append_nil] at this
    simp [this]

def gpt : CreateModel := ⟨⟨"gpt"⟩, "url", "org", "sk", "gpt", none⟩

/-- A model is inserted twice, and then deleted. No store fails. -/
def insertedTwice : List Attempt :=
  [⟨.insert gpt ⟨1⟩ zeroNonce, []⟩, ⟨.insert gpt ⟨2⟩ zeroNonce, []⟩, ⟨.delete ⟨"gpt"⟩, []⟩]

/-- The deletion removes the second secret. All the versions are deleted, and the first secret stays. -/
theorem a_second_insertion_leaves_an_orphan :
    Fresh (emptyVault 0) insertedTwice ∧
      ¬ EveryState (fun before => plainModels.Kept (drawn before)
        (plainModels.run ⟨emptyVault 0, PgCatalog.new, []⟩ before)) insertedTwice := by
  refine ⟨⟨by decide, by decide +kernel⟩, fun h => ?_⟩
  have hkept := h insertedTwice (List.prefix_refl _)
  have hstays : ⟨1⟩ ∈ (plainModels.run ⟨emptyVault 0, PgCatalog.new, []⟩ insertedTwice).vault.store := by
    decide +kernel
  have hdeleted : ((plainModels.run ⟨emptyVault 0, PgCatalog.new, []⟩ insertedTwice).catalog.rows.all
      (·.deleted_at)) = true := by
    decide +kernel
  obtain ⟨id, v, m, ⟨data, hdata, -⟩, -⟩ := hkept.no_orphan ⟨1⟩ (by decide) hstays
  obtain ⟨row, hrow, -⟩ := Option.map_eq_some_iff.mp hdata
  have hlive := List.find?_some hrow
  rw [Bool.and_eq_true, List.all_eq_true.mp hdeleted row (List.mem_of_find?_eq_some hrow)] at hlive
  cases hlive.2

/-- A model is inserted, and its key is changed while the catalog fails. -/
def changedOnce : List Attempt :=
  [⟨.insert gpt ⟨1⟩ zeroNonce, []⟩,
    ⟨.change ⟨"gpt", [.SetApiKey "sk2"]⟩ (fun _ => zeroNonce), [false, false, false, true]⟩]

theorem one_insertion_keeps_its_secret :
    EveryState (fun before => plainModels.Kept (drawn before)
      (plainModels.run ⟨emptyVault 0, PgCatalog.new, []⟩ before)) changedOnce := by
  refine (secrets_are_kept_iff PgCatalog.implements plainModels_round_trips (emptyVault 0) changedOnce
    ⟨by decide, by decide +kernel⟩).mpr ?_
  intro before attempt after heq
  have hmem : attempt ∈ changedOnce := by simp [heq]
  rw [changedOnce, List.mem_cons, List.mem_singleton] at hmem
  rcases hmem with rfl | rfl
  · intro _
    simp
  · trivial

end marie.models
