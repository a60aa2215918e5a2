-- What each call of `Models` does to the two stores, told once: later results
-- only read these.
import Marie.Model.Models

open Program

namespace marie.models

open catalog secret

/-! ## A call of a store -/

section

variable {σ α : Type} {w : Stores σ} {e : ModelError} {f : Unit → Program ModelError (Stores σ) α}

theorem exec_store_call_ok (h : w.failures.head? ≠ some true) :
    exec (store_call e >>= f) w = exec (f ()) { w with failures := w.failures.tail } := by
  refine exec_bind_ok ?_
  change ((if w.failures.head? = some true then Except.error e else .ok ()), _) = _
  rw [if_neg h]

theorem exec_store_call_fails (h : w.failures.head? = some true) :
    exec (store_call e >>= f) w = (.error e, { w with failures := w.failures.tail }) := by
  refine exec_bind_error ?_
  change ((if w.failures.head? = some true then Except.error e else .ok ()), _) = _
  rw [if_pos h]

theorem exec_in_vault_ok {β : Type} {call : Program VaultFault Vault β} {v : Vault} {b : β}
    (h : exec call w.vault = (.ok b, v)) :
    exec (in_vault call) w = (.ok b, { w with vault := v }) := by
  change ((exec call w.vault).1.mapError ModelError.VaultError,
    { w with vault := (exec call w.vault).2 }) = _
  rw [h]
  rfl

theorem exec_in_vault_error {β : Type} {call : Program VaultFault Vault β} {v : Vault}
    {fault : VaultFault} (h : exec call w.vault = (.error fault, v)) :
    exec (in_vault call) w = (.error (.VaultError fault), { w with vault := v }) := by
  change ((exec call w.vault).1.mapError ModelError.VaultError,
    { w with vault := (exec call w.vault).2 }) = _
  rw [h]
  rfl

end

/-! ## The vault -/

section

variable {σ Key Tag : Type} {models : Models σ Key Tag} {w : Stores σ} {id : SecretRef}
  {nonce : Nonce} {secret : String}

/-- The key is encrypted under the current epoch. -/
def Models.Encrypts (models : Models σ Key Tag) (w : Stores σ) (id : SecretRef) (nonce : Nonce)
    (secret : String) : Prop :=
  Succeeds (encrypted_row models.crypto id nonce MODEL_SECRETS (as_bytes secret)) w.vault

/-- An encryption writes nothing. -/
theorem encrypted_row_state {crypto : Crypto Key Tag} {name : String} {text : List UInt8}
    (v : Vault) : (exec (encrypted_row crypto id nonce name text) v).2 = v := by
  rw [encrypted_row, exec_bind_ok (secrets_of_ok (exec_current_epoch _))]
  cases hkey : v.secrets.keys[v.secrets.current_epoch]? with
  | none => rw [exec_bind_error (secrets_of_error (derive_key_of_unknown hkey))]
  | some ikm =>
    rw [exec_bind_ok (secrets_of_ok (derive_key_of_loaded hkey))]
    cases hraw : key_encrypt crypto (crypto.expand ikm (as_bytes name)) nonce text with
    | error fault => rw [exec_bind_error (secrets_of_error (exec_returned _))]
    | ok encrypted => rw [exec_bind_ok (secrets_of_ok (exec_returned _)), exec_pure]

/-- An encryption gives a row of the id, or stops the call before it wrote anything. -/
theorem exec_encrypted_row (w : Stores σ) (id : SecretRef) (nonce : Nonce) (secret : String) :
    (∃ row : StoredSecret, row.id = id ∧ models.Encrypts w id nonce secret ∧
      exec (in_vault (encrypted_row models.crypto id nonce MODEL_SECRETS (as_bytes secret))) w =
        (.ok row, w)) ∨
      ¬ models.Encrypts w id nonce secret ∧ ∃ fault,
        exec (in_vault (encrypted_row models.crypto id nonce MODEL_SECRETS (as_bytes secret))) w =
          (.error fault, w) := by
  have hstate := @encrypted_row_state Key Tag id nonce models.crypto MODEL_SECRETS
    (as_bytes secret) w.vault
  cases hrow : exec (encrypted_row models.crypto id nonce MODEL_SECRETS (as_bytes secret)) w.vault with
  | mk result v =>
    rw [hrow] at hstate
    obtain rfl : v = w.vault := hstate
    cases result with
    | ok row =>
      obtain ⟨-, hof⟩ := encrypted_row_eq_ok hrow
      exact .inl ⟨row, hof.id, ⟨row, _, hrow⟩, exec_in_vault_ok hrow⟩
    | error fault => exact .inr ⟨not_succeeds_of_eq hrow, _, exec_in_vault_error hrow⟩

/-- The secret is stored. -/
def Models.StoresSecret (models : Models σ Key Tag) (w : Stores σ) (id : SecretRef) (nonce : Nonce)
    (secret : String) : Prop :=
  models.Encrypts w id nonce secret ∧ w.failures.head? ≠ some true

theorem exec_store (models : Models σ Key Tag) (w : Stores σ) (id : SecretRef) (nonce : Nonce)
    (secret : String) :
    (∃ row, models.StoresSecret w id nonce secret ∧ exec (models.store id nonce secret) w =
      (.ok id, { w with
        vault := { w.vault with store := w.vault.store.insert id row }
        failures := w.failures.tail })) ∨
      ¬ models.StoresSecret w id nonce secret ∧ ∃ fault failures,
        exec (models.store id nonce secret) w = (.error fault, { w with failures }) := by
  rw [Models.store]
  rcases @exec_encrypted_row _ _ _ models w id nonce secret with
    ⟨row, rfl, hencrypts, hrow⟩ | ⟨hfails, fault, hrow⟩
  · rw [exec_bind_ok hrow]
    by_cases h : w.failures.head? = some true
    · rw [exec_store_call_fails h]
      exact .inr ⟨fun hstores => hstores.2 h, _, _, rfl⟩
    · rw [exec_store_call_ok h]
      exact .inl ⟨row, ⟨hencrypts, h⟩, rfl⟩
  · rw [exec_bind_error hrow]
    exact .inr ⟨fun hstores => hfails hstores.1, _, w.failures, rfl⟩

theorem exec_remove (v : Vault) (id : SecretRef) :
    exec (marie.secret.remove id) v = (.ok (), { v with store := v.store.erase id }) := rfl

/-- An update of a secret that the vault has leaves it the secrets that it has. -/
theorem update_keeps {catalog : σ} {secrets : SecretRef → Prop} (hid : secrets id) :
    Keeps (fun w : Stores σ => w.catalog = catalog ∧ ∀ ref, ref ∈ w.vault.store ↔ secrets ref)
      (models.update id nonce secret) fun _ => True := by
  rintro w ⟨hcatalog, hstore⟩
  refine ⟨?_, fun _ _ => trivial⟩
  rw [Models.update]
  rcases @exec_encrypted_row _ _ _ models w id nonce secret with
    ⟨row, rfl, -, hrow⟩ | ⟨-, fault, hrow⟩
  · rw [exec_bind_ok hrow]
    by_cases h : w.failures.head? = some true
    · rw [exec_store_call_fails h]
      exact ⟨hcatalog, hstore⟩
    · rw [exec_store_call_ok h]
      refine ⟨hcatalog, fun ref => ?_⟩
      change ref ∈ w.vault.store.insert row.id row ↔ _
      rw [Std.ExtTreeMap.mem_insert, hstore]
      constructor
      · rintro (heq | hin)
        · rwa [← Std.LawfulEqCmp.eq_of_compare heq]
        · exact hin
      · exact .inr
  · rw [exec_bind_error hrow]
    exact ⟨hcatalog, hstore⟩

end

/-! ## The catalog -/

section

variable {σ Key Tag : Type} {models : Models σ Key Tag} {w : Stores σ} {id : String}

/-- The latest version of the model is read. -/
structure Models.Reads (models : Models σ Key Tag) (w : Stores σ) (id : String) (r : CatalogItemRef)
    (m : EncryptedModel) : Prop where
  found : w.failures.head? ≠ some true
  ref : models.catalog.last_catalog_ref MODEL_KIND id w.catalog = some r
  read : w.failures.tail.head? ≠ some true
  item : ∃ data, models.catalog.get_catalog_item r.kind r.id r.version w.catalog = some data ∧
    models.json.from_slice data = some m

/-- The call reads one latest version only. -/
theorem Models.Reads.model_eq {r r' : CatalogItemRef} {m m' : EncryptedModel}
    (h : models.Reads w id r m) (h' : models.Reads w id r' m') : m' = m := by
  have href := h'.ref
  rw [h.ref] at href
  cases href
  obtain ⟨data, hdata, hm⟩ := h.item
  obtain ⟨data', hdata', hm'⟩ := h'.item
  rw [hdata] at hdata'
  cases hdata'
  rw [hm] at hm'
  exact (Option.some.inj hm').symm

theorem exec_latest_ref (h : w.failures.head? ≠ some true) :
    exec (Catalog.latest_ref models.catalog models.type id) w =
      (match models.catalog.last_catalog_ref MODEL_KIND id w.catalog with
        | none => .error (.CatalogError (.NotFound MODEL_KIND id))
        | some r => .ok r, { w with failures := w.failures.tail }) := by
  rw [Catalog.latest_ref, exec_store_call_ok h, exec_bind_ok (exec_asks _ _)]
  dsimp only [Models.type, EncryptedModel.catalogable]
  cases models.catalog.last_catalog_ref MODEL_KIND id w.catalog <;> rfl

theorem exec_deref {r : CatalogItemRef} (h : w.failures.head? ≠ some true) :
    exec (Catalog.deref models.catalog models.type r) w =
      (match models.catalog.get_catalog_item r.kind r.id r.version w.catalog with
        | none => .error (.CatalogError (.NotFound r.kind r.id))
        | some data => match models.json.from_slice data with
          | none => .error (.CatalogError .Deserialize)
          | some m => .ok ⟨r.version, m⟩, { w with failures := w.failures.tail }) := by
  rw [Catalog.deref, exec_store_call_ok h, exec_bind_ok (exec_asks _ _)]
  dsimp only [Models.type, EncryptedModel.catalogable]
  cases models.catalog.get_catalog_item r.kind r.id r.version w.catalog with
  | none => rfl
  | some data => cases hm : models.json.from_slice data <;> simp [hm]

/-- A call that reads the latest version, and goes on with it. -/
theorem exec_read {α : Type} (models : Models σ Key Tag) (w : Stores σ) (id : String)
    (f : CatalogItemRef → Item EncryptedModel → Program ModelError (Stores σ) α) :
    (∃ r m, models.Reads w id r m ∧
      exec (Catalog.latest_ref models.catalog models.type id >>= fun r =>
        Catalog.deref models.catalog models.type r >>= f r) w =
        exec (f r ⟨r.version, m⟩) { w with failures := w.failures.tail.tail }) ∨
      (¬ ∃ r m, models.Reads w id r m) ∧ ∃ error failures,
        exec (Catalog.latest_ref models.catalog models.type id >>= fun r =>
          Catalog.deref models.catalog models.type r >>= f r) w =
          (.error error, { w with failures }) := by
  by_cases h0 : w.failures.head? = some true
  · refine .inr ⟨fun ⟨_, _, h⟩ => h.found h0, ?_⟩
    rw [Catalog.latest_ref, bind_assoc, exec_store_call_fails h0]
    exact ⟨_, _, rfl⟩
  rw [exec_bind, exec_latest_ref h0]
  cases hlast : models.catalog.last_catalog_ref MODEL_KIND id w.catalog with
  | none =>
    refine .inr ⟨fun ⟨_, _, h⟩ => ?_, _, _, rfl⟩
    rw [h.ref] at hlast
    cases hlast
  | some r =>
    have hsame : ∀ {r' m}, models.Reads w id r' m → r' = r := by
      intro r' m h
      rw [h.ref] at hlast
      exact Option.some.inj hlast
    dsimp only
    by_cases h1 : w.failures.tail.head? = some true
    · refine .inr ⟨fun ⟨_, _, h⟩ => h.read h1, ?_⟩
      rw [Catalog.deref, bind_assoc, exec_store_call_fails h1]
      exact ⟨_, _, rfl⟩
    rw [exec_bind, exec_deref h1]
    dsimp only
    cases hget : models.catalog.get_catalog_item r.kind r.id r.version w.catalog with
    | none =>
      refine .inr ⟨fun ⟨r', m, h⟩ => ?_, _, _, rfl⟩
      obtain ⟨data, hdata, -⟩ := h.item
      rw [hsame h, hget] at hdata
      cases hdata
    | some data =>
      cases hm : models.json.from_slice data with
      | none =>
        refine .inr ⟨fun ⟨r', m, h⟩ => ?_, _, _, by simp only [hm]; rfl⟩
        obtain ⟨data', hdata, hm'⟩ := h.item
        rw [hsame h, hget] at hdata
        cases hdata
        rw [hm] at hm'
        cases hm'
      | some m => exact .inl ⟨r, m, ⟨h0, hlast, h1, data, hget, hm⟩, by simp only [hm]⟩

theorem exec_publish (models : Models σ Key Tag) (w : Stores σ) (m : EncryptedModel) :
    (w.failures.head? = some true ∧ ∃ error, exec (Catalog.publish models.catalog models.type m) w =
      (.error error, { w with failures := w.failures.tail })) ∨
      (w.failures.head? ≠ some true ∧ exec (Catalog.publish models.catalog models.type m) w =
        (.ok (models.catalog.insert_catalog_item ⟨m.id.name, MODEL_KIND, models.json.to_vec m⟩
            w.catalog).1,
          { w with
            failures := w.failures.tail
            catalog := (models.catalog.insert_catalog_item
              ⟨m.id.name, MODEL_KIND, models.json.to_vec m⟩ w.catalog).2 })) := by
  rw [Catalog.publish]
  by_cases h : w.failures.head? = some true
  · rw [exec_store_call_fails h]
    exact .inl ⟨h, _, rfl⟩
  · rw [exec_store_call_ok h]
    exact .inr ⟨h, rfl⟩

end

/-! ## The calls -/

section

variable {σ Key Tag : Type} (models : Models σ Key Tag) (w : Stores σ)

/-- Nothing is written. -/
def Stores.Same (w w' : Stores σ) : Prop := w'.vault.store = w.vault.store ∧ w'.catalog = w.catalog

/-- The catalog after the publication of a model. -/
def Models.published (models : Models σ Key Tag) (m : EncryptedModel) (catalog : σ) : σ :=
  (models.catalog.insert_catalog_item ⟨m.id.name, MODEL_KIND, models.json.to_vec m⟩ catalog).2

/-- An insertion stores its secret and publishes, or stores its secret only, or writes nothing. -/
theorem insert_cases (model : CreateModel) (id : SecretRef) (nonce : Nonce) :
    (¬ models.StoresSecret w id nonce model.api_key ∧
        w.Same (exec (models.insert model id nonce) w).2) ∨
      (models.StoresSecret w id nonce model.api_key ∧ ∃ row,
        (exec (models.insert model id nonce) w).2.vault.store = w.vault.store.insert id row ∧
        ((w.failures.tail.head? = some true ∧
            (exec (models.insert model id nonce) w).2.catalog = w.catalog) ∨
          (w.failures.tail.head? ≠ some true ∧ ∃ m : EncryptedModel, m.id = model.id ∧
            m.api_key = id ∧ (exec (models.insert model id nonce) w).2.catalog =
              models.published m w.catalog))) := by
  rw [Models.insert]
  rcases exec_store models w id nonce model.api_key with
    ⟨row, hstores, hrow⟩ | ⟨hfails, fault, failures, hrow⟩
  · rw [exec_bind_ok hrow]
    refine .inr ⟨hstores, row, ?_⟩
    rcases exec_publish models _ _ with ⟨h, error, hpublish⟩ | ⟨h, hpublish⟩
    · rw [exec_bind_error hpublish]
      exact ⟨rfl, .inl ⟨h, rfl⟩⟩
    · rw [exec_bind_ok hpublish]
      exact ⟨rfl, .inr ⟨h, _, rfl, rfl, rfl⟩⟩
  · rw [exec_bind_error hrow]
    exact .inl ⟨hfails, rfl, rfl⟩

/-- The changes keep the id of the model and the secret that it refers to. -/
theorem changes_keep {models : Models σ Key Tag} {m : EncryptedModel} {nonces : Nat → Nonce}
    {catalog : σ} {secrets : SecretRef → Prop} (hkey : secrets m.api_key)
    (changes : List ModelChange) :
    Keeps (fun w : Stores σ => w.catalog = catalog ∧ ∀ ref, ref ∈ w.vault.store ↔ secrets ref)
      (changes.zipIdx.foldlM (fun model (change, i) => models.apply_change (nonces i) model change) m)
      fun m' => m'.id = m.id ∧ m'.api_key = m.api_key := by
  refine keeps_foldlM_acc _ ⟨rfl, rfl⟩ ?_
  rintro m' ⟨hid, hkey'⟩ ⟨change, i⟩ -
  cases change with
  | SetApiKey value =>
    refine (update_keeps (hkey' ▸ hkey)).bind fun _ _ => ?_
    exact keeps_pure ⟨hid, hkey'⟩
  | _ => exact keeps_pure ⟨hid, hkey'⟩

/-- A change of a model whose secret the vault has leaves the vault the secrets that it has. -/
theorem change_cases (changeset : ModelChangeset) (nonces : Nat → Nonce) :
    ((¬ ∃ r m, models.Reads w changeset.id r m) ∧
        w.Same (exec (models.change changeset nonces) w).2) ∨
      ∃ r m, models.Reads w changeset.id r m ∧ (m.api_key ∈ w.vault.store →
        (∀ ref, ref ∈ (exec (models.change changeset nonces) w).2.vault.store ↔
          ref ∈ w.vault.store) ∧
        ((exec (models.change changeset nonces) w).2.catalog = w.catalog ∨
          ∃ m' : EncryptedModel, m'.id = m.id ∧ m'.api_key = m.api_key ∧
            (exec (models.change changeset nonces) w).2.catalog = models.published m' w.catalog)) := by
  rw [Models.change, Catalog.latest, bind_assoc]
  rcases exec_read models w changeset.id _ with ⟨r, m, hreads, hexec⟩ | ⟨hno, error, failures, hexec⟩
  · rw [hexec]
    refine .inr ⟨r, m, hreads, fun hkey => ?_⟩
    have hchanges := @changes_keep _ _ _ models m nonces w.catalog (· ∈ w.vault.store) hkey
      changeset.changes { w with failures := w.failures.tail.tail } ⟨rfl, fun _ => Iff.rfl⟩
    rw [exec_bind]
    generalize hr : exec (changeset.changes.zipIdx.foldlM _ m) _ = run at hchanges ⊢
    obtain ⟨result, w'⟩ := run
    obtain ⟨⟨hcatalog, hstore⟩, hmodel⟩ := hchanges
    cases result with
    | error e => exact ⟨hstore, .inl hcatalog⟩
    | ok m' =>
      obtain ⟨hid, hkey'⟩ := hmodel m' rfl
      dsimp only
      rcases exec_publish models w' m' with ⟨-, error, hpublish⟩ | ⟨-, hpublish⟩
      · rw [exec_bind_error hpublish]
        exact ⟨hstore, .inl hcatalog⟩
      · rw [exec_bind_ok hpublish]
        exact ⟨hstore, .inr ⟨m', hid, hkey', by rw [← hcatalog]; rfl⟩⟩
  · rw [hexec]
    exact .inl ⟨hno, rfl, rfl⟩

/-- A deletion removes the secret and then the versions, or the secret only, or writes nothing. -/
theorem delete_cases (id : ModelId) :
    ((w.failures.tail.tail.head? = some true ∨ ¬ ∃ r m, models.Reads w id.name r m) ∧
        w.Same (exec (models.delete id) w).2) ∨
      (w.failures.tail.tail.head? ≠ some true ∧ ∃ r m, models.Reads w id.name r m ∧
        (exec (models.delete id) w).2.vault.store = w.vault.store.erase m.api_key ∧
        ((w.failures.tail.tail.tail.head? = some true ∧
            (exec (models.delete id) w).2.catalog = w.catalog) ∨
          (w.failures.tail.tail.tail.head? ≠ some true ∧ (exec (models.delete id) w).2.catalog =
            models.catalog.delete_catalog_item r.kind r.id w.catalog))) := by
  rw [Models.delete]
  rcases exec_read models w id.name _ with ⟨r, m, hreads, hexec⟩ | ⟨hno, error, failures, hexec⟩
  · rw [hexec, Models.remove, bind_assoc]
    by_cases h : w.failures.tail.tail.head? = some true
    · rw [exec_store_call_fails h]
      exact .inl ⟨.inl h, rfl, rfl⟩
    · rw [exec_store_call_ok h, exec_bind_ok (exec_in_vault_ok (exec_remove _ _)),
        Catalog.delete]
      refine .inr ⟨h, r, m, hreads, ?_⟩
      by_cases h' : w.failures.tail.tail.tail.head? = some true
      · rw [exec_store_call_fails h']
        exact ⟨rfl, .inl ⟨h', rfl⟩⟩
      · rw [exec_store_call_ok h']
        exact ⟨rfl, .inr ⟨h', rfl⟩⟩
  · rw [hexec]
    exact .inl ⟨.inr hno, rfl, rfl⟩

end

end marie.models
