-- The models that agents run on. A model is published in the catalog, and its API
-- key is a secret of the vault that the published version refers to. The calls
-- write to the two stores one after the other, and any call of a store may fail.
import Marie.Catalog.Store
import Marie.Secret.Vault

open Program

namespace marie.models

open catalog secret

/-- A string. -/
structure ModelId where
  name : String
deriving DecidableEq

/-- The one variant of the enum. -/
structure EncryptedModel where
  OpenAICompatible ::
  id : ModelId
  base_url : String
  client_id : String
  api_key : SecretRef
  model : String
  system_prompt : Option String
deriving DecidableEq

/-- The one variant of the enum. -/
structure CreateModel where
  OpenAICompatible ::
  id : ModelId
  base_url : String
  client_id : String
  api_key : String
  model : String
  system_prompt : Option String

inductive ModelChange where
  | SetBaseUrl (value : String)
  | SetClientId (value : String)
  | SetApiKey (value : String)
  | SetModel (value : String)
  | SetSystemPrompt (value : String)

structure ModelChangeset where
  id : String
  changes : List ModelChange

structure ModelRef where
  ref : CatalogItemRef
deriving DecidableEq

inductive CatalogError where
  | StoreError
  | NotFound (kind id : String)
  | Deserialize
deriving DecidableEq

/-- Of the errors of the vault, the one of its store is apart. -/
inductive ModelError where
  | VaultError (fault : VaultFault)
  | StorageError
  | CatalogError (error : CatalogError)
deriving DecidableEq

/-! ## The two stores -/

/-- `failures` says of each call of a store to come whether it fails. -/
structure Stores (σ : Type) where
  vault : Vault
  catalog : σ
  failures : List Bool

/-- The call of a store that fails writes nothing. -/
def store_call {σ : Type} (error : ModelError) : Program ModelError (Stores σ) Unit :=
  ExceptT.mk fun w =>
    (if w.failures.head? = some true then .error error else .ok (),
      { w with failures := w.failures.tail })

/-- The part of a call of the vault that its store has no part in. -/
def in_vault {σ α : Type} (call : Program VaultFault Vault α) : Program ModelError (Stores σ) α :=
  ExceptT.mk fun w =>
    ((exec call w.vault).1.mapError .VaultError, { w with vault := (exec call w.vault).2 })

/-- What a type of the catalog gives: its kind, the id of an item, and its JSON. -/
structure Catalogable (C : Type) where
  KIND : String
  id : C → String
  to_vec : C → List UInt8
  from_slice : List UInt8 → Option C

/-- What is written is read back. -/
def Catalogable.RoundTrips {C : Type} (type : Catalogable C) : Prop :=
  ∀ item, type.from_slice (type.to_vec item) = some item

structure Item (C : Type) where
  version : Nat
  item : C

namespace Catalog

variable {σ C : Type} (store : StoreCatalog σ) (type : Catalogable C)

def publish (item : C) : Program ModelError (Stores σ) CatalogItemRef := do
  store_call (.CatalogError .StoreError)
  ExceptT.mk fun w =>
    let (ref, catalog) :=
      store.insert_catalog_item ⟨type.id item, type.KIND, type.to_vec item⟩ w.catalog
    (.ok ref, { w with catalog })

def deref (r : CatalogItemRef) : Program ModelError (Stores σ) (Item C) := do
  store_call (.CatalogError .StoreError)
  match ← asks fun w => store.get_catalog_item r.kind r.id r.version w.catalog with
  | none => throw (.CatalogError (.NotFound r.kind r.id))
  | some data =>
    match type.from_slice data with
    | none => throw (.CatalogError .Deserialize)
    | some item => pure ⟨r.version, item⟩

def latest_ref (id : String) : Program ModelError (Stores σ) CatalogItemRef := do
  store_call (.CatalogError .StoreError)
  match ← asks fun w => store.last_catalog_ref type.KIND id w.catalog with
  | none => throw (.CatalogError (.NotFound type.KIND id))
  | some r => pure r

def latest (id : String) : Program ModelError (Stores σ) (Item C) := do
  let r ← latest_ref store type id
  deref store type r

def delete (r : CatalogItemRef) : Program ModelError (Stores σ) Unit := do
  store_call (.CatalogError .StoreError)
  modify fun w => { w with catalog := store.delete_catalog_item r.kind r.id w.catalog }

end Catalog

/-! ## The calls -/

def MODEL_KIND : String := "/marie/catalog/models"

/-- The namespace of the keys. -/
def MODEL_SECRETS : String := "/marie/secrets/models"

/-- The codec of JSON. -/
structure Json (C : Type) where
  to_vec : C → List UInt8
  from_slice : List UInt8 → Option C

def EncryptedModel.catalogable (json : Json EncryptedModel) : Catalogable EncryptedModel :=
  ⟨MODEL_KIND, fun model => model.id.name, json.to_vec, json.from_slice⟩

/-- What the calls use: the cryptography of the vault, the store of the catalog, and JSON. -/
structure Models (σ Key Tag : Type) where
  crypto : Crypto Key Tag
  catalog : StoreCatalog σ
  json : Json EncryptedModel

namespace Models

variable {σ Key Tag : Type} (models : Models σ Key Tag)

def type : Catalogable EncryptedModel := EncryptedModel.catalogable models.json

/-- `Vault::store`. The id and the nonce are drawn at random. -/
def store (id : SecretRef) (nonce : Nonce) (secret : String) :
    Program ModelError (Stores σ) SecretRef := do
  let row ← in_vault (encrypted_row models.crypto id nonce MODEL_SECRETS (as_bytes secret))
  store_call .StorageError
  in_vault (insert_secret row)
  pure id

/-- `Vault::update`. -/
def update (id : SecretRef) (nonce : Nonce) (secret : String) :
    Program ModelError (Stores σ) Unit := do
  let row ← in_vault (encrypted_row models.crypto id nonce MODEL_SECRETS (as_bytes secret))
  store_call .StorageError
  in_vault (replace_secret row)

/-- `Vault::remove`. -/
def remove (id : SecretRef) : Program ModelError (Stores σ) Unit := do
  store_call .StorageError
  in_vault (secret.remove id)

def insert (model : CreateModel) (id : SecretRef) (nonce : Nonce) :
    Program ModelError (Stores σ) ModelRef := do
  let api_key ← models.store id nonce model.api_key
  let item_ref ← Catalog.publish models.catalog models.type
    ⟨model.id, model.base_url, model.client_id, api_key, model.model, model.system_prompt⟩
  pure ⟨item_ref⟩

def apply_change (nonce : Nonce) (model : EncryptedModel) :
    ModelChange → Program ModelError (Stores σ) EncryptedModel
  | .SetBaseUrl value => pure { model with base_url := value }
  | .SetClientId value => pure { model with client_id := value }
  | .SetApiKey value => do
    models.update model.api_key nonce value
    pure model
  | .SetModel value => pure { model with model := value }
  | .SetSystemPrompt value => pure { model with system_prompt := some value }

/-- A nonce is drawn for each change, though only the ones of the key use theirs. -/
def change (changeset : ModelChangeset) (nonces : Nat → Nonce) :
    Program ModelError (Stores σ) ModelRef := do
  let item ← Catalog.latest models.catalog models.type changeset.id
  let updated ← changeset.changes.zipIdx.foldlM
    (fun model (change, i) => models.apply_change (nonces i) model change) item.item
  let item_ref ← Catalog.publish models.catalog models.type updated
  pure ⟨item_ref⟩

def delete (id : ModelId) : Program ModelError (Stores σ) Unit := do
  let r ← Catalog.latest_ref models.catalog models.type id.name
  let item ← Catalog.deref models.catalog models.type r
  Models.remove item.item.api_key
  Catalog.delete models.catalog r

end Models

/-! ## Runs -/

/-- A call, with what it draws. -/
inductive Op where
  | insert (model : CreateModel) (id : SecretRef) (nonce : Nonce)
  | change (changeset : ModelChangeset) (nonces : Nat → Nonce)
  | delete (id : ModelId)

/-- The id that an insertion draws for its secret. -/
def Op.drawn : Op → Option SecretRef
  | .insert _ id _ => some id
  | _ => none

/-- A call, and which of its calls of the stores fail. -/
structure Attempt where
  op : Op
  failures : List Bool

variable {σ Key Tag : Type}

def Models.perform (models : Models σ Key Tag) : Op → Program ModelError (Stores σ) Unit
  | .insert model id nonce => do let _ ← models.insert model id nonce
  | .change changeset nonces => do let _ ← models.change changeset nonces
  | .delete id => models.delete id

def Models.step (models : Models σ Key Tag) (w : Stores σ) (attempt : Attempt) : Stores σ :=
  (exec (models.perform attempt.op) { w with failures := attempt.failures }).2

def Models.run (models : Models σ Key Tag) (w : Stores σ) (attempts : List Attempt) : Stores σ :=
  attempts.foldl models.step w

/-- The ids that the insertions drew. -/
def drawn (attempts : List Attempt) : List SecretRef := attempts.filterMap (·.op.drawn)

end marie.models
