-- The vault keeps secrets encrypted under a key derived for their namespace. It
-- encrypts with the raw key of the current epoch, and that codec stamps the
-- default epoch, so a secret is read back with the key of the default epoch.
import Marie.Secret.Rotation

open Program
open Std (ExtTreeMap TransOrd TransCmp LawfulEqOrd)

namespace marie.secret

/-! ## The vault -/

structure SecretRef where
  id : Nat
deriving DecidableEq

instance : Ord SecretRef := ⟨compareOn SecretRef.id⟩

instance : TransOrd SecretRef := inferInstanceAs (TransCmp (compareOn SecretRef.id))

instance : LawfulEqOrd SecretRef :=
  OrderedMap.lawful_compareOn (f := SecretRef.id) (by rintro ⟨_⟩ ⟨_⟩ rfl; rfl)

structure StoredSecret where
  id : SecretRef
  key_epoch : Nat
  ciphertext : List UInt8
  nonce : List UInt8
  algorithm : String
deriving DecidableEq

/-- `EncryptedSecret::from(StoredSecret)`. -/
def StoredSecret.encrypted (stored : StoredSecret) : EncryptedSecret :=
  ⟨stored.key_epoch, stored.ciphertext, stored.nonce, stored.algorithm⟩

/-- The manager, and the rows of the store in memory. -/
structure Vault where
  secrets : Inner
  store : ExtTreeMap SecretRef StoredSecret
deriving DecidableEq

inductive VaultError
  | SecretError (error : SecretError)
  | UnknownSecret (id : SecretRef)
deriving DecidableEq

inductive VaultFault
  | Err (error : VaultError)
  | Panic
deriving DecidableEq

/-- `#[from] SecretError`. -/
def VaultFault.from_secret : Fault → VaultFault
  | .Err error => .Err (.SecretError error)
  | .Panic => .Panic

/-- A call of the manager. -/
def secrets {α : Type} (call : Program Fault Inner α) : Program VaultFault Vault α :=
  ExceptT.mk fun v =>
    ((exec call v.secrets).1.mapError .from_secret, { v with secrets := (exec call v.secrets).2 })

/-! ## The rows -/

def insert_secret (secret : StoredSecret) : Program VaultFault Vault Unit :=
  modify fun v => { v with store := v.store.insert secret.id secret }

def replace_secret (secret : StoredSecret) : Program VaultFault Vault Unit :=
  modify fun v => { v with store := v.store.insert secret.id secret }

def remove_secret (id : SecretRef) : Program VaultFault Vault Unit :=
  modify fun v => { v with store := v.store.erase id }

def get_secret (id : SecretRef) : Program VaultFault Vault (Option StoredSecret) :=
  asks (·.store[id]?)

/-! ## The calls -/

section Calls

variable {Key Tag : Type} (crypto : Crypto Key Tag)

/-- `namespace.as_bytes()`. -/
def as_bytes (name : String) : List UInt8 := name.toUTF8.data.toList

/-- The row that `store` and `update` write. -/
def encrypted_row (id : SecretRef) (nonce : Nonce) (name : String) (secret : List UInt8) :
    Program VaultFault Vault StoredSecret := do
  let epoch ← secrets current_epoch
  let key ← secrets (derive_key crypto epoch (as_bytes name))
  let encrypted ← secrets (returned (key_encrypt crypto key nonce secret))
  pure ⟨id, encrypted.key_epoch, encrypted.ciphertext, encrypted.nonce, encrypted.algorithm⟩

/-- The id and the nonce are drawn at random. -/
def store (id : SecretRef) (nonce : Nonce) (name : String) (secret : List UInt8) :
    Program VaultFault Vault SecretRef := do
  let row ← encrypted_row crypto id nonce name secret
  insert_secret row
  pure id

def update (id : SecretRef) (nonce : Nonce) (name : String) (secret : List UInt8) :
    Program VaultFault Vault Unit := do
  let row ← encrypted_row crypto id nonce name secret
  replace_secret row

def remove (id : SecretRef) : Program VaultFault Vault Unit := remove_secret id

def get_decrypted (id : SecretRef) (name : String) : Program VaultFault Vault (List UInt8) := do
  match ← get_secret id with
  | none => throw (.Err (.UnknownSecret id))
  | some secret => do
    let key ← secrets (derive_key crypto secret.key_epoch (as_bytes name))
    secrets (returned (key_decrypt crypto key secret.encrypted))

end Calls

/-! ## What is written -/

variable {Key Tag : Type} {crypto : Crypto Key Tag} {v v' : Vault} {id : SecretRef} {nonce : Nonce}
  {name : String} {secret : List UInt8}

theorem secrets_of_ok {α : Type} {call : Program Fault Inner α} {a : α}
    (h : exec call v.secrets = (.ok a, v.secrets)) : exec (secrets call) v = (.ok a, v) := by
  change ((exec call v.secrets).1.mapError VaultFault.from_secret,
    { v with secrets := (exec call v.secrets).2 }) = _
  rw [h]
  rfl

theorem secrets_of_error {α : Type} {call : Program Fault Inner α} {fault : Fault}
    (h : exec call v.secrets = (.error fault, v.secrets)) :
    exec (secrets call) v = (.error (.from_secret fault), v) := by
  change ((exec call v.secrets).1.mapError VaultFault.from_secret,
    { v with secrets := (exec call v.secrets).2 }) = _
  rw [h]
  rfl

/-- The row has a ciphertext under the key of the current epoch, but the default epoch. -/
structure RowOf (crypto : Crypto Key Tag) (v : Vault) (id : SecretRef) (name : String)
    (secret : List UInt8) (row : StoredSecret) : Prop where
  id : row.id = id
  key_epoch : row.key_epoch = DEFAULT_EPOCH
  nonce : row.nonce.length = 12
  ciphertext : ∃ ikm, v.secrets.keys[v.secrets.current_epoch]? = some ikm ∧
    crypto.encrypt (crypto.expand ikm (as_bytes name)) row.nonce secret = some row.ciphertext

theorem encrypted_row_eq_ok {row : StoredSecret}
    (h : exec (encrypted_row crypto id nonce name secret) v = (.ok row, v')) :
    v' = v ∧ RowOf crypto v id name secret row := by
  rw [encrypted_row, exec_bind_ok (secrets_of_ok (exec_current_epoch _))] at h
  cases hkey : v.secrets.keys[v.secrets.current_epoch]? with
  | none =>
    rw [exec_bind_error (secrets_of_error (derive_key_of_unknown hkey))] at h
    cases h
  | some ikm =>
    rw [exec_bind_ok (secrets_of_ok (derive_key_of_loaded hkey))] at h
    cases hraw : key_encrypt crypto (crypto.expand ikm (as_bytes name)) nonce secret with
    | error fault =>
      rw [exec_bind_error (secrets_of_error (by rw [exec_returned, hraw]))] at h
      cases h
    | ok encrypted =>
      rw [exec_bind_ok (secrets_of_ok (by rw [exec_returned, hraw])), exec_pure] at h
      cases h
      obtain ⟨hciphertext, hepoch, hnonce⟩ := key_encrypt_eq_ok hraw
      refine ⟨rfl, rfl, hepoch, ?_, ikm, hkey, ?_⟩
      · rw [hnonce, nonce.length_eq]
      · rw [hnonce, hciphertext]

/-- The secret was stored under a new id, or took the place of the one under its id. -/
def Written (crypto : Crypto Key Tag) (v : Vault) (id : SecretRef) (nonce : Nonce) (name : String)
    (secret : List UInt8) (v' : Vault) : Prop :=
  exec (store crypto id nonce name secret) v = (.ok id, v') ∨
    exec (update crypto id nonce name secret) v = (.ok (), v')

theorem row_of_written (h : Written crypto v id nonce name secret v') :
    v'.secrets = v.secrets ∧ ∃ row, v'.store[id]? = some row ∧ RowOf crypto v id name secret row := by
  rcases h with h | h
  · obtain ⟨row, v1, hrow, hput⟩ := exec_bind_eq_ok h
    obtain ⟨rfl, hof⟩ := encrypted_row_eq_ok hrow
    cases hput
    exact ⟨rfl, row, by simp [hof.id], hof⟩
  · obtain ⟨row, v1, hrow, hput⟩ := exec_bind_eq_ok h
    obtain ⟨rfl, hof⟩ := encrypted_row_eq_ok hrow
    cases hput
    exact ⟨rfl, row, by simp [hof.id], hof⟩

/-! ## What is read back -/

/-- The vault after its manager was rotated. -/
def Vault.rotated (v : Vault) (ops : List Rotation) : Vault :=
  { v with secrets := rotate v.secrets ops }

/-- Every load is of an epoch that is not loaded already. -/
def FreshLoads (s : Inner) (ops : List Rotation) : Prop :=
  ∀ before epoch key after, ops = before ++ .add_epoch epoch key :: after →
    epoch ∉ (rotate s before).keys

/-- Through fresh loads, an epoch that is not retired keeps its key. -/
theorem key_of_freshLoads {s : Inner} {e : Nat} {ikm : SecretKey} {ops : List Rotation}
    (hikm : s.keys[e]? = some ikm) (hloads : FreshLoads s ops) (hkept : ¬ RetiredIn s ops e) :
    (rotate s ops).keys[e]? = some ikm := by
  induction ops using List.reverseRecOn with
  | nil => exact hikm
  | append_singleton ops op ih =>
    obtain ⟨hbefore, hlast⟩ := not_retiredIn_of_concat hkept
    have hkey : (rotate s ops).keys[e]? = some ikm := by
      refine ih ?_ hbefore
      rintro before epoch key after rfl
      exact hloads before epoch key (after ++ [op]) (by simp)
    rw [rotate_concat, key_of_other ?_ hlast, hkey]
    rintro key rfl
    refine hloads ops e key [] rfl ?_
    exact ExtTreeMap.mem_iff_isSome_getElem?.mpr (by rw [hkey]; rfl)

theorem mapError_eq_ok {α : Type} {r : Except Fault α} {a : α} :
    r.mapError VaultFault.from_secret = .ok a ↔ r = .ok a := by
  cases r <;> simp [Except.mapError]

/-- The read derives the key of the epoch of the row. -/
theorem get_decrypted_of_loaded {row : StoredSecret} {ikm : SecretKey}
    (hrow : v.store[id]? = some row) (hikm : v.secrets.keys[row.key_epoch]? = some ikm) :
    (exec (get_decrypted crypto id name) v).1 =
      (key_decrypt crypto (crypto.expand ikm (as_bytes name)) row.encrypted).mapError
        .from_secret := by
  rw [get_decrypted, get_secret, exec_bind_ok (exec_asks _ _), hrow]
  dsimp only
  rw [exec_bind_ok (secrets_of_ok (derive_key_of_loaded hikm))]
  change ((exec (returned _) v.secrets).1.mapError VaultFault.from_secret, _).1 = _
  rw [exec_returned]

theorem get_decrypted_of_unknown {row : StoredSecret} (hrow : v.store[id]? = some row)
    (hnone : v.secrets.keys[row.key_epoch]? = none) :
    (exec (get_decrypted crypto id name) v).1 =
      .error (.Err (.SecretError (.UnknownEpoch row.key_epoch))) := by
  rw [get_decrypted, get_secret, exec_bind_ok (exec_asks _ _), hrow]
  dsimp only
  rw [exec_bind_error (secrets_of_error (derive_key_of_unknown hnone))]
  rfl

/-- A row is read back as what it was made of exactly when the default epoch is loaded with a key
that derives the one it was encrypted with. -/
theorem get_decrypted_eq_ok_iff (haead : crypto.IdealAead) {row : StoredSecret} {key : Key}
    (hrow : v.store[id]? = some row) (hepoch : row.key_epoch = DEFAULT_EPOCH)
    (hnonce : row.nonce.length = 12)
    (hciphertext : crypto.encrypt key row.nonce secret = some row.ciphertext) :
    (exec (get_decrypted crypto id name) v).1 = .ok secret ↔
      ∃ ikm, v.secrets.keys[DEFAULT_EPOCH]? = some ikm ∧
        crypto.expand ikm (as_bytes name) = key := by
  cases hikm : v.secrets.keys[DEFAULT_EPOCH]? with
  | none =>
    rw [get_decrypted_of_unknown hrow (by rw [hepoch, hikm])]
    simp
  | some ikm =>
    have hread : key_decrypt crypto (crypto.expand ikm (as_bytes name)) row.encrypted = .ok secret ↔
        crypto.expand ikm (as_bytes name) = key :=
      key_decrypt_eq_ok_iff haead
        (show row.encrypted.nonce = (Nonce.mk row.nonce hnonce).bytes from rfl) hciphertext
    rw [get_decrypted_of_loaded hrow (by rw [hepoch, hikm]), mapError_eq_ok, hread]
    simp

/-! ## The round trip -/

/-- What is written is read back after a rotation that keeps its epoch exactly when it was written
under the default epoch, or when the default epoch then has a key that derives the same one. -/
theorem read_back_after_rotation_iff (haead : crypto.IdealAead)
    (hwritten : Written crypto v id nonce name secret v') {ops : List Rotation}
    (hloads : FreshLoads v.secrets ops) (hkept : ¬ RetiredIn v.secrets ops v.secrets.current_epoch) :
    (exec (get_decrypted crypto id name) (v'.rotated ops)).1 = .ok secret ↔
      v.secrets.current_epoch = DEFAULT_EPOCH ∨
        ∃ default ikm, (rotate v.secrets ops).keys[DEFAULT_EPOCH]? = some default ∧
          v.secrets.keys[v.secrets.current_epoch]? = some ikm ∧
          crypto.expand default (as_bytes name) = crypto.expand ikm (as_bytes name) := by
  obtain ⟨hsecrets, row, hrow, hof⟩ := row_of_written hwritten
  obtain ⟨ikm, hikm, hciphertext⟩ := hof.ciphertext
  have hread : (exec (get_decrypted crypto id name) (v'.rotated ops)).1 = .ok secret ↔ _ :=
    get_decrypted_eq_ok_iff haead hrow hof.key_epoch hof.nonce hciphertext
  have hrotated : (v'.rotated ops).secrets = rotate v.secrets ops := by
    rw [Vault.rotated, hsecrets]
  rw [hread, hrotated]
  constructor
  · rintro ⟨default, hdefault, hsame⟩
    exact .inr ⟨default, ikm, hdefault, hikm, hsame⟩
  · rintro (hcurrent | ⟨default, ikm', hdefault, hikm', hsame⟩)
    · -- The default epoch is the one that was not retired.
      have hkey := key_of_freshLoads hikm hloads hkept
      rw [hcurrent] at hkey
      exact ⟨ikm, hkey, rfl⟩
    · rw [hikm] at hikm'
      cases hikm'
      exact ⟨default, hdefault, hsame⟩

/-- An empty vault over the two epochs of a rotation. -/
def emptyVault (current : Nat) : Vault := ⟨midRotation current, ∅⟩

/-- Under the second epoch, what is stored is not read back, though nothing was rotated since. -/
theorem second_epoch_is_not_read_back :
    Reachable (emptyVault 1).secrets ∧
      (exec (store plainKeys ⟨5⟩ zeroNonce "api" [42]) (emptyVault 1)).1 = .ok ⟨5⟩ ∧
      (exec (get_decrypted plainKeys ⟨5⟩ "api")
        (exec (store plainKeys ⟨5⟩ zeroNonce "api" [42]) (emptyVault 1)).2).1 =
        .error (.Err (.SecretError .DecryptionFailed)) := by
  refine ⟨?_, by decide +kernel, by decide +kernel⟩
  exact @Reachable.built [(0, master 1), (1, master 2)] 1 _ (by decide +kernel)

theorem first_epoch_is_read_back :
    (exec (get_decrypted plainKeys ⟨5⟩ "api")
      ((exec (store plainKeys ⟨5⟩ zeroNonce "api" [42]) (emptyVault 0)).2.rotated
        [.set_current_epoch 1])).1 = .ok [42] := by
  have hwritten : Written plainKeys (emptyVault 0) ⟨5⟩ zeroNonce "api" [42]
      (exec (store plainKeys ⟨5⟩ zeroNonce "api" [42]) (emptyVault 0)).2 := .inl (by decide +kernel)
  have hloads : FreshLoads (emptyVault 0).secrets [.set_current_epoch 1] := by
    rintro before epoch key after h
    have hmem : Rotation.add_epoch epoch key ∈ [Rotation.set_current_epoch 1] := by
      rw [h]
      simp
    cases List.mem_singleton.mp hmem
  have hkept : ¬ RetiredIn (emptyVault 0).secrets [.set_current_epoch 1] 0 := by
    rintro ⟨before, op, after, h, hretires, -⟩
    have hmem : op ∈ [Rotation.set_current_epoch 1] := by
      rw [h]
      simp
    rw [List.mem_singleton.mp hmem] at hretires
    cases hretires
  exact (read_back_after_rotation_iff plainKeys_ideal hwritten hloads hkept).mpr (.inl rfl)

end marie.secret
