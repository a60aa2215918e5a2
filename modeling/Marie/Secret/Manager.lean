-- The master keys of a node, one per epoch, and what is derived from them. The
-- primitives of the cryptography are parameters; the laws assumed of them are
-- named where they are used.
import Marie.Lib.Program
import Marie.Node

open Program
open Std (ExtTreeMap)

namespace marie.secret

/-! ## The primitives -/

/-- 32 bytes of a master key. -/
structure SecretKey where
  bytes : List UInt8
  length_eq : bytes.length = 32
deriving DecidableEq

/-- HKDF-SHA256 to 32 bytes, ChaCha20-Poly1305 and HMAC-SHA256. The keys that are derived have
a type of their own, and so have the tags: an ideal HKDF tells all infos apart, which 32 bytes
cannot. Neither HKDF nor HMAC fails at these lengths. -/
structure Crypto (Key Tag : Type) where
  expand : SecretKey → List UInt8 → Key
  encrypt : Key → List UInt8 → List UInt8 → Option (List UInt8)
  decrypt : Key → List UInt8 → List UInt8 → Option (List UInt8)
  mac : Key → List UInt8 → Tag

/-- An ideal AEAD: the same key and nonce invert an encryption, and another key fails. -/
structure Crypto.IdealAead {Key Tag : Type} (crypto : Crypto Key Tag) : Prop where
  inverts : ∀ key nonce plaintext ciphertext,
    crypto.encrypt key nonce plaintext = some ciphertext →
      crypto.decrypt key nonce ciphertext = some plaintext
  other_key_fails : ∀ key key' nonce plaintext ciphertext,
    crypto.encrypt key nonce plaintext = some ciphertext → key' ≠ key →
      crypto.decrypt key' nonce ciphertext = none

inductive SecretError
  | EncryptionFailed
  | DecryptionFailed
  | Utf8DecodingFailed (bytes : List UInt8)
  | UnknownEpoch (epoch : Nat)
  | CannotRetireCurrentEpoch (epoch : Nat)
  | LastEpoch
  | CurrentEpochNotProvided (epoch : Nat)
  | NoKeysProvided
deriving DecidableEq

/-- An error that is returned, or a panic. -/
inductive Fault
  | Err (error : SecretError)
  | Panic
deriving DecidableEq

/-! ## The manager -/

def DEFAULT_EPOCH : Nat := 0

structure Inner where
  keys : ExtTreeMap Nat SecretKey
  current_epoch : Nat
deriving DecidableEq

def with_epochs (epochs : List (Nat × SecretKey)) (current : Nat) : Except SecretError Inner :=
  let keys := epochs.foldl (fun keys x => keys.insert x.1 x.2) (∅ : ExtTreeMap Nat SecretKey)
  if keys.isEmpty then .error .NoKeysProvided
  else if !keys.contains current then .error (.CurrentEpochNotProvided current)
  else .ok ⟨keys, current⟩

def add_epoch (epoch : Nat) (key : SecretKey) : Program Fault Inner Unit :=
  modify fun s => { s with keys := s.keys.insert epoch key }

def set_current_epoch (epoch : Nat) : Program Fault Inner Unit := do
  if !(← asks (·.keys.contains epoch)) then throw (.Err (.UnknownEpoch epoch))
  else modify fun s => { s with current_epoch := epoch }

def retire_epoch (epoch : Nat) : Program Fault Inner Unit := do
  let s ← get
  if s.current_epoch = epoch then throw (.Err (.CannotRetireCurrentEpoch epoch))
  else if s.keys.size ≤ 1 then throw (.Err .LastEpoch)
  else modify fun s => { s with keys := s.keys.erase epoch }

def current_epoch : Program Fault Inner Nat := asks (·.current_epoch)

/-! ## Derived keys -/

structure EpochSecretKey (Key : Type) where
  epoch : Nat
  key : Key

structure NodeSecretManager (Key : Type) where
  epoch : Nat
  peer_key : Key

/-- `b"marie/at-rest-storage/v1"`. -/
def storage_namespace : List UInt8 := "marie/at-rest-storage/v1".toUTF8.data.toList

section Derive

variable {Key Tag : Type} (crypto : Crypto Key Tag)

def derive_key (epoch : Nat) (info : List UInt8) : Program Fault Inner Key := do
  match ← asks (·.keys[epoch]?) with
  | some ikm => pure (crypto.expand ikm info)
  | none => throw (.Err (.UnknownEpoch epoch))

def derive_node_key_for_epoch (epoch : Nat) (node_id : NodeId) : Program Fault Inner Key :=
  derive_key crypto epoch node_id.bytes

def derive_storage_key_for_epoch (epoch : Nat) : Program Fault Inner (EpochSecretKey Key) := do
  let key ← derive_key crypto epoch storage_namespace
  pure ⟨epoch, key⟩

def derive_storage_key : Program Fault Inner (EpochSecretKey Key) := do
  derive_storage_key_for_epoch crypto (← current_epoch)

def for_node_epoch (node_id : NodeId) (epoch : Nat) :
    Program Fault Inner (NodeSecretManager Key) := do
  let peer_key ← derive_node_key_for_epoch crypto epoch node_id
  pure ⟨epoch, peer_key⟩

def for_node (node_id : NodeId) : Program Fault Inner (NodeSecretManager Key) := do
  for_node_epoch crypto node_id (← current_epoch)

def prove_membership (node_id : NodeId) (nonce : List UInt8) : Program Fault Inner (Nat × Tag) := do
  let epoch ← current_epoch
  let node_key ← derive_node_key_for_epoch crypto epoch node_id
  pure (epoch, crypto.mac node_key nonce)

def verify_membership [DecidableEq Tag] (node_id : NodeId) (nonce : List UInt8) (epoch : Nat)
    (proof : Tag) : Program Fault Inner Bool :=
  tryCatch (do
    let node_key ← derive_node_key_for_epoch crypto epoch node_id
    pure (decide (crypto.mac node_key nonce = proof)))
  fun
    | .Err (.UnknownEpoch _) => pure false
    | other => throw other

/-! ## The codecs -/

structure EncryptedSecret where
  key_epoch : Nat
  ciphertext : List UInt8
  nonce : List UInt8
  algorithm : String
deriving DecidableEq

/-- A codec draws a nonce of 12 bytes for each encryption. -/
structure Nonce where
  bytes : List UInt8
  length_eq : bytes.length = 12

/-- The codec of a raw key, which carries no epoch: it stamps the default one. -/
def key_encrypt (key : Key) (nonce : Nonce) (secret : List UInt8) : Except Fault EncryptedSecret :=
  match crypto.encrypt key nonce.bytes secret with
  | some ciphertext => .ok ⟨DEFAULT_EPOCH, ciphertext, nonce.bytes, "ChaCha20-Poly1305"⟩
  | none => .error (.Err .EncryptionFailed)

/-- `Nonce::from_slice` panics on another length. -/
def key_decrypt (key : Key) (encrypted : EncryptedSecret) : Except Fault (List UInt8) :=
  if encrypted.nonce.length = 12 then
    match crypto.decrypt key encrypted.nonce encrypted.ciphertext with
    | some plaintext => .ok plaintext
    | none => .error (.Err .DecryptionFailed)
  else .error .Panic

def EpochSecretKey.encrypt (self : EpochSecretKey Key) (nonce : Nonce) (secret : List UInt8) :
    Except Fault EncryptedSecret := do
  let encrypted ← key_encrypt crypto self.key nonce secret
  pure { encrypted with key_epoch := self.epoch }

def EpochSecretKey.decrypt (self : EpochSecretKey Key) (encrypted : EncryptedSecret) :
    Except Fault (List UInt8) :=
  key_decrypt crypto self.key encrypted

def NodeSecretManager.encrypt (self : NodeSecretManager Key) (nonce : Nonce)
    (secret : List UInt8) : Except Fault EncryptedSecret :=
  match crypto.encrypt self.peer_key nonce.bytes secret with
  | some ciphertext => .ok ⟨self.epoch, ciphertext, nonce.bytes, "ChaCha20-Poly1305"⟩
  | none => .error (.Err .EncryptionFailed)

def NodeSecretManager.decrypt (self : NodeSecretManager Key) (encrypted : EncryptedSecret) :
    Except Fault (List UInt8) :=
  key_decrypt crypto self.peer_key encrypted

end Derive

/-! ## Rotations -/

inductive Rotation
  | add_epoch (epoch : Nat) (key : SecretKey)
  | set_current_epoch (epoch : Nat)
  | retire_epoch (epoch : Nat)
deriving DecidableEq

def Rotation.call : Rotation → Program Fault Inner Unit
  | .add_epoch epoch key => secret.add_epoch epoch key
  | .set_current_epoch epoch => secret.set_current_epoch epoch
  | .retire_epoch epoch => secret.retire_epoch epoch

/-- The manager after the operations, each of which may have returned an error. -/
def rotate (s : Inner) (ops : List Rotation) : Inner :=
  ops.foldl (fun s op => (exec op.call s).2) s

/-- The managers that the operations lead to. -/
inductive Reachable : Inner → Prop
  | built {epochs current s} : with_epochs epochs current = .ok s → Reachable s
  | next {s} (op : Rotation) : Reachable s → Reachable (exec op.call s).2

variable {s s' : Inner} {op : Rotation} {e : Nat}

/-- What an operation does, and what it returns. -/
inductive Rotated (s : Inner) : Rotation → Except Fault Unit → Inner → Prop
  | added (epoch : Nat) (key : SecretKey) :
      Rotated s (.add_epoch epoch key) (.ok ()) { s with keys := s.keys.insert epoch key }
  | switched {epoch : Nat} (hloaded : epoch ∈ s.keys) :
      Rotated s (.set_current_epoch epoch) (.ok ()) { s with current_epoch := epoch }
  | unknown {epoch : Nat} (hunknown : epoch ∉ s.keys) :
      Rotated s (.set_current_epoch epoch) (.error (.Err (.UnknownEpoch epoch))) s
  | retired {epoch : Nat} (hother : s.current_epoch ≠ epoch) (hmore : 1 < s.keys.size) :
      Rotated s (.retire_epoch epoch) (.ok ()) { s with keys := s.keys.erase epoch }
  | current {epoch : Nat} (hcurrent : s.current_epoch = epoch) :
      Rotated s (.retire_epoch epoch) (.error (.Err (.CannotRetireCurrentEpoch epoch))) s
  | last {epoch : Nat} (hother : s.current_epoch ≠ epoch) (hone : s.keys.size ≤ 1) :
      Rotated s (.retire_epoch epoch) (.error (.Err .LastEpoch)) s

theorem rotated (s : Inner) (op : Rotation) :
    Rotated s op (exec op.call s).1 (exec op.call s).2 := by
  cases op with
  | add_epoch epoch key => exact .added epoch key
  | set_current_epoch epoch =>
    rw [Rotation.call, secret.set_current_epoch, exec_bind_ok (exec_asks _ _)]
    by_cases h : epoch ∈ s.keys
    · have hcontains : s.keys.contains epoch = true := h
      simp only [hcontains, Bool.not_true, Bool.false_eq_true, if_false, exec_modify]
      exact .switched h
    · have hcontains : s.keys.contains epoch = false := Bool.eq_false_iff.mpr h
      simp only [hcontains, Bool.not_false, if_true, exec_throw]
      exact .unknown h
  | retire_epoch epoch =>
    rw [Rotation.call, secret.retire_epoch, exec_bind_ok (exec_get _)]
    by_cases h : s.current_epoch = epoch
    · simp only [h, if_true, exec_throw]
      exact .current h
    · by_cases hsize : s.keys.size ≤ 1
      · simp only [h, hsize, if_false, if_true, exec_throw]
        exact .last h hsize
      · simp only [h, hsize, if_false, exec_modify]
        exact .retired h (by omega)

/-- An operation that returns an error changes nothing. -/
theorem state_of_error {fault : Fault} (h : (exec op.call s).1 = .error fault) :
    (exec op.call s).2 = s := by
  have hop := rotated s op
  rw [h] at hop
  generalize (exec op.call s).2 = s' at hop ⊢
  cases hop with
  | unknown | current | last => rfl

/-- The operation takes the epoch out of the manager. -/
def Rotation.Retires (op : Rotation) (s : Inner) (e : Nat) : Prop :=
  op = .retire_epoch e ∧ (exec op.call s).1 = .ok ()

/-- The master key of an epoch changes only when the epoch is loaded again or retired. -/
theorem key_of_other (hload : ∀ key, op ≠ .add_epoch e key) (hkept : ¬ op.Retires s e) :
    (exec op.call s).2.keys[e]? = s.keys[e]? := by
  have hop := rotated s op
  unfold Rotation.Retires at hkept
  generalize (exec op.call s).1 = r at hop hkept
  generalize (exec op.call s).2 = s' at hop ⊢
  cases hop with
  | added epoch key =>
    have hne : e ≠ epoch := fun heq => hload key (by rw [heq])
    exact OrderedMap.get_insert_of_ne hne
  | @retired epoch hother hmore =>
    have hne : e ≠ epoch := fun heq => hkept ⟨by rw [heq], rfl⟩
    exact OrderedMap.get_erase_of_ne hne
  | switched | unknown | current | last => rfl

theorem key_of_add (s : Inner) (e : Nat) (key : SecretKey) :
    (exec (Rotation.add_epoch e key).call s).2.keys[e]? = some key :=
  ExtTreeMap.getElem?_insert_self

/-- A retired epoch has no key. -/
theorem key_of_retires (h : op.Retires s e) : (exec op.call s).2.keys[e]? = none := by
  obtain ⟨rfl, hok⟩ := h
  have hop := rotated s (.retire_epoch e)
  rw [hok] at hop
  generalize (exec (Rotation.retire_epoch e).call s).2 = s' at hop ⊢
  cases hop with
  | retired hother hmore => simp

theorem exec_current_epoch (s : Inner) : exec current_epoch s = (.ok s.current_epoch, s) := rfl

/-! ## What a derivation gives -/

section Derive

variable {Key Tag : Type} {crypto : Crypto Key Tag} {info : List UInt8}

theorem derive_key_of_loaded {ikm : SecretKey} (h : s.keys[e]? = some ikm) :
    exec (derive_key crypto e info) s = (.ok (crypto.expand ikm info), s) := by
  rw [derive_key, exec_bind_ok (exec_asks _ _), h]
  rfl

theorem derive_key_of_unknown (h : s.keys[e]? = none) :
    exec (derive_key crypto e info) s = (.error (.Err (.UnknownEpoch e)), s) := by
  rw [derive_key, exec_bind_ok (exec_asks _ _), h]
  rfl

theorem storage_key_of_loaded {ikm : SecretKey} (h : s.keys[e]? = some ikm) :
    exec (derive_storage_key_for_epoch crypto e) s =
      (.ok ⟨e, crypto.expand ikm storage_namespace⟩, s) := by
  rw [derive_storage_key_for_epoch, exec_bind_ok (derive_key_of_loaded h)]
  rfl

theorem storage_key_of_unknown (h : s.keys[e]? = none) :
    exec (derive_storage_key_for_epoch crypto e) s = (.error (.Err (.UnknownEpoch e)), s) := by
  rw [derive_storage_key_for_epoch, exec_bind_error (derive_key_of_unknown h)]

theorem node_manager_of_loaded {ikm : SecretKey} (node_id : NodeId) (h : s.keys[e]? = some ikm) :
    exec (for_node_epoch crypto node_id e) s = (.ok ⟨e, crypto.expand ikm node_id.bytes⟩, s) := by
  rw [for_node_epoch, derive_node_key_for_epoch, exec_bind_ok (derive_key_of_loaded h)]
  rfl

theorem node_manager_of_unknown (node_id : NodeId) (h : s.keys[e]? = none) :
    exec (for_node_epoch crypto node_id e) s = (.error (.Err (.UnknownEpoch e)), s) := by
  rw [for_node_epoch, derive_node_key_for_epoch, exec_bind_error (derive_key_of_unknown h)]

end Derive

end marie.secret
