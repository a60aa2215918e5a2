-- What becomes of a ciphertext while the keys are rotated. Its epoch is stamped
-- into it, so it is readable as long as the epoch keeps the key it had.
import Mathlib.Data.List.Induction
import Marie.Secret.Membership

open Program
open Std (ExtTreeMap)

namespace marie.secret

/-! ## Encryption and decryption by epoch -/

/-- What a key is derived for: the data at rest, or one node. -/
inductive Use
  | storage
  | node (node_id : NodeId)
deriving DecidableEq

/-- The namespace of the derivation. -/
def Use.info : Use → List UInt8
  | .storage => storage_namespace
  | .node node_id => node_id.bytes

/-- A result, inside a program. -/
def returned {α : Type} : Except Fault α → Program Fault Inner α
  | .ok a => pure a
  | .error e => throw e

section Use

variable {Key Tag : Type} (crypto : Crypto Key Tag)

/-- Through `derive_storage_key` or `for_node`, under the current epoch. -/
def encrypt_for (use : Use) (nonce : Nonce) (plaintext : List UInt8) :
    Program Fault Inner EncryptedSecret :=
  match use with
  | .storage => do
    let key ← derive_storage_key crypto
    returned (key.encrypt crypto nonce plaintext)
  | .node node_id => do
    let manager ← for_node crypto node_id
    returned (manager.encrypt crypto nonce plaintext)

/-- Through `derive_storage_key_for_epoch` or `for_node_epoch`, under the epoch stamped. -/
def decrypt_for (use : Use) (encrypted : EncryptedSecret) : Program Fault Inner (List UInt8) :=
  match use with
  | .storage => do
    let key ← derive_storage_key_for_epoch crypto encrypted.key_epoch
    returned (key.decrypt crypto encrypted)
  | .node node_id => do
    let manager ← for_node_epoch crypto node_id encrypted.key_epoch
    returned (manager.decrypt crypto encrypted)

end Use

variable {Key Tag : Type} {crypto : Crypto Key Tag} {s s0 s' : Inner} {use : Use} {nonce : Nonce}
  {plaintext : List UInt8} {encrypted : EncryptedSecret} {e : Nat}

@[simp] theorem exec_returned {α : Type} (r : Except Fault α) : exec (returned r) s = (r, s) := by
  cases r <;> rfl

/-- An encryption with a raw key succeeds with the ciphertext and the default epoch. -/
theorem key_encrypt_eq_ok {key : Key} (h : key_encrypt crypto key nonce plaintext = .ok encrypted) :
    crypto.encrypt key nonce.bytes plaintext = some encrypted.ciphertext ∧
      encrypted.key_epoch = DEFAULT_EPOCH ∧ encrypted.nonce = nonce.bytes := by
  unfold key_encrypt at h
  split at h
  · next ciphertext hciphertext =>
    cases h
    exact ⟨hciphertext, rfl, rfl⟩
  · cases h

theorem epoch_encrypt_eq_ok {key : EpochSecretKey Key}
    (h : key.encrypt crypto nonce plaintext = .ok encrypted) :
    crypto.encrypt key.key nonce.bytes plaintext = some encrypted.ciphertext ∧
      encrypted.key_epoch = key.epoch ∧ encrypted.nonce = nonce.bytes := by
  unfold EpochSecretKey.encrypt at h
  cases hraw : key_encrypt crypto key.key nonce plaintext with
  | error fault =>
    rw [hraw] at h
    cases h
  | ok raw =>
    rw [hraw] at h
    cases h
    obtain ⟨hciphertext, -, hnonce⟩ := key_encrypt_eq_ok hraw
    exact ⟨hciphertext, rfl, hnonce⟩

theorem node_encrypt_eq_ok {manager : NodeSecretManager Key}
    (h : manager.encrypt crypto nonce plaintext = .ok encrypted) :
    crypto.encrypt manager.peer_key nonce.bytes plaintext = some encrypted.ciphertext ∧
      encrypted.key_epoch = manager.epoch ∧ encrypted.nonce = nonce.bytes := by
  unfold NodeSecretManager.encrypt at h
  split at h
  · next ciphertext hciphertext =>
    cases h
    exact ⟨hciphertext, rfl, rfl⟩
  · cases h

/-- An encryption uses the key of the current epoch, and stamps that epoch. -/
theorem encrypt_for_eq_ok (h : exec (encrypt_for crypto use nonce plaintext) s = (.ok encrypted, s')) :
    ∃ ikm, s.keys[s.current_epoch]? = some ikm ∧ encrypted.key_epoch = s.current_epoch ∧
      encrypted.nonce = nonce.bytes ∧
      crypto.encrypt (crypto.expand ikm use.info) nonce.bytes plaintext =
        some encrypted.ciphertext := by
  cases hkey : s.keys[s.current_epoch]? with
  | none =>
    cases use with
    | storage =>
      rw [encrypt_for, derive_storage_key, current_epoch,
        exec_bind_error ((exec_bind_ok (exec_asks _ _)).trans (storage_key_of_unknown hkey))] at h
      cases h
    | node node_id =>
      rw [encrypt_for, for_node, current_epoch,
        exec_bind_error ((exec_bind_ok (exec_asks _ _)).trans (node_manager_of_unknown node_id hkey))] at h
      cases h
  | some ikm =>
    refine ⟨ikm, rfl, ?_⟩
    cases use with
    | storage =>
      rw [encrypt_for, derive_storage_key, current_epoch,
        exec_bind_ok ((exec_bind_ok (exec_asks _ _)).trans (storage_key_of_loaded hkey)),
        exec_returned] at h
      obtain ⟨hciphertext, hepoch, hnonce⟩ := epoch_encrypt_eq_ok (Prod.mk.inj h).1
      exact ⟨hepoch, hnonce, hciphertext⟩
    | node node_id =>
      rw [encrypt_for, for_node, current_epoch,
        exec_bind_ok ((exec_bind_ok (exec_asks _ _)).trans (node_manager_of_loaded node_id hkey)),
        exec_returned] at h
      obtain ⟨hciphertext, hepoch, hnonce⟩ := node_encrypt_eq_ok (Prod.mk.inj h).1
      exact ⟨hepoch, hnonce, hciphertext⟩

/-- A decryption under an epoch that is not loaded is refused. -/
theorem decrypt_for_of_unknown (h : s.keys[encrypted.key_epoch]? = none) :
    exec (decrypt_for crypto use encrypted) s =
      (.error (.Err (.UnknownEpoch encrypted.key_epoch)), s) := by
  cases use with
  | storage => rw [decrypt_for, exec_bind_error (storage_key_of_unknown h)]
  | node node_id => rw [decrypt_for, exec_bind_error (node_manager_of_unknown node_id h)]

/-- A decryption uses the key of the epoch stamped. -/
theorem decrypt_for_of_loaded {ikm : SecretKey} (h : s.keys[encrypted.key_epoch]? = some ikm) :
    exec (decrypt_for crypto use encrypted) s =
      (key_decrypt crypto (crypto.expand ikm use.info) encrypted, s) := by
  cases use with
  | storage =>
    rw [decrypt_for, exec_bind_ok (storage_key_of_loaded h), exec_returned]
    rfl
  | node node_id =>
    rw [decrypt_for, exec_bind_ok (node_manager_of_loaded node_id h), exec_returned]
    rfl

/-- Of an ideal AEAD, a ciphertext is read back with the key that it was made with, and with no
other one. -/
theorem key_decrypt_eq_ok_iff (haead : crypto.IdealAead) {key key' : Key}
    (hnonce : encrypted.nonce = nonce.bytes)
    (hciphertext : crypto.encrypt key nonce.bytes plaintext = some encrypted.ciphertext) :
    key_decrypt crypto key' encrypted = .ok plaintext ↔ key' = key := by
  rw [key_decrypt, hnonce, if_pos nonce.length_eq]
  constructor
  · intro h
    by_contra hne
    rw [haead.other_key_fails _ _ _ _ _ hciphertext hne] at h
    cases h
  · rintro rfl
    rw [haead.inverts _ _ _ _ hciphertext]

/-! ## Runs of rotations -/

/-- Some operation of the run takes the epoch out of the manager. -/
def RetiredIn (s : Inner) (ops : List Rotation) (e : Nat) : Prop :=
  ∃ before op after, ops = before ++ op :: after ∧ op.Retires (rotate s before) e

theorem rotate_append (before after : List Rotation) :
    rotate s (before ++ after) = rotate (rotate s before) after := List.foldl_append

theorem rotate_concat (ops : List Rotation) (op : Rotation) :
    rotate s (ops ++ [op]) = (exec op.call (rotate s ops)).2 := by
  simp [rotate]

theorem not_retiredIn_of_concat {ops : List Rotation} {op : Rotation}
    (h : ¬ RetiredIn s (ops ++ [op]) e) : ¬ RetiredIn s ops e ∧ ¬ op.Retires (rotate s ops) e := by
  constructor
  · rintro ⟨before, op', after, rfl, hretires⟩
    exact h ⟨before, op', after ++ [op], by simp, hretires⟩
  · exact fun hretires => h ⟨ops, op, [], rfl, hretires⟩

/-- Every load of the epoch before it is retired has the key that the epoch has already. -/
def SameLoads (s : Inner) (ops : List Rotation) (e : Nat) : Prop :=
  ∀ before key after, ops = before ++ .add_epoch e key :: after → ¬ RetiredIn s before e →
    s.keys[e]? = some key

/-- Until it is retired, an epoch keeps its key through such loads. -/
theorem key_of_sameLoads {ops : List Rotation} (hloads : SameLoads s ops e)
    (hkept : ¬ RetiredIn s ops e) : (rotate s ops).keys[e]? = s.keys[e]? := by
  induction ops using List.reverseRecOn with
  | nil => rfl
  | append_singleton ops op ih =>
    obtain ⟨hbefore, hlast⟩ := not_retiredIn_of_concat hkept
    have hloads' : SameLoads s ops e := by
      rintro before key after rfl hnot
      exact hloads before key (after ++ [op]) (by simp) hnot
    rw [rotate_concat]
    by_cases hload : ∃ key, op = .add_epoch e key
    · obtain ⟨key, rfl⟩ := hload
      rw [key_of_add, hloads ops key [] rfl hbefore]
    · rw [key_of_other (fun key heq => hload ⟨key, heq⟩) hlast, ih hloads' hbefore]

/-- An epoch that is not loaded stays so until it is loaded again. -/
theorem unknown_of_not_loaded {ops : List Rotation} (h : s.keys[e]? = none)
    (hloads : ∀ key, .add_epoch e key ∉ ops) : (rotate s ops).keys[e]? = none := by
  induction ops using List.reverseRecOn with
  | nil => exact h
  | append_singleton ops op ih =>
    have hbefore := ih fun key hmem => hloads key (List.mem_append_left _ hmem)
    rw [rotate_concat]
    by_cases hretires : op.Retires (rotate s ops) e
    · exact key_of_retires hretires
    · rw [key_of_other ?_ hretires, hbefore]
      rintro key rfl
      exact hloads key (List.mem_append_right _ (List.mem_singleton_self _))

/-! ## Until the epoch is retired -/

/-- At every point of the run: the ciphertext is read back when its epoch was not retired yet,
and nothing is read from it after its epoch was retired and not loaded again. -/
def ReadableUntilRetired (crypto : Crypto Key Tag) (s : Inner) (use : Use)
    (encrypted : EncryptedSecret) (plaintext : List UInt8) (ops : List Rotation) : Prop :=
  ∀ past rest, ops = past ++ rest →
    (¬ RetiredIn s past encrypted.key_epoch →
      (exec (decrypt_for crypto use encrypted) (rotate s past)).1 = .ok plaintext) ∧
    ∀ before op after, past = before ++ op :: after →
      op.Retires (rotate s before) encrypted.key_epoch →
      (∀ key, .add_epoch encrypted.key_epoch key ∉ after) →
      ∀ text, (exec (decrypt_for crypto use encrypted) (rotate s past)).1 ≠ .ok text

/-- After a retirement without a load the epoch is unknown, so nothing is read. -/
theorem nothing_read_after_retired {before after : List Rotation} {op : Rotation}
    (hretires : op.Retires (rotate s before) encrypted.key_epoch)
    (hloads : ∀ key, .add_epoch encrypted.key_epoch key ∉ after) (text : List UInt8) :
    (exec (decrypt_for crypto use encrypted) (rotate s (before ++ op :: after))).1 ≠ .ok text := by
  have hunknown : (rotate s (before ++ op :: after)).keys[encrypted.key_epoch]? = none := by
    rw [← List.singleton_append, ← List.append_assoc, rotate_append, rotate_concat]
    exact unknown_of_not_loaded (key_of_retires hretires) hloads
  rw [decrypt_for_of_unknown hunknown]
  exact fun h => by cases h

/-- What is encrypted under an epoch is readable until the epoch is retired, and not after it,
exactly when every load of the epoch before that has the key that the epoch had. -/
theorem readable_until_retired_iff (haead : crypto.IdealAead)
    (hexpand : ∀ info, Function.Injective fun key => crypto.expand key info)
    (h : exec (encrypt_for crypto use nonce plaintext) s = (.ok encrypted, s')) (ops : List Rotation) :
    ReadableUntilRetired crypto s use encrypted plaintext ops ↔
      SameLoads s ops encrypted.key_epoch := by
  obtain ⟨ikm, hikm, hepoch, hnonce, hciphertext⟩ := encrypt_for_eq_ok h
  rw [← hepoch] at hikm
  constructor
  · rintro hreadable before key after rfl hkept
    -- The ciphertext is read back right after the load, so the load has the same key.
    have hload : ¬ RetiredIn s (before ++ [.add_epoch encrypted.key_epoch key]) encrypted.key_epoch := by
      rintro ⟨before', op, after', heq, hretires⟩
      cases after' using List.reverseRecOn with
      | nil =>
        obtain ⟨-, hop⟩ := List.append_inj' heq rfl
        cases hop
        cases hretires.1
      | append_singleton after' last =>
        rw [← List.cons_append, ← List.append_assoc] at heq
        obtain ⟨rfl, -⟩ := List.append_inj' heq rfl
        exact hkept ⟨before', op, after', rfl, hretires⟩
    have hread := (hreadable (before ++ [.add_epoch encrypted.key_epoch key]) after (by simp)).1 hload
    rw [rotate_concat, decrypt_for_of_loaded (key_of_add _ _ key),
      key_decrypt_eq_ok_iff haead hnonce hciphertext, (hexpand use.info).eq_iff] at hread
    rw [hikm, hread]
  · rintro hloads past rest rfl
    refine ⟨fun hkept => ?_, ?_⟩
    · have hpast : SameLoads s past encrypted.key_epoch := by
        rintro before key after rfl hnot
        exact hloads before key (after ++ rest) (by simp) hnot
      have hkey := (key_of_sameLoads hpast hkept).trans hikm
      rw [decrypt_for_of_loaded hkey]
      exact (key_decrypt_eq_ok_iff haead hnonce hciphertext).mpr rfl
    · rintro before op after rfl hretires hnot text
      exact nothing_read_after_retired hretires hnot text

/-! ## An epoch loaded again with another key -/

/-- A code of keys in which no code starts another one. -/
def keyCode : List UInt8 → List UInt8
  | [] => [0]
  | b :: key => 1 :: b :: keyCode key

theorem keyCode_inj {key key' text : List UInt8} (h : keyCode key' <+: keyCode key ++ text) :
    key' = key := by
  induction key' generalizing key with
  | nil =>
    cases key with
    | nil => rfl
    | cons b key => simp [keyCode] at h
  | cons b' key' ih =>
    cases key with
    | nil => simp [keyCode] at h
    | cons b key =>
      simp only [keyCode, List.cons_append, List.cons_prefix_cons, true_and] at h
      obtain ⟨rfl, hrest⟩ := h
      rw [ih hrest]

/-- Primitives that write the key in front of what they make with it. -/
def plainKeys : Crypto (List UInt8) (List UInt8) where
  expand key info := key.bytes ++ info
  encrypt key _ plaintext := some (keyCode key ++ plaintext)
  decrypt key _ ciphertext :=
    if keyCode key <+: ciphertext then some (ciphertext.drop (keyCode key).length) else none
  mac key nonce := keyCode key ++ nonce

theorem plainKeys_ideal : plainKeys.IdealAead where
  inverts := by
    rintro key nonce plaintext ciphertext h
    cases h
    simp [plainKeys]
  other_key_fails := by
    rintro key key' nonce plaintext ciphertext h hne
    cases h
    simp only [plainKeys]
    exact if_neg fun hprefix => hne (keyCode_inj hprefix)

theorem plainKeys_expand (info : List UInt8) :
    Function.Injective fun key => plainKeys.expand key info := by
  rintro ⟨k, hk⟩ ⟨k', hk'⟩ h
  have hbytes : k = k' := List.append_cancel_right h
  cases hbytes
  rfl

/-- A manager of one key. -/
def oneKey : Inner := ⟨(∅ : ExtTreeMap Nat SecretKey).insert 0 (master 1), 0⟩

def zeroNonce : Nonce := ⟨List.replicate 12 0, List.length_replicate⟩

/-- What `oneKey` makes of one byte at rest. -/
def sealedByte : EncryptedSecret :=
  ⟨0, keyCode (List.replicate 32 1 ++ storage_namespace) ++ [42], List.replicate 12 0,
    "ChaCha20-Poly1305"⟩

theorem oneKey_seals :
    exec (encrypt_for plainKeys .storage zeroNonce [42]) oneKey = (.ok sealedByte, oneKey) := by
  decide +kernel

/-- The epoch is loaded again with another key, and what it sealed is not read back, though the
epoch was never retired. -/
theorem loaded_again_is_unreadable :
    exec (encrypt_for plainKeys .storage zeroNonce [42]) oneKey = (.ok sealedByte, oneKey) ∧
      ¬ RetiredIn oneKey [.add_epoch 0 (master 2)] 0 ∧
      (exec (decrypt_for plainKeys .storage sealedByte) (rotate oneKey [.add_epoch 0 (master 2)])).1 =
        .error (.Err .DecryptionFailed) := by
  refine ⟨by decide +kernel, ?_, by decide +kernel⟩
  rintro ⟨before, op, after, heq, hretires, -⟩
  have hmem : op ∈ [Rotation.add_epoch 0 (master 2)] := by
    rw [heq]
    simp
  rw [List.mem_singleton.mp hmem] at hretires
  cases hretires

theorem one_rotation_is_readable_until_retired :
    ReadableUntilRetired plainKeys oneKey .storage sealedByte [42]
        [.add_epoch 1 (master 2), .set_current_epoch 1, .retire_epoch 0] ↔
      SameLoads oneKey [.add_epoch 1 (master 2), .set_current_epoch 1, .retire_epoch 0] 0 :=
  readable_until_retired_iff plainKeys_ideal plainKeys_expand oneKey_seals _

end marie.secret
