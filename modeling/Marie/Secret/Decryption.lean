-- Which ciphertexts stop the program. A secret comes from a message or from a row
-- with a nonce of any length, and the codecs hand the nonce to the cipher as it is.
import Marie.Secret.Vault

open Program
open Std (ExtTreeMap)

namespace marie.secret

/-! ## Texts -/

/-- `String::from_utf8`. -/
def from_utf8 (bytes : List UInt8) : Option String := String.fromUTF8? ⟨bytes.toArray⟩

/-- `SecretCodec::decrypt_str`, of a codec with this `decrypt`. -/
def decrypt_str (decrypt : EncryptedSecret → Except Fault (List UInt8))
    (encrypted : EncryptedSecret) : Except Fault String := do
  let bytes ← decrypt encrypted
  match from_utf8 bytes with
  | some text => .ok text
  | none => .error (.Err (.Utf8DecodingFailed bytes))

section Calls

variable {Key Tag : Type} (crypto : Crypto Key Tag)

/-- `NodeSecretManager::decrypt` of a text, which is what its callers call. -/
def NodeSecretManager.decrypt_text (self : NodeSecretManager Key) (encrypted : EncryptedSecret) :
    Except Fault String :=
  decrypt_str (self.decrypt crypto) encrypted

/-- The `unwrap` panics on bytes that are no text. -/
def get_decrypted_str (id : SecretRef) (name : String) : Program VaultFault Vault String := do
  let raw ← get_decrypted crypto id name
  match from_utf8 raw with
  | some text => pure text
  | none => throw .Panic

end Calls

/-! ## The codecs -/

variable {Key Tag : Type} {crypto : Crypto Key Tag}

theorem key_decrypt_total_iff {key : Key} {encrypted : EncryptedSecret} :
    key_decrypt crypto key encrypted ≠ .error .Panic ↔ encrypted.nonce.length = 12 := by
  unfold key_decrypt
  split
  · rename_i hlen
    cases crypto.decrypt key encrypted.nonce encrypted.ciphertext <;> simp [hlen]
  · rename_i hlen
    simp [hlen]

theorem key_decrypt_reads_iff {key : Key} {encrypted : EncryptedSecret} {raw : List UInt8} :
    key_decrypt crypto key encrypted = .ok raw ↔ encrypted.nonce.length = 12 ∧
      crypto.decrypt key encrypted.nonce encrypted.ciphertext = some raw := by
  unfold key_decrypt
  split
  · rename_i hlen
    cases crypto.decrypt key encrypted.nonce encrypted.ciphertext <;> simp [hlen]
  · rename_i hlen
    simp [hlen]

/-- A text that is not UTF-8 is an error, as any other failure of the codec. -/
theorem decrypt_str_panics_iff {decrypt : EncryptedSecret → Except Fault (List UInt8)}
    {encrypted : EncryptedSecret} :
    decrypt_str decrypt encrypted = .error .Panic ↔ decrypt encrypted = .error .Panic := by
  unfold decrypt_str
  cases decrypt encrypted with
  | error fault => simp [bind, Except.bind]
  | ok bytes => cases h : from_utf8 bytes <;> simp [bind, Except.bind, h]

/-! ## The vault -/

variable {v : Vault} {id : SecretRef} {name : String}

/-- The row of the secret, and the key that its epoch derives for the namespace. Without one of them
the read ends with an error. -/
def Opens (crypto : Crypto Key Tag) (v : Vault) (id : SecretRef) (name : String)
    (row : StoredSecret) (key : Key) : Prop :=
  v.store[id]? = some row ∧ ∃ ikm, v.secrets.keys[row.key_epoch]? = some ikm ∧
    key = crypto.expand ikm (as_bytes name)

theorem get_decrypted_of_absent (h : v.store[id]? = none) :
    exec (get_decrypted crypto id name) v = (.error (.Err (.UnknownSecret id)), v) := by
  rw [get_decrypted, get_secret, exec_bind_ok (exec_asks _ _), h]
  dsimp only
  rw [exec_throw]

/-- A read ends with an error of its own, or with what the codec makes of the row. -/
theorem get_decrypted_cases (crypto : Crypto Key Tag) (v : Vault) (id : SecretRef) (name : String) :
    ((∀ row key, ¬ Opens crypto v id name row key) ∧
      ∃ error, (exec (get_decrypted crypto id name) v).1 = .error (.Err error)) ∨
    ∃ row key, Opens crypto v id name row key ∧ (exec (get_decrypted crypto id name) v).1 =
      (key_decrypt crypto key row.encrypted).mapError .from_secret := by
  cases hrow : v.store[id]? with
  | none =>
    refine .inl ⟨?_, _, by rw [get_decrypted_of_absent hrow]⟩
    rintro row key ⟨hrow', -⟩
    rw [hrow] at hrow'
    cases hrow'
  | some row =>
    cases hikm : v.secrets.keys[row.key_epoch]? with
    | none =>
      refine .inl ⟨?_, _, get_decrypted_of_unknown hrow hikm⟩
      rintro row' key ⟨hrow', ikm, hikm', -⟩
      rw [hrow] at hrow'
      cases hrow'
      rw [hikm] at hikm'
      cases hikm'
    | some ikm =>
      exact .inr ⟨row, _, ⟨hrow, ikm, hikm, rfl⟩, get_decrypted_of_loaded hrow hikm⟩

/-- The row and the key are one. -/
theorem Opens.eq {row row' : StoredSecret} {key key' : Key} (h : Opens crypto v id name row key)
    (h' : Opens crypto v id name row' key') : row = row' ∧ key = key' := by
  obtain ⟨hrow, ikm, hikm, rfl⟩ := h
  obtain ⟨hrow', ikm', hikm', rfl⟩ := h'
  rw [hrow] at hrow'
  cases hrow'
  rw [hikm] at hikm'
  cases hikm'
  exact ⟨rfl, rfl⟩

theorem mapError_eq_panic {α : Type} {r : Except Fault α} :
    r.mapError VaultFault.from_secret = .error .Panic ↔ r = .error .Panic := by
  cases r with
  | ok a => simp [Except.mapError]
  | error fault => cases fault <;> simp [Except.mapError, VaultFault.from_secret]

theorem get_decrypted_total_iff :
    (exec (get_decrypted crypto id name) v).1 ≠ .error .Panic ↔
      ∀ row key, Opens crypto v id name row key → row.nonce.length = 12 := by
  rcases get_decrypted_cases crypto v id name with ⟨hnone, error, hread⟩ | ⟨row, key, hopens, hread⟩
  · rw [hread]
    refine iff_of_true (by simp) fun row key hopens => absurd hopens (hnone row key)
  · rw [hread, ne_eq, mapError_eq_panic, ← ne_eq, key_decrypt_total_iff]
    constructor
    · intro hlen row' key' hopens'
      obtain ⟨rfl, -⟩ := hopens.eq hopens'
      exact hlen
    · intro h
      exact h row key hopens

/-- The read of a text. -/
theorem get_decrypted_str_panics_iff :
    (exec (get_decrypted_str crypto id name) v).1 = .error .Panic ↔
      (exec (get_decrypted crypto id name) v).1 = .error .Panic ∨
        ∃ raw, (exec (get_decrypted crypto id name) v).1 = .ok raw ∧ from_utf8 raw = none := by
  unfold get_decrypted_str
  rw [exec_bind]
  cases hread : exec (get_decrypted crypto id name) v with
  | mk r v' =>
    cases r with
    | error fault => simp
    | ok raw => cases htext : from_utf8 raw <;> simp [htext]

theorem get_decrypted_str_total_iff :
    (exec (get_decrypted_str crypto id name) v).1 ≠ .error .Panic ↔
      ∀ row key, Opens crypto v id name row key → row.nonce.length = 12 ∧
        ∀ raw, crypto.decrypt key row.nonce row.ciphertext = some raw → (from_utf8 raw).isSome := by
  rw [ne_eq, get_decrypted_str_panics_iff, not_or, ← ne_eq, get_decrypted_total_iff]
  constructor
  · rintro ⟨hlen, htext⟩ row key hopens
    refine ⟨hlen row key hopens, ?_⟩
    intro raw hraw
    rcases get_decrypted_cases crypto v id name with ⟨hnone, -⟩ | ⟨row', key', hopens', hread⟩
    · exact absurd hopens (hnone row key)
    · obtain ⟨rfl, rfl⟩ := hopens.eq hopens'
      have hok : key_decrypt crypto key row.encrypted = .ok raw :=
        key_decrypt_reads_iff.mpr ⟨hlen row key hopens, hraw⟩
      by_contra hnot
      exact htext ⟨raw, by rw [hread, mapError_eq_ok, hok], by simpa using hnot⟩
  · intro h
    refine ⟨fun row key hopens => (h row key hopens).1, ?_⟩
    rintro ⟨raw, hok, htext⟩
    rcases get_decrypted_cases crypto v id name with ⟨-, error, hread⟩ | ⟨row, key, hopens, hread⟩
    · rw [hread] at hok
      cases hok
    · rw [hread, mapError_eq_ok, key_decrypt_reads_iff] at hok
      have hsome := (h row key hopens).2 raw hok.2
      simp [htext] at hsome

/-- No codec panics exactly when the nonce has 12 bytes. The reads of the vault do not exactly when
that holds of the row that they open, and the text only if it is one. -/
theorem decryption_is_total_iff (crypto : Crypto Key Tag) :
    (∀ (key : Key) (encrypted : EncryptedSecret),
      key_decrypt crypto key encrypted ≠ .error .Panic ↔ encrypted.nonce.length = 12) ∧
    (∀ (self : EpochSecretKey Key) (encrypted : EncryptedSecret),
      self.decrypt crypto encrypted ≠ .error .Panic ↔ encrypted.nonce.length = 12) ∧
    (∀ (self : NodeSecretManager Key) (encrypted : EncryptedSecret),
      (self.decrypt crypto encrypted ≠ .error .Panic ↔ encrypted.nonce.length = 12) ∧
      (self.decrypt_text crypto encrypted ≠ .error .Panic ↔ encrypted.nonce.length = 12)) ∧
    ∀ (v : Vault) (id : SecretRef) (name : String),
      ((exec (get_decrypted crypto id name) v).1 ≠ .error .Panic ↔
        ∀ row key, Opens crypto v id name row key → row.nonce.length = 12) ∧
      ((exec (get_decrypted_str crypto id name) v).1 ≠ .error .Panic ↔
        ∀ row key, Opens crypto v id name row key → row.nonce.length = 12 ∧
          ∀ raw, crypto.decrypt key row.nonce row.ciphertext = some raw →
            (from_utf8 raw).isSome) := by
  refine ⟨fun _ _ => key_decrypt_total_iff, fun _ _ => key_decrypt_total_iff, ?_, ?_⟩
  · intro self encrypted
    refine ⟨key_decrypt_total_iff, ?_⟩
    rw [NodeSecretManager.decrypt_text, ne_eq, decrypt_str_panics_iff]
    exact key_decrypt_total_iff
  · intro v id name
    exact ⟨get_decrypted_total_iff, get_decrypted_str_total_iff⟩

/-- A secret that was sent or stored without a nonce, and a stored byte that is no text. -/
theorem decryption_panics :
    NodeSecretManager.decrypt_text plainKeys ⟨0, []⟩ ⟨0, [], [], "ChaCha20-Poly1305"⟩ =
        .error .Panic ∧
      (exec (get_decrypted plainKeys ⟨5⟩ "api")
        (exec (insert_secret ⟨⟨5⟩, 0, [], [], "ChaCha20-Poly1305"⟩) (emptyVault 0)).2).1 =
          .error .Panic ∧
      (exec (get_decrypted_str plainKeys ⟨5⟩ "api")
        (exec (store plainKeys ⟨5⟩ zeroNonce "api" [255]) (emptyVault 0)).2).1 =
          .error .Panic := by
  refine ⟨by decide, by decide +kernel, by decide +kernel⟩

end marie.secret
