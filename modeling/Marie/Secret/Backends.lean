-- The two stores of the secrets: the map in memory that the tests of the vault
-- run on, and the table of the database. An insertion of a secret that is there
-- and a replacement of one that is not end differently.
import Marie.Id
import Marie.Lib.Backends
import Marie.Lib.Table
import Std.Data.HashMap.Lemmas

open Backends Runs

namespace marie.secret.stores

structure SecretRef where
  id : ID
deriving DecidableEq, Hashable

/-- `Display`. -/
def SecretRef.to_string (ref : SecretRef) : String := ref.id.to_string

/-- `FromStr`. -/
def SecretRef.from_str (s : String) : Option SecretRef := (ID.from_str s).map SecretRef.mk

structure StoredSecret where
  id : SecretRef
  key_epoch : UInt32
  ciphertext : List UInt8
  nonce : List UInt8
  algorithm : String
deriving DecidableEq

/-- What stops a call on the database. -/
inductive PgError
  | UniqueViolation (id : String)
  | InvalidText (text : String)
  | Panic
deriving DecidableEq

/-- The interface of a store whose state is `σ`. -/
structure StoreSecret (σ : Type) where
  insert_secret : StoredSecret → σ → Except PgError Unit × σ
  replace_secret : StoredSecret → σ → Except PgError Unit × σ
  remove_secret : SecretRef → σ → Except PgError Unit × σ
  get_secret : SecretRef → σ → Except PgError (Option StoredSecret)

/-! ## In memory -/

structure InMemorySecretStore where
  secrets : Std.HashMap SecretRef StoredSecret

namespace InMemorySecretStore

def new : InMemorySecretStore := ⟨∅⟩

def insert_secret (secret : StoredSecret) (self : InMemorySecretStore) :
    Except PgError Unit × InMemorySecretStore :=
  (.ok (), ⟨self.secrets.insert secret.id secret⟩)

def replace_secret (secret : StoredSecret) (self : InMemorySecretStore) :
    Except PgError Unit × InMemorySecretStore :=
  (.ok (), ⟨self.secrets.insert secret.id secret⟩)

def remove_secret (ref : SecretRef) (self : InMemorySecretStore) :
    Except PgError Unit × InMemorySecretStore :=
  (.ok (), ⟨self.secrets.erase ref⟩)

def get_secret (ref : SecretRef) (self : InMemorySecretStore) :
    Except PgError (Option StoredSecret) :=
  .ok self.secrets[ref]?

def store : StoreSecret InMemorySecretStore :=
  { insert_secret, replace_secret, remove_secret, get_secret }

end InMemorySecretStore

/-! ## On the database -/

/-- A row of the table `secret`. -/
structure SecretRow where
  id : String
  key_epoch : Int32
  ciphertext : List UInt8
  nonce : List UInt8
  algorithm : String
deriving DecidableEq

/-- The values that a query binds; `key_epoch as i32`. -/
def StoredSecret.row (secret : StoredSecret) : SecretRow where
  id := secret.id.to_string
  key_epoch := secret.key_epoch.toInt32
  ciphertext := secret.ciphertext
  nonce := secret.nonce
  algorithm := secret.algorithm

/-- `key_epoch as u32`; an id that does not parse is a panic. -/
def decode_row (row : SecretRow) : Except PgError StoredSecret :=
  match SecretRef.from_str row.id with
  | some id => .ok ⟨id, row.key_epoch.toUInt32, row.ciphertext, row.nonce, row.algorithm⟩
  | none => .error .Panic

/-- `SET` of every column but the id. -/
def StoredSecret.set_columns (secret : StoredSecret) (row : SecretRow) : SecretRow :=
  { secret.row with id := row.id }

/-- A value of type `TEXT` has no NUL. -/
def is_text (s : String) : Bool := s.toList.all (· ≠ Char.ofNat 0)

/-- The table, with its primary key. -/
structure PgStore where
  rows : List SecretRow
  primary_key : rows.Pairwise fun a b => a.id ≠ b.id

namespace PgStore

def new : PgStore := ⟨[], .nil⟩

def has (id : String) (self : PgStore) : Bool := self.rows.any (·.id = id)

/-- `INSERT`: the primary key refuses a second row of one id. -/
def insert_secret (secret : StoredSecret) (self : PgStore) : Except PgError Unit × PgStore :=
  if is_text secret.algorithm = false then (.error (.InvalidText secret.algorithm), self)
  else if h : self.has secret.id.to_string then
    (.error (.UniqueViolation secret.id.to_string), self)
  else
    (.ok (),
      { rows := secret.row :: self.rows
        primary_key := by
          refine List.pairwise_cons.mpr ⟨fun row hrow heq => h ?_, self.primary_key⟩
          exact List.any_eq_true.mpr ⟨row, hrow, decide_eq_true heq.symm⟩ })

/-- `UPDATE .. WHERE id = $1`: no row, no change. -/
def replace_secret (secret : StoredSecret) (self : PgStore) : Except PgError Unit × PgStore :=
  if is_text secret.algorithm = false then (.error (.InvalidText secret.algorithm), self)
  else
    (.ok (),
      { rows := Table.update (·.id = secret.id.to_string) secret.set_columns self.rows
        primary_key := Table.pairwise_update (fun _ => rfl) self.primary_key })

def remove_secret (ref : SecretRef) (self : PgStore) : Except PgError Unit × PgStore :=
  (.ok (), ⟨self.rows.filter (·.id ≠ ref.to_string), self.primary_key.filter _⟩)

def get_secret (ref : SecretRef) (self : PgStore) : Except PgError (Option StoredSecret) :=
  match self.rows.find? (·.id = ref.to_string) with
  | some row => (decode_row row).map some
  | none => .ok none

def store : StoreSecret PgStore := { insert_secret, replace_secret, remove_secret, get_secret }

end PgStore

/-! ## Calls -/

inductive Call
  | insert_secret (secret : StoredSecret)
  | replace_secret (secret : StoredSecret)
  | remove_secret (ref : SecretRef)
  | get_secret (ref : SecretRef)

inductive Answer
  | unit (result : Except PgError Unit)
  | found (result : Except PgError (Option StoredSecret))

/-- Both are errors, or both succeed with the same secret. -/
def Answer.Same : Answer → Answer → Prop
  | .unit a, .unit b => Alike a b
  | .found a, .found b => Alike a b
  | _, _ => False

def StoreSecret.call {σ : Type} (store : StoreSecret σ) (c : Call) (s : σ) : Answer × σ :=
  match c with
  | .insert_secret secret =>
    (.unit (store.insert_secret secret s).1, (store.insert_secret secret s).2)
  | .replace_secret secret =>
    (.unit (store.replace_secret secret s).1, (store.replace_secret secret s).2)
  | .remove_secret ref => (.unit (store.remove_secret ref s).1, (store.remove_secret ref s).2)
  | .get_secret ref => (.found (store.get_secret ref s), s)

/-! ## What has been called of one secret -/

/-- A secret by its calls: `stored` since its insertion, `revived` by a replacement while it was
not stored. -/
inductive Standing
  | absent
  | stored
  | revived
deriving DecidableEq

def Standing.next (ref : SecretRef) (standing : Standing) : Call → Standing
  | .insert_secret secret => if secret.id = ref then .stored else standing
  | .replace_secret secret =>
    if secret.id = ref ∧ standing = .absent then .revived else standing
  | .remove_secret r => if r = ref then .absent else standing
  | .get_secret _ => standing

def standing (ref : SecretRef) (calls : List Call) : Standing :=
  calls.foldl (Standing.next ref) .absent

/-- An insertion finds no stored secret under its id, a read no revived one, and a secret that is
written has an algorithm that is a text. -/
def Apart (before : List Call) : Call → Prop
  | .insert_secret secret => is_text secret.algorithm ∧ standing secret.id before ≠ .stored
  | .replace_secret secret => is_text secret.algorithm
  | .get_secret ref => standing ref before ≠ .revived
  | .remove_secret _ => True

/-- The secret was inserted, and has not been removed since. -/
def Inserted (ref : SecretRef) (before : List Call) : Prop :=
  ∃ earlier secret later, before = earlier ++ .insert_secret secret :: later ∧ secret.id = ref ∧
    .remove_secret ref ∉ later

section

variable {before : List Call} {c : Call} {ref : SecretRef}

theorem standing_concat : standing ref (before ++ [c]) = (standing ref before).next ref c := by
  unfold standing
  rw [List.foldl_append]
  rfl

theorem Inserted.concat (h : Inserted ref before) (hc : c ≠ .remove_secret ref) :
    Inserted ref (before ++ [c]) := by
  obtain ⟨earlier, secret, later, rfl, hid, hlater⟩ := h
  refine ⟨earlier, secret, later ++ [c], by simp, hid, ?_⟩
  simp [hlater, Ne.symm hc]

theorem inserted_of_standing (h : standing ref before = .stored) : Inserted ref before := by
  induction before using List.reverseRecOn with
  | nil => cases h
  | append_singleton before c ih =>
    rw [standing_concat] at h
    cases c with
    | insert_secret secret =>
      by_cases hid : secret.id = ref
      · exact ⟨before, secret, [], rfl, hid, by simp⟩
      · exact (ih (by simpa [Standing.next, hid] using h)).concat (by simp)
    | replace_secret secret =>
      apply (ih _).concat (by simp)
      simp only [Standing.next] at h
      split at h
      · cases h
      · exact h
    | remove_secret r =>
      have hne : r ≠ ref := by
        rintro rfl
        simp [Standing.next] at h
      exact (ih (by simpa [Standing.next, hne] using h)).concat (by simp [hne])
    | get_secret r => exact (ih h).concat (by simp)

end

/-! ## The rows of one id -/

theorem to_string_inj {ref ref' : SecretRef} : ref.to_string = ref'.to_string ↔ ref = ref' := by
  unfold SecretRef.to_string
  rw [ID.to_string_inj]
  cases ref
  cases ref'
  simp

/-- A row is read as the secret it was written from: the casts of the epoch undo each other. -/
theorem decode_row_row (secret : StoredSecret) : decode_row secret.row = .ok secret := by
  have hid : SecretRef.from_str secret.row.id = some secret.id := by
    change (ID.from_str secret.id.id.to_string).map SecretRef.mk = _
    rw [ID.from_str_to_string]
    rfl
  unfold decode_row
  rw [hid]
  simp [StoredSecret.row]

/-- The row of a secret. -/
def PgStore.row_of (self : PgStore) (ref : SecretRef) : Option SecretRow :=
  self.rows.find? (·.id = ref.to_string)

section

variable {pg : PgStore} {ref : SecretRef} {secret : StoredSecret}

theorem has_iff : pg.has ref.to_string = true ↔ (pg.row_of ref).isSome := by
  simp [PgStore.has, PgStore.row_of]

theorem row_of_insert (htext : is_text secret.algorithm) (h : pg.row_of secret.id = none)
    (ref : SecretRef) :
    (PgStore.insert_secret secret pg).1 = .ok () ∧
      (PgStore.insert_secret secret pg).2.row_of ref =
        if secret.id = ref then some secret.row else pg.row_of ref := by
  have hfree : ¬ pg.has secret.id.to_string = true := by
    rw [has_iff, h]
    simp
  unfold PgStore.insert_secret
  rw [if_neg (by simp [htext]), dif_neg hfree]
  refine ⟨rfl, ?_⟩
  unfold PgStore.row_of
  by_cases hid : secret.id = ref
  · subst hid
    simp [StoredSecret.row]
  · have hne : ¬ secret.row.id = ref.to_string := fun heq => hid (to_string_inj.mp heq)
    simp [hid, hne]

theorem insert_taken (htext : is_text secret.algorithm) (h : (pg.row_of secret.id).isSome) :
    PgStore.insert_secret secret pg = (.error (.UniqueViolation secret.id.to_string), pg) := by
  unfold PgStore.insert_secret
  rw [if_neg (by simp [htext]), dif_pos (has_iff.mpr h)]

theorem insert_no_text (htext : is_text secret.algorithm = false) :
    PgStore.insert_secret secret pg = (.error (.InvalidText secret.algorithm), pg) := by
  unfold PgStore.insert_secret
  rw [if_pos htext]

theorem replace_no_text (htext : is_text secret.algorithm = false) :
    PgStore.replace_secret secret pg = (.error (.InvalidText secret.algorithm), pg) := by
  unfold PgStore.replace_secret
  rw [if_pos htext]

theorem row_of_replace (htext : is_text secret.algorithm) :
    (PgStore.replace_secret secret pg).2.row_of ref =
      if secret.id = ref then (pg.row_of ref).map fun _ => secret.row else pg.row_of ref := by
  unfold PgStore.replace_secret PgStore.row_of
  rw [if_neg (by simp [htext])]
  simp only
  rw [Table.find?_update (f := secret.set_columns) fun _ _ => rfl]
  cases hrow : pg.rows.find? (·.id = ref.to_string) with
  | none => simp
  | some row =>
    have hid := List.find?_some hrow
    simp only [decide_eq_true_eq] at hid
    by_cases heq : secret.id = ref
    · subst heq
      simp [hid, StoredSecret.set_columns, StoredSecret.row]
    · have hne : ¬ ref.to_string = secret.id.to_string := fun h => heq (to_string_inj.mp h).symm
      simp [hid, heq, hne]

theorem row_of_remove {r : SecretRef} :
    (PgStore.remove_secret r pg).2.row_of ref = if r = ref then none else pg.row_of ref := by
  unfold PgStore.remove_secret PgStore.row_of
  rw [List.find?_filter]
  by_cases heq : r = ref
  · subst heq
    simp
  · have hne : ¬ ref.to_string = r.to_string := fun h => heq (to_string_inj.mp h).symm
    rw [if_neg heq]
    congr 1
    funext row
    by_cases hid : row.id = ref.to_string
    · simp [hid, hne]
    · simp [hid]

end

/-! ## The two stores -/

/-- What the map and the rows hold of one secret. -/
def Twin : Standing → Option StoredSecret → Option SecretRow → Prop
  | .absent, entry, row => entry = none ∧ row = none
  | .stored, entry, row => ∃ secret, entry = some secret ∧ row = some secret.row
  | .revived, entry, row => entry.isSome ∧ row = none

/-- The map and the rows hold the same, but for the revived secrets, which are in the map alone. -/
def Twins (before : List Call) (mem : InMemorySecretStore) (pg : PgStore) : Prop :=
  ∀ ref, Twin (standing ref before) mem.secrets[ref]? (pg.row_of ref)

section

variable {before : List Call} {mem : InMemorySecretStore} {pg : PgStore} {c : Call}

theorem Twins.row_of_eq_none {ref : SecretRef} (h : Twins before mem pg) :
    pg.row_of ref = none ↔ standing ref before ≠ .stored := by
  have href := h ref
  cases hs : standing ref before with
  | absent => simp [Twin, hs] at href; simp [href]
  | revived => simp [Twin, hs] at href; simp [href]
  | stored =>
    rw [hs] at href
    obtain ⟨secret, -, hrow⟩ := href
    simp [hrow]

theorem Twins.insert_secret (h : Twins before mem pg) (secret : StoredSecret) :
    (Alike (InMemorySecretStore.insert_secret secret mem).1 (PgStore.insert_secret secret pg).1 ↔
        is_text secret.algorithm ∧ standing secret.id before ≠ .stored) ∧
      (is_text secret.algorithm ∧ standing secret.id before ≠ .stored →
        Twins (before ++ [.insert_secret secret]) (InMemorySecretStore.insert_secret secret mem).2
          (PgStore.insert_secret secret pg).2) := by
  rw [← h.row_of_eq_none]
  by_cases htext : is_text secret.algorithm = true
  swap
  · rw [insert_no_text (by simpa using htext)]
    simp [InMemorySecretStore.insert_secret, Alike, htext]
  cases hrow : pg.row_of secret.id with
  | some row =>
    rw [insert_taken htext (by rw [hrow]; rfl)]
    simp [InMemorySecretStore.insert_secret, Alike]
  | none =>
    refine ⟨?_, fun _ ref => ?_⟩
    · simp [(row_of_insert htext hrow secret.id).1, InMemorySecretStore.insert_secret, Alike, htext]
    · rw [standing_concat, (row_of_insert htext hrow ref).2, InMemorySecretStore.insert_secret,
        Std.HashMap.getElem?_insert]
      by_cases hid : secret.id = ref
      · simp [Standing.next, hid, Twin]
      · simpa [Standing.next, hid] using h ref

theorem Twins.replace_secret (h : Twins before mem pg) (secret : StoredSecret)
    (htext : is_text secret.algorithm) :
    Twins (before ++ [.replace_secret secret]) (InMemorySecretStore.replace_secret secret mem).2
      (PgStore.replace_secret secret pg).2 := by
  intro ref
  rw [standing_concat, row_of_replace htext, InMemorySecretStore.replace_secret,
    Std.HashMap.getElem?_insert]
  by_cases hid : secret.id = ref
  · subst hid
    have hsecret := h secret.id
    cases hs : standing secret.id before with
    | stored =>
      rw [hs] at hsecret
      obtain ⟨old, -, hrow⟩ := hsecret
      simp [Standing.next, Twin, hrow]
    | absent =>
      rw [hs] at hsecret
      simp [Standing.next, Twin, hsecret.2]
    | revived =>
      rw [hs] at hsecret
      simp [Standing.next, Twin, hsecret.2]
  · simpa [Standing.next, hid] using h ref

theorem Twins.remove_secret (h : Twins before mem pg) (r : SecretRef) :
    Twins (before ++ [.remove_secret r]) (InMemorySecretStore.remove_secret r mem).2
      (PgStore.remove_secret r pg).2 := by
  intro ref
  rw [standing_concat, row_of_remove, InMemorySecretStore.remove_secret,
    Std.HashMap.getElem?_erase]
  by_cases hid : r = ref
  · simp [Standing.next, hid, Twin]
  · simpa [Standing.next, hid] using h ref

/-- A read is answered alike by both but for a revived secret. -/
theorem Twins.get_secret (h : Twins before mem pg) (r : SecretRef) :
    Alike (InMemorySecretStore.get_secret r mem) (PgStore.get_secret r pg) ↔
      standing r before ≠ .revived := by
  have href := h r
  unfold InMemorySecretStore.get_secret PgStore.get_secret
  change Alike _ (match pg.row_of r with
    | some row => (decode_row row).map some
    | none => .ok none) ↔ _
  cases hs : standing r before with
  | stored =>
    rw [hs] at href
    obtain ⟨secret, hentry, hrow⟩ := href
    simp [hentry, hrow, decode_row_row, Except.map, Alike]
  | absent =>
    rw [hs] at href
    simp [href.1, href.2, Alike]
  | revived =>
    rw [hs] at href
    simpa [href.2, Alike] using href.1

theorem Twins.stored_of_row {r : SecretRef} {secret : StoredSecret} (h : Twins before mem pg)
    (hread : PgStore.get_secret r pg = .ok (some secret)) : standing r before = .stored := by
  by_contra hne
  rw [← ne_eq, ← h.row_of_eq_none] at hne
  unfold PgStore.get_secret at hread
  unfold PgStore.row_of at hne
  rw [hne] at hread
  cases hread

theorem Twins.stored_of_entry {r : SecretRef} {secret : StoredSecret} (h : Twins before mem pg)
    (hread : InMemorySecretStore.get_secret r mem = .ok (some secret))
    (hne : standing r before ≠ .revived) : standing r before = .stored := by
  have hentry : mem.secrets[r]? = some secret := Except.ok.inj hread
  have hr := h r
  rw [hentry] at hr
  cases hs : standing r before with
  | stored => rfl
  | revived => exact absurd hs hne
  | absent =>
    rw [hs] at hr
    cases hr.1

/-- One call: it is answered alike exactly when it is as `Apart` asks, and then the two stay
twins. -/
theorem Twins.call (h : Twins before mem pg) :
    ((InMemorySecretStore.store.call c mem).1.Same (PgStore.store.call c pg).1 ↔ Apart before c) ∧
      (Apart before c → Twins (before ++ [c]) (InMemorySecretStore.store.call c mem).2
        (PgStore.store.call c pg).2) := by
  cases c with
  | insert_secret secret => exact h.insert_secret secret
  | replace_secret secret =>
    refine ⟨?_, h.replace_secret secret⟩
    change Alike _ (PgStore.replace_secret secret pg).1 ↔ _
    by_cases htext : is_text secret.algorithm = true
    · refine iff_of_true ?_ htext
      unfold PgStore.replace_secret
      rw [if_neg (by simp [htext])]
      rfl
    · rw [replace_no_text (by simpa using htext)]
      exact iff_of_false (fun h => h) htext
  | remove_secret r => exact ⟨iff_of_true rfl trivial, fun _ => h.remove_secret r⟩
  | get_secret r =>
    refine ⟨h.get_secret r, fun _ ref => ?_⟩
    rw [standing_concat]
    exact h ref

end

/-! ## The agreement -/

/-- Every secret that a read gives was inserted, and has not been removed since. -/
def ReadsInserted {σ : Type} (store : StoreSecret σ) (new : σ) (calls : List Call) : Prop :=
  EveryStep (fun before c => ∀ ref secret, c = .get_secret ref →
    store.get_secret ref (after store.call new before) = .ok (some secret) →
    Inserted ref before) calls

theorem twins_new : Twins [] .new .new := by
  intro ref
  simp [Twin, standing, InMemorySecretStore.new, PgStore.new, PgStore.row_of]

theorem twins_after {calls : List Call} (h : EveryStep Apart calls) :
    Twins calls (after InMemorySecretStore.store.call .new calls)
      (after PgStore.store.call .new calls) := by
  induction calls using List.reverseRecOn with
  | nil => exact twins_new
  | append_singleton calls c ih =>
    obtain ⟨hcalls, hc⟩ := everyStep_concat.mp h
    rw [after_concat, after_concat]
    exact (ih hcalls).call.2 hc

/-- **The two stores agree**, and read only what was inserted, exactly when no insertion finds
its secret stored, no read follows a replacement of what is not, and what is written is text. -/
theorem secret_backends_agree_iff (calls : List Call) :
    (Agree Answer.Same InMemorySecretStore.store.call PgStore.store.call .new .new calls ∧
        ReadsInserted InMemorySecretStore.store .new calls ∧
        ReadsInserted PgStore.store .new calls) ↔
      EveryStep Apart calls := by
  have hagree : Agree Answer.Same InMemorySecretStore.store.call PgStore.store.call .new .new
      calls ↔ EveryStep Apart calls :=
    agree_iff twins_new fun _ _ _ _ h => h.call
  rw [hagree]
  constructor
  · exact fun h => h.1
  · intro h
    refine ⟨h, ?_, ?_⟩
    · rintro before c later rfl ref secret rfl hread
      apply inserted_of_standing
      exact (twins_after h.of_append).stored_of_entry hread (h before _ later rfl)
    · rintro before c later rfl ref secret rfl hread
      apply inserted_of_standing
      exact (twins_after h.of_append).stored_of_row hread

/-- A secret is inserted, removed, and then replaced. -/
def replacedAfterRemoval (ref : SecretRef) : List Call :=
  [.insert_secret ⟨ref, 0, [1], [4], "test"⟩, .remove_secret ref,
    .replace_secret ⟨ref, 0, [9], [4], "test"⟩, .get_secret ref]

/-- The map in memory gives a removed secret back after a replacement. -/
theorem a_replacement_revives_a_removed_secret :
    ¬ Agree Answer.Same InMemorySecretStore.store.call PgStore.store.call .new .new
      (replacedAfterRemoval ⟨⟨0, 0⟩⟩) := by
  intro h
  have hsteps := (agree_iff twins_new fun _ _ _ _ h => h.call).mp h
  exact hsteps [_, _, _] (.get_secret ⟨⟨0, 0⟩⟩) [] rfl (by decide)

end marie.secret.stores
