-- The bytes of a snapshot of the leases: how they are written and read, and
-- what a machine makes of bytes that it cannot read. It takes them for a
-- snapshot without leases.
import Marie.Lib.OrderedMap
import Marie.Serde
import Marie.Lease.StateMachine

open Codecs Program
open Std (ExtTreeMap)

namespace marie.serde

/-! ## The text of a session -/

/-- The bits of an identifier, as one number. -/
def id_bits (id : ID) : Nat := id.hi.toNat * 2 ^ 64 + id.lo.toNat

/-- `SessionId::from_str`. -/
def session_from_str (s : String) : Option SessionId :=
  (ID.from_str s).map fun id => ⟨id_bits id⟩

theorem hex_digits_mod (k n : Nat) : hex_digits k (n % 16 ^ k) = hex_digits k n := by
  unfold hex_digits
  apply List.map_congr_left
  intro i hi
  have hlt : i < k := by simpa using hi
  have hpow : 16 ^ k = 16 ^ i * (16 * 16 ^ (k - i - 1)) := by
    rw [← Nat.pow_succ', ← Nat.pow_add]
    congr 1
    omega
  rw [hpow, Nat.mod_mul_right_div_self, Nat.mod_mul_right_mod]

theorem hex_digits_append (j k n : Nat) :
    hex_digits (j + k) n = hex_digits j (n / 16 ^ k) ++ hex_digits k n := by
  unfold hex_digits
  rw [Nat.add_comm, List.range_add, List.reverse_append, List.map_append, ← List.map_reverse,
    List.map_map]
  congr 1
  apply List.map_congr_left
  intro i _
  rw [Function.comp_apply, Nat.div_div_eq_div_mul, Nat.pow_add]

/-- An identifier of 128 bits is read back from its text. -/
theorem from_str_display_id {n : Nat} (h : n < 2 ^ 128) :
    session_from_str (display_id n) = some ⟨n⟩ := by
  have hhi : n / 2 ^ 64 < 2 ^ 64 := Nat.div_lt_of_lt_mul (by omega)
  have htext : (⟨.ofNat (n / 2 ^ 64), .ofNat n⟩ : ID).to_string = display_id n := by
    unfold ID.to_string display_id
    congr 1
    rw [UInt64.toNat_ofNat', UInt64.toNat_ofNat', Nat.mod_eq_of_lt hhi]
    have hlow := hex_digits_mod 16 n
    rw [show 2 ^ 64 = 16 ^ 16 by norm_num, hlow]
    exact (hex_digits_append 16 16 n).symm
  have hback : id_bits ⟨.ofNat (n / 2 ^ 64), .ofNat n⟩ = n := by
    unfold id_bits
    rw [UInt64.toNat_ofNat', UInt64.toNat_ofNat', Nat.mod_eq_of_lt hhi, Nat.div_add_mod']
  rw [session_from_str, ← htext, ID.from_str_to_string, Option.map_some, hback]

theorem no_nul_display_id (n : Nat) : no_nul (display_id n) = true := by
  unfold no_nul display_id
  rw [String.toList_ofList, List.all_eq_true]
  intro c hc
  obtain ⟨i, -, rfl⟩ := List.mem_map.mp hc
  exact decide_eq_true (digitChar_ne_nul _ (Nat.mod_lt _ (by omega)))

/-! ## Maps from the sessions -/

section

variable {α : Type}

/-- One entry of an object whose keys are sessions. -/
def session_entry (c : Serde α) :
    Codec (fun p : String × Value => no_nul p.1 = true ∧ Jsonb p.2) (SessionId × α) where
  encode e := (c.encode e.2).map (display_id e.1.id, ·)
  decode p := do
    let k ← session_from_str p.1
    let a ← c.decode p.2
    some (k, a)
  Fits e := c.Fits e.2
  fits_iff := by
    intro e p h
    obtain ⟨v, hv, rfl⟩ := Option.map_eq_some_iff.mp h
    simp [no_nul_display_id, c.fits_iff hv]

theorem lossless_session_entry {c : Serde α} {e : SessionId × α} (hid : e.1.id < 2 ^ 128)
    (h : c.Lossless e.2) : (session_entry c).Lossless e := by
  obtain ⟨v, hv, hback⟩ := h
  refine ⟨(display_id e.1.id, v), by simp [session_entry, hv], ?_⟩
  simp [session_entry, from_str_display_id hid, hback]

/-- `HashMap<SessionId, _>`. -/
def session_map (c : Serde α) : Serde (ExtTreeMap SessionId α) where
  encode m := (m.toList.mapM (session_entry c).encode).map .Object
  decode
    | .Object fields => (fields.mapM (session_entry c).decode).map (ExtTreeMap.ofList ·)
    | _ => none
  Fits m := ∀ e ∈ m.toList, c.Fits e.2
  fits_iff := by
    intro m v h
    obtain ⟨fields, hfields, rfl⟩ := Option.map_eq_some_iff.mp h
    rw [jsonb_object, Codec.mapM_fits hfields]
    rfl

theorem lossless_session_map {c : Serde α} {m : ExtTreeMap SessionId α}
    (h : ∀ (k : SessionId) (a : α), m[k]? = some a → k.id < 2 ^ 128 ∧ c.Lossless a) :
    (session_map c).Lossless m := by
  have hall : ∀ e ∈ m.toList, (session_entry c).Lossless e := by
    rintro ⟨k, a⟩ he
    obtain ⟨hid, ha⟩ := h k a (ExtTreeMap.mem_toList_iff_getElem?_eq_some.mp he)
    exact lossless_session_entry hid ha
  obtain ⟨fields, henc, hdec⟩ := Codec.mapM_lossless.mpr hall
  refine ⟨.Object fields, by simp [session_map, henc], ?_⟩
  simp [session_map, hdec, OrderedMap.ofList_toList]

end

end marie.serde

namespace marie.lease

open serde (Jsonb no_nul record lossless_record seq u8 lossless_u8 unsigned lossless_unsigned
  session_map lossless_session_map)

/-! ## The derived form of a snapshot -/

def NodeId.serde : Codec Jsonb NodeId := (seq u8).iso NodeId.bytes NodeId.mk

theorem lossless_node_id (node : NodeId) : NodeId.serde.Lossless node := by
  unfold NodeId.serde
  rw [Codec.lossless_iso (fun _ => rfl) (fun _ => rfl)]
  simp

/-- An epoch is a `u64`. -/
def epoch_serde : Codec Jsonb Nat := unsigned (2 ^ 64) id id

theorem lossless_epoch {epoch : Nat} (h : epoch < 2 ^ 64) : epoch_serde.Lossless epoch :=
  lossless_unsigned h rfl

/-- The text of a snapshot: `serde_json` between bytes and values, and the form that `chrono`
gives to an instant. The bytes that `from_slice` does not read are those of an error. -/
structure SnapshotText where
  to_rfc3339 : DateTime → String
  parse_from_rfc3339 : String → Option DateTime
  to_vec : Value → Option (List UInt8)
  from_slice : List UInt8 → Option LeaseSnapshot

namespace SnapshotText

variable (text : SnapshotText)

def instant : Codec Jsonb DateTime where
  encode t := some (.String (text.to_rfc3339 t))
  decode
    | .String s => text.parse_from_rfc3339 s
    | _ => none
  Fits t := no_nul (text.to_rfc3339 t) = true
  fits_iff := by
    rintro t _ ⟨⟩
    rfl

def lease_entry : Codec Jsonb LeaseEntry :=
  record (((Fields.field "holder" NodeId.serde).both ((Fields.field "epoch" epoch_serde).both
    (Fields.field "expires_at" text.instant))).iso
    (fun e => (e.holder, e.epoch, e.expires_at)) fun e => ⟨e.1, e.2.1, e.2.2⟩) (by simp; decide)

def lease_snapshot : Codec Jsonb LeaseSnapshot :=
  record (((Fields.field "leases" (session_map text.lease_entry)).both
    (Fields.field "epochs" (session_map epoch_serde))).iso
    (fun s => (s.leases, s.epochs)) fun s => ⟨s.1, s.2⟩) (by simp; decide)

/-- `serde_json::to_vec` and `serde_json::from_slice`, on a snapshot. -/
def serde : Serde where
  to_vec s := (text.lease_snapshot.encode s).bind text.to_vec
  from_slice := text.from_slice

/-- What `serde_json` and `chrono` do on a snapshot: an instant of it is read back from its text,
and the bytes of its JSON value are read as that value is. -/
structure Reads (text : SnapshotText) (s : LeaseSnapshot) : Prop where
  instants : ∀ (k : SessionId) (lease : LeaseEntry), s.leases[k]? = some lease →
    text.parse_from_rfc3339 (text.to_rfc3339 lease.expires_at) = some lease.expires_at
  bytes : ∀ v, text.lease_snapshot.encode s = some v →
    ∃ data, text.to_vec v = some data ∧ text.from_slice data = text.lease_snapshot.decode v

end SnapshotText

/-- The numbers of the snapshot are those of their types: an identifier has 128 bits, and an
epoch has 64. -/
structure LeaseSnapshot.Typed (s : LeaseSnapshot) : Prop where
  leases : ∀ (k : SessionId) (lease : LeaseEntry), s.leases[k]? = some lease →
    k.id < 2 ^ 128 ∧ lease.epoch < 2 ^ 64
  epochs : ∀ (k : SessionId) (epoch : Nat), s.epochs[k]? = some epoch →
    k.id < 2 ^ 128 ∧ epoch < 2 ^ 64

variable {text : SnapshotText} {s : LeaseSnapshot} {m : StateMachineInner}

/-! ## A snapshot is read back -/

theorem lossless_lease_entry {lease : LeaseEntry} (hepoch : lease.epoch < 2 ^ 64)
    (hinstant : text.parse_from_rfc3339 (text.to_rfc3339 lease.expires_at) =
      some lease.expires_at) : text.lease_entry.Lossless lease := by
  rw [SnapshotText.lease_entry, lossless_record, Fields.lossless_iso (fun _ => rfl) (fun _ => rfl),
    Fields.lossless_both (by simp), Fields.lossless_both (by simp)]
  simp only [Fields.lossless_field]
  exact ⟨lossless_node_id _, lossless_epoch hepoch, _, rfl, hinstant⟩

theorem lossless_lease_snapshot (htyped : s.Typed)
    (hinstants : ∀ (k : SessionId) (lease : LeaseEntry), s.leases[k]? = some lease →
      text.parse_from_rfc3339 (text.to_rfc3339 lease.expires_at) = some lease.expires_at) :
    text.lease_snapshot.Lossless s := by
  rw [SnapshotText.lease_snapshot, lossless_record,
    Fields.lossless_iso (fun _ => rfl) (fun _ => rfl), Fields.lossless_both (by simp)]
  simp only [Fields.lossless_field]
  constructor
  · apply lossless_session_map
    intro k lease hlease
    obtain ⟨hid, hepoch⟩ := htyped.leases k lease hlease
    exact ⟨hid, lossless_lease_entry hepoch (hinstants k lease hlease)⟩
  · apply lossless_session_map
    intro k epoch hepoch
    obtain ⟨hid, hlt⟩ := htyped.epochs k epoch hepoch
    exact ⟨hid, lossless_epoch hlt⟩

theorem round_trips_of_typed (htyped : s.Typed) (hreads : text.Reads s) :
    text.serde.RoundTrips s := by
  obtain ⟨v, henc, hdec⟩ := lossless_lease_snapshot htyped hreads.instants
  obtain ⟨data, hto, hfrom⟩ := hreads.bytes v henc
  refine ⟨data, ?_, hfrom.trans hdec⟩
  change (text.lease_snapshot.encode s).bind text.to_vec = some data
  rw [henc, Option.bind_some, hto]

/-! ## The numbers stay in their types -/

theorem LeaseSnapshot.typed_default : LeaseAuthority.default.snapshot.Typed := by
  constructor <;> simp [LeaseAuthority.default, LeaseAuthority.snapshot]

/-- An answer to a request on a session of 128 bits keeps the numbers in their types. -/
theorem LeaseSnapshot.Typed.answered {a a' : LeaseAuthority} {now : DateTime} {k : SessionId}
    {op : LeaseOp} {result : LeaseResult} (h : a.snapshot.Typed) (hid : k.id < 2 ^ 128)
    (hop : a.Answered now k op result a') : a'.snapshot.Typed := by
  cases hop with
  | granted hfree hfits htime =>
    constructor
    · intro k' lease hlease
      by_cases hk : k' = k
      · subst hk
        simp only [LeaseAuthority.snapshot, LeaseAuthority.grant,
          ExtTreeMap.getElem?_insert_self, Option.some.injEq] at hlease
        rw [← hlease]
        exact ⟨hid, hfits⟩
      · simp only [LeaseAuthority.snapshot, LeaseAuthority.grant,
          OrderedMap.get_insert_of_ne hk] at hlease
        exact h.leases k' lease hlease
    · intro k' epoch hepoch
      by_cases hk : k' = k
      · subst hk
        simp only [LeaseAuthority.snapshot, LeaseAuthority.grant,
          ExtTreeMap.getElem?_insert_self, Option.some.injEq] at hepoch
        rw [← hepoch]
        exact ⟨hid, hfits⟩
      · simp only [LeaseAuthority.snapshot, LeaseAuthority.grant,
          OrderedMap.get_insert_of_ne hk] at hepoch
        exact h.epochs k' epoch hepoch
  | renewed hpair htime =>
    refine ⟨?_, h.epochs⟩
    intro k' lease hlease
    by_cases hk : k' = k
    · subst hk
      obtain ⟨t, hold⟩ := hpair
      have hnumbers := h.leases k' _ hold
      simp only [LeaseAuthority.snapshot, ExtTreeMap.getElem?_insert_self,
        Option.some.injEq] at hlease
      rw [← hlease]
      exact hnumbers
    · simp only [LeaseAuthority.snapshot, OrderedMap.get_insert_of_ne hk] at hlease
      exact h.leases k' lease hlease
  | released hpair =>
    refine ⟨?_, h.epochs⟩
    intro k' lease hlease
    simp only [LeaseAuthority.snapshot, ExtTreeMap.getElem?_erase] at hlease
    split at hlease
    · cases hlease
    · exact h.leases k' lease hlease
  | held | notRenewed | notReleased => exact h

/-- The session that an entry asks for has 128 bits. -/
def Entry.Typed (entry : Entry) : Prop :=
  ∀ request, entry.payload = .Normal request → request.session_id.id < 2 ^ 128

theorem typed_of_entry {m' : StateMachineInner} {entry : Entry} {now : DateTime}
    {result : LeaseResult} (h : m.authority.snapshot.Typed) (hentry : entry.Typed)
    (hrun : exec (apply_entry entry now) m = (.ok result, m')) : m'.authority.snapshot.Typed := by
  have happlied := entry_applied hrun
  cases hpayload : entry.payload with
  | Normal request =>
    rw [hpayload] at happlied
    exact h.answered (hentry request hpayload) happlied
  | Blank =>
    rw [hpayload] at happlied
    rwa [happlied.2]
  | Membership membership =>
    rw [hpayload] at happlied
    rwa [happlied.2]

/-- Whatever log a machine has applied, the numbers of its snapshot are those of their types. -/
theorem typed_of_applied {entries : List (Entry × DateTime)} {results : List LeaseResult}
    {m' : StateMachineInner} (h : m.authority.snapshot.Typed) (hentries : ∀ x ∈ entries, x.1.Typed)
    (hrun : exec (apply entries) m = (.ok results, m')) : m'.authority.snapshot.Typed := by
  induction entries generalizing m results with
  | nil =>
    cases hrun
    exact h
  | cons x entries ih =>
    rw [List.forall_mem_cons] at hentries
    rw [apply, List.mapM_cons] at hrun
    obtain ⟨result, m1, hfirst, hrun⟩ := exec_bind_eq_ok hrun
    obtain ⟨rest, m2, hrest, hrun⟩ := exec_bind_eq_ok hrun
    cases hrun
    exact ih (typed_of_entry h hentries.1 hfirst) hentries.2 hrest

/-! ## What a machine makes of the bytes -/

/-- The machine refuses the snapshot: the call fails, and nothing moves. -/
def Refuses (serde : Serde) (m : StateMachineInner) (snapshot : StoredSnapshot) : Prop :=
  ∃ e, exec (install_snapshot serde snapshot) m = (.error e, m)

/-- The snapshot that the machine builds brings any machine to its state. -/
def Restores (serde : Serde) (m : StateMachineInner) : Prop :=
  ∀ now other, ∃ snapshot built, exec (build_snapshot serde now) m = (.ok snapshot, built) ∧
    Alike m built ∧ exec (install_snapshot serde snapshot) other = (.ok (), built)

theorem restores_of_round_trips {serde : Serde} (h : serde.RoundTrips m.authority.snapshot) :
    Restores serde m := by
  intro now other
  obtain ⟨data, hto, hfrom⟩ := h
  refine ⟨_, _, rfl, ⟨rfl, rfl, rfl⟩, ?_⟩
  simp [install_snapshot, hto, hfrom]

/-- A machine that started without leases builds snapshots that bring any machine to its state,
whatever log it has applied. -/
theorem restores_of_applied {entries : List (Entry × DateTime)} {results : List LeaseResult}
    (hentries : ∀ x ∈ entries, x.1.Typed)
    (hrun : exec (apply entries) .default = (.ok results, m))
    (hreads : text.Reads m.authority.snapshot) : Restores text.serde m :=
  restores_of_round_trips
    (round_trips_of_typed (typed_of_applied LeaseSnapshot.typed_default hentries hrun) hreads)

/-- Bytes that are not read are taken for a snapshot without leases and without epochs. -/
theorem installed_of_unread {serde : Serde} {snapshot : StoredSnapshot}
    (h : serde.from_slice snapshot.data = none) :
    exec (install_snapshot serde snapshot) m = (.ok (), {
      authority := .default
      last_applied := snapshot.snapshot_meta.last_log_id
      last_membership := snapshot.snapshot_meta.last_membership
      current_snapshot := some snapshot }) := by
  unfold install_snapshot
  rw [h]
  rfl

/-- A machine refuses bytes that are no snapshot, and builds snapshots that bring any machine to
its state, exactly when the bytes it gets are a snapshot: it refuses none. -/
theorem bad_snapshots_are_refused_iff (snapshot : StoredSnapshot)
    (htyped : m.authority.snapshot.Typed) (hreads : text.Reads m.authority.snapshot) :
    ((text.from_slice snapshot.data = none → Refuses text.serde m snapshot) ∧
      Restores text.serde m) ↔ (text.from_slice snapshot.data).isSome := by
  have hrestores := restores_of_round_trips (round_trips_of_typed htyped hreads)
  constructor
  · rintro ⟨hrefuses, -⟩
    by_contra hno
    rw [Option.not_isSome_iff_eq_none] at hno
    obtain ⟨e, hrun⟩ := hrefuses hno
    rw [installed_of_unread hno] at hrun
    cases hrun
  · intro hsome
    refine ⟨?_, hrestores⟩
    intro hnone
    rw [hnone] at hsome
    cases hsome

theorem five_seconds_in_range : MIN_UTC ≤ 5000000000 ∧ 5000000000 ≤ MAX_UTC := by decide

/-- The text of one instant, and of one snapshot. -/
def oneGrantText : SnapshotText where
  to_rfc3339 _ := "1970-01-01T00:00:05Z"
  parse_from_rfc3339 s :=
    if s = "1970-01-01T00:00:05Z" then some ⟨5000000000, five_seconds_in_range⟩ else none
  to_vec _ := some oneGrantJson
  from_slice data := if data = oneGrantJson then some oneGrantSnapshot else none

def oneGrantMachine : StateMachineInner :=
  { StateMachineInner.default with authority := ⟨oneGrantSnapshot.leases, oneGrantSnapshot.epochs⟩ }

theorem oneGrant_lease {k : SessionId} {lease : LeaseEntry}
    (h : oneGrantSnapshot.leases[k]? = some lease) :
    k = ⟨1⟩ ∧ lease = ⟨⟨[1]⟩, 1, ⟨5000000000, by decide⟩⟩ := by
  by_cases hk : k = ⟨1⟩
  · subst hk
    simp only [oneGrantSnapshot, ExtTreeMap.getElem?_insert_self, Option.some.injEq] at h
    exact ⟨rfl, h.symm⟩
  · simp [oneGrantSnapshot, OrderedMap.get_insert_of_ne hk] at h

/-- The snapshot of the machine, as another machine receives it. -/
def sentSnapshot : StoredSnapshot := ⟨⟨none, ⟨none, [], ∅⟩, "0-0"⟩, oneGrantJson⟩

theorem the_snapshot_of_one_grant_is_installed :
    (oneGrantText.from_slice sentSnapshot.data = none →
      Refuses oneGrantText.serde oneGrantMachine sentSnapshot) ∧
      Restores oneGrantText.serde oneGrantMachine := by
  have htyped : oneGrantMachine.authority.snapshot.Typed := by
    have hrun : exec (apply oneGrant) .default =
        (.ok [.Granted 1 ⟨5000000000, by decide⟩], (exec (apply oneGrant) .default).2) := by
      decide +kernel
    have hsame : (exec (apply oneGrant) .default).2.authority = oneGrantMachine.authority := by
      decide +kernel
    rw [← hsame]
    refine typed_of_applied LeaseSnapshot.typed_default ?_ hrun
    rintro x hx request hrequest
    obtain rfl := List.mem_singleton.mp hx
    obtain rfl := EntryPayload.Normal.inj hrequest
    decide
  have hinstants : ∀ (k : SessionId) (lease : LeaseEntry),
      oneGrantMachine.authority.snapshot.leases[k]? = some lease →
      oneGrantText.parse_from_rfc3339 (oneGrantText.to_rfc3339 lease.expires_at) =
        some lease.expires_at := by
    intro k lease h
    obtain ⟨rfl, rfl⟩ := oneGrant_lease h
    simp [oneGrantText]
  have hreads : oneGrantText.Reads oneGrantMachine.authority.snapshot := by
    refine ⟨hinstants, ?_⟩
    intro v hv
    obtain ⟨v', henc, hdec⟩ := lossless_lease_snapshot htyped hinstants
    obtain rfl := Option.some.inj (hv.symm.trans henc)
    exact ⟨oneGrantJson, rfl, by rw [hdec]; simp [oneGrantText, oneGrantMachine,
      LeaseAuthority.snapshot]⟩
  apply (bad_snapshots_are_refused_iff sentSnapshot htyped hreads).mpr
  simp [oneGrantText, sentSnapshot]

/-- The first bytes of the snapshot, after a transfer that was cut short. -/
def cutSnapshot : StoredSnapshot :=
  ⟨⟨some ⟨⟨1, ⟨7⟩⟩, 1⟩, ⟨none, [], ∅⟩, "1-0"⟩, oneGrantJson.take 20⟩

/-- A snapshot that was cut short is no error: the lease of the machine is gone, its epoch too,
and its log counts as applied. -/
theorem a_cut_snapshot_wipes_the_leases :
    oneGrantText.from_slice cutSnapshot.data = none ∧
      ¬ Refuses oneGrantText.serde oneGrantMachine cutSnapshot ∧
      oneGrantMachine.authority.Holds ⟨1⟩ ⟨[1]⟩ 1 ∧
      ∃ installed, exec (install_snapshot oneGrantText.serde cutSnapshot) oneGrantMachine =
        (.ok (), installed) ∧ installed.authority = .default ∧
        installed.last_applied = some ⟨⟨1, ⟨7⟩⟩, 1⟩ := by
  have hcut : oneGrantText.from_slice cutSnapshot.data = none := by
    have hne : oneGrantJson.take 20 ≠ oneGrantJson := by
      intro h
      have hlen := congrArg List.length h
      revert hlen
      decide +kernel
    simp [oneGrantText, cutSnapshot, hne]
  have hinstalled : exec (install_snapshot oneGrantText.serde cutSnapshot) oneGrantMachine = _ :=
    installed_of_unread hcut
  refine ⟨hcut, ?_, ?_, _, hinstalled, rfl, rfl⟩
  · rintro ⟨e, hrun⟩
    rw [hinstalled] at hrun
    cases hrun
  · exact ⟨_, ExtTreeMap.getElem?_insert_self⟩

end marie.lease
