import GameNet.Lib.Trace
import GameNet.ServerState

/-!
# GameNet.Durability

The state file always describes the memory of a healthy relay. A run performs the operations of
`ServerState` at nondecreasing times while saves fail in any way; `lastSave` is the time of the
last save that succeeded. `Mirrors` is the relation between the file's records and the table: the
file has the record of every lease, as saved at `lastSave`, and every other record of the file has
expired. Dropping expired leases from memory alone keeps it, a successful save renews it, and a
failed save makes the relay unhealthy.
-/

namespace GameNet

open LeaseTable (WellFormed Valid load recordOf)

/-- The records describe the table as saved at `savedAt`, up to what has expired at `clock`. -/
structure Mirrors (records : List LeaseRecord) (t : LeaseTable) (savedAt clock : UInt64) :
    Prop where
  complete : ∀ {k lease}, t.leases.lookup k = some lease → recordOf savedAt k lease ∈ records
  sound : ∀ record ∈ records, clock < record.expiresAtMs →
    ∃ lease, t.leases.lookup record.tokenId = some lease ∧
      record = recordOf savedAt record.tokenId lease

namespace Mirrors

variable {records : List LeaseRecord} {t t' : LeaseTable} {savedAt clock now : UInt64}

theorem of_snapshot (h : records.Perm (t.snapshot savedAt)) : Mirrors records t savedAt clock where
  complete hl := h.mem_iff.mpr (LeaseTable.mem_snapshot.mpr ⟨_, _, hl, rfl⟩)
  sound record hr _ := by
    obtain ⟨k, lease, hl, rfl⟩ := LeaseTable.mem_snapshot.mp (h.mem_iff.mp hr)
    exact ⟨lease, hl, rfl⟩

theorem mono (h : Mirrors records t savedAt clock) (hle : clock ≤ now) :
    Mirrors records t savedAt now where
  complete := h.complete
  sound record hr hlt := h.sound record hr (by grind)

theorem same (h : Mirrors records t savedAt clock) (hs : t.Same t') :
    Mirrors records t' savedAt clock where
  complete hl := h.complete (by rw [hs.leases]; exact hl)
  sound record hr hlt := by
    obtain ⟨lease, hl, he⟩ := h.sound record hr hlt
    exact ⟨lease, by rw [← hs.leases]; exact hl, he⟩

/-- What memory drops at `now` has expired on disk too. -/
theorem reapExpired (h : Mirrors records t savedAt now) :
    Mirrors records (t.reapExpired now) savedAt now where
  complete hl := h.complete (LeaseTable.lookup_of_reapExpired hl)
  sound record hr hlt := by
    obtain ⟨lease, hl, he⟩ := h.sound record hr hlt
    refine ⟨lease, LeaseTable.lookup_reapExpired.mpr ⟨hl, ?_⟩, he⟩
    rw [Lease.expired_eq_false]
    intro deadline hs
    have hd : record.expiresAtMs = deadline := by
      rw [he]
      simp only [recordOf, Lease.savedDeadline, hs]
    rw [← hd]
    exact hlt

/-- The records a table was loaded from mirror it. -/
theorem of_load (hv : Valid records) : Mirrors records (load now .new records) savedAt now where
  complete hl := by
    obtain ⟨record, hr, rfl, -, rfl⟩ := (LeaseTable.lookup_load_new hv.tokens).mp hl
    exact hr
  sound record hr hlt :=
    ⟨record.toLease, (LeaseTable.lookup_load_new hv.tokens).mpr ⟨record, hr, rfl, hlt, rfl⟩, rfl⟩

/-- What is loaded later is the table, each lease waiting until its saved deadline. -/
theorem lookup_load (h : Mirrors records t savedAt clock) (hv : Valid records)
    (hle : clock ≤ now) (k : TokenId) (lease : Lease) :
    (load now .new records).leases.lookup k = some lease ↔
      ∃ l, t.leases.lookup k = some l ∧ now < l.savedDeadline savedAt ∧
        lease = { l with status := .grace (l.savedDeadline savedAt) } := by
  rw [LeaseTable.lookup_load_new hv.tokens]
  constructor
  · rintro ⟨record, hr, rfl, hlt, rfl⟩
    obtain ⟨l, hl, he⟩ := h.sound record hr (by grind)
    refine ⟨l, hl, ?_, ?_⟩
    · rw [he] at hlt; exact hlt
    · rw [he]; rfl
  · rintro ⟨l, hl, hlt, rfl⟩
    exact ⟨recordOf savedAt k l, h.complete hl, rfl, hlt, rfl⟩

end Mirrors

namespace ServerState

variable {Conn : Type}

inductive Op (Conn : Type) where
  | register (token : TunnelToken) (recoveryId : Option Bytes32) (peerIp : IpAddr)
      (connection : Option Conn) (bind : UInt16 → BindOutcome)
  | endSession (tokenId : TokenId) (sessionId : SessionId)
  | rotate (old new : TunnelToken)
  | recover (secret new : TunnelToken) (peerIp : IpAddr)
  | refreshAndSave

inductive Outcome (Conn : Type) where
  | registered (r : Except ServerError Registration)
  | ended (r : Except ServerError Bool)
  | rotated (r : Except ServerError (Option UInt16))
  | recovered (r : Except ServerError (UInt16 × Option Conn))
  | refreshed (r : Except ServerError Unit)

/-- An operation with its time, how the file system served its save, and what it returned. -/
structure Event (Conn : Type) where
  op : Op Conn
  now : UInt64
  io : SaveOutcome
  outcome : Outcome Conn

def perform (J : SerdeJson) (sha256 : Bytes32 → Bytes32) (s : ServerState Conn) (now : UInt64)
    (io : SaveOutcome) : Op Conn → Outcome Conn × ServerState Conn
  | .register token recoveryId peerIp connection bind =>
    let r := s.registerWithRecovery J sha256 token recoveryId peerIp now connection bind io
    (.registered r.1, r.2)
  | .endSession tokenId sessionId =>
    let r := s.endSession J tokenId sessionId now io
    (.ended r.1, r.2)
  | .rotate old new =>
    let r := s.rotate J sha256 old new now io
    (.rotated r.1, r.2)
  | .recover secret new peerIp =>
    let r := s.recover J sha256 secret new peerIp now io
    (.recovered r.1, r.2)
  | .refreshAndSave =>
    let r := s.refreshAndSave J now io
    (.refreshed r.1, r.2)

/-! What an event of each kind says about the operation behind it. -/

section perform

variable {J : SerdeJson} {sha256 : Bytes32 → Bytes32} {s s' : ServerState Conn} {now : UInt64}
  {io : SaveOutcome} {outcome : Outcome Conn}

theorem perform_register {token : TunnelToken} {recoveryId : Option Bytes32} {peerIp : IpAddr}
    {connection : Option Conn} {bind : UInt16 → BindOutcome}
    (h : perform J sha256 s now io (.register token recoveryId peerIp connection bind) =
      (outcome, s')) :
    ∃ r, s.registerWithRecovery J sha256 token recoveryId peerIp now connection bind io = (r, s') ∧
      outcome = .registered r := by
  cases h; exact ⟨_, rfl, rfl⟩

theorem perform_endSession {tokenId : TokenId} {sessionId : SessionId}
    (h : perform J sha256 s now io (.endSession tokenId sessionId) = (outcome, s')) :
    ∃ r, s.endSession J tokenId sessionId now io = (r, s') ∧ outcome = .ended r := by
  cases h; exact ⟨_, rfl, rfl⟩

theorem perform_rotate {old new : TunnelToken}
    (h : perform J sha256 s now io (.rotate old new) = (outcome, s')) :
    ∃ r, s.rotate J sha256 old new now io = (r, s') ∧ outcome = .rotated r := by
  cases h; exact ⟨_, rfl, rfl⟩

theorem perform_recover {secret new : TunnelToken} {peerIp : IpAddr}
    (h : perform J sha256 s now io (.recover secret new peerIp) = (outcome, s')) :
    ∃ r, s.recover J sha256 secret new peerIp now io = (r, s') ∧ outcome = .recovered r := by
  cases h; exact ⟨_, rfl, rfl⟩

theorem perform_refresh (h : perform J sha256 s now io .refreshAndSave = (outcome, s')) :
    ∃ r, s.refreshAndSave J now io = (r, s') ∧ outcome = .refreshed r := by
  cases h; exact ⟨_, rfl, rfl⟩

end perform

/-- The operation saved the leases: it succeeded, and it is one that saves when it succeeds. A
rotation that transfers nothing and a recovery that changes nothing do not. -/
def saved (sha256 : Bytes32 → Bytes32) (s : ServerState Conn) (now : UInt64) :
    Op Conn → Outcome Conn → Bool
  | .register _ _ _ _ _, .registered (.ok _) => true
  | .endSession _ _, .ended (.ok b) => b
  | .rotate old new, .rotated (.ok _) =>
    match (s.leases.rotateClaim (.fromToken sha256 old) (.fromToken sha256 new) now).1 with
    | .ok (.transferred _) => true
    | _ => false
  | .recover secret new peerIp, .recovered (.ok _) =>
    match (s.leases.recoverClaim (.fromToken sha256 secret) (.fromToken sha256 new) peerIp now).1
      with
    | .ok result => result.changed
    | .error _ => false
  | .refreshAndSave, .refreshed (.ok ()) => true
  | _, _ => false

/-- The relay, the time of its last operation and the time of its last successful save. -/
structure Run (Conn : Type) where
  server : ServerState Conn
  clock : UInt64
  lastSave : UInt64

/-- One operation, on the leases in any iteration order. -/
inductive Step (J : SerdeJson) (sha256 : Bytes32 → Bytes32) :
    Run Conn → Event Conn → Run Conn → Prop where
  | mk {r : Run Conn} {t : LeaseTable} {op : Op Conn} {now : UInt64} {io : SaveOutcome}
      {outcome : Outcome Conn} {s' : ServerState Conn} :
      r.server.leases.Same t → r.server.leases.nextSessionId = t.nextSessionId → r.clock ≤ now →
      perform J sha256 { r.server with leases := t } now io op = (outcome, s') →
      Step J sha256 r ⟨op, now, io, outcome⟩
        ⟨s', now, if saved sha256 { r.server with leases := t } now op outcome then now
          else r.lastSave⟩

/-- The relay has just been started on a current file. -/
def Started (J : SerdeJson) (sha256 : Bytes32 → Bytes32) (r : Run Conn) : Prop :=
  ∃ store io, LeaseStore.Current J store ∧ (loadOrNew J sha256 store r.clock io).1 = .ok r.server ∧
    r.lastSave = r.clock

abbrev Reachable (J : SerdeJson) (sha256 : Bytes32 → Bytes32) : Run Conn → Prop :=
  Trace.Reached (Started J sha256) (Step J sha256)

/-- The invariant of a run. -/
structure Synced (J : SerdeJson) (r : Run Conn) : Prop where
  wellFormed : r.server.leases.WellFormed
  stored : r.server.persistenceHealthy = true → ∃ records,
    LeaseStore.Stores J r.server.store records ∧ Valid records ∧
      Mirrors records r.server.leases r.lastSave r.clock

variable {J : SerdeJson} {sha256 : Bytes32 → Bytes32} {s s' : ServerState Conn}
  {r r' : Run Conn} {e : Event Conn} {op : Op Conn} {outcome : Outcome Conn} {now : UInt64}
  {io : SaveOutcome}

/-- What an operation does to memory and disk: it saves the table it leaves; or a save fails; or
nothing is written and memory loses at most its expired leases. -/
inductive Settles (J : SerdeJson) (s : ServerState Conn) (now : UInt64) :
    Bool → ServerState Conn → Prop where
  | saved {s' : ServerState Conn} {io : SaveOutcome} :
      s.store.save J (s'.leases.snapshot now) io = (.ok (), s'.store) → Settles J s now true s'
  | failed {s' : ServerState Conn} : s'.persistenceHealthy = false → Settles J s now false s'
  | quiet {s' : ServerState Conn} : s'.store = s.store →
      s'.persistenceHealthy = s.persistenceHealthy →
      s'.leases = s.leases ∨ s'.leases = s.leases.reapExpired now → Settles J s now false s'

theorem perform_settles (hw : s.leases.WellFormed)
    (h : perform J sha256 s now io op = (outcome, s')) :
    Settles J s now (saved sha256 s now op outcome) s' ∧ s'.leases.WellFormed := by
  cases op with
  | register token recoveryId peerIp connection bind =>
    obtain ⟨answer, hr, rfl⟩ := perform_register h
    rcases registerWithRecovery_cases hr with
      ⟨⟨e, rfl⟩, ⟨-, rfl⟩ | rfl | ⟨store, rfl⟩⟩ | ⟨_, _, _, _, -, -, -, -, hreg, rfl⟩
    · exact ⟨.quiet rfl rfl (.inl rfl), hw⟩
    · exact ⟨.quiet rfl rfl (.inr rfl), hw.reapExpired⟩
    · exact ⟨.failed rfl, hw.reapExpired⟩
    · exact ⟨.saved hreg.saved, hw.activateWithRecovery hreg.activated⟩
  | endSession tokenId sessionId =>
    obtain ⟨answer, hr, rfl⟩ := perform_endSession h
    rcases endSession_cases hr with ⟨rfl, -, rfl⟩ | ⟨-, hl, -, hsave⟩
    · exact ⟨.quiet rfl rfl (.inl rfl), hw⟩
    · have hw' : s'.leases.WellFormed := by rw [hl]; exact hw.endSession rfl
      rcases hsave with ⟨e, rfl, hh, -⟩ | ⟨rfl, -, hsave⟩
      · exact ⟨.failed hh, hw'⟩
      · exact ⟨.saved hsave, hw'⟩
  | rotate old new =>
    obtain ⟨answer, hr, rfl⟩ := perform_rotate h
    rcases rotate_cases hr with
      ⟨⟨e, rfl⟩, rfl | ⟨store, rfl⟩⟩ | ⟨-, ⟨port, rfl, rfl, hrot⟩ | ⟨port, rfl, hrot, hsave, -⟩⟩
    · exact ⟨.quiet rfl rfl (.inl rfl), hw⟩
    · exact ⟨.failed rfl, hw⟩
    · simp only [saved, hrot]
      exact ⟨.quiet rfl rfl (.inl rfl), hw⟩
    · simp only [saved, hrot]
      exact ⟨.saved hsave, hw.rotateClaim hrot⟩
  | recover secret new peerIp =>
    obtain ⟨answer, hr, rfl⟩ := perform_recover h
    rcases recover_cases hr with
      ⟨⟨e, rfl⟩, rfl | ⟨store, rfl⟩⟩ |
        ⟨-, result, hrec, ⟨hc, rfl, rfl⟩ | ⟨hc, hl, hsave, -, -, rfl⟩⟩
    · exact ⟨.quiet rfl rfl (.inl rfl), hw⟩
    · exact ⟨.failed rfl, hw⟩
    · simp only [saved, hrec, hc]
      exact ⟨.quiet rfl rfl (.inl rfl), hw⟩
    · simp only [saved, hrec, hc]
      exact ⟨.saved hsave, by rw [hl]; exact hw.recoverClaim rfl⟩
  | refreshAndSave =>
    obtain ⟨answer, hr, rfl⟩ := perform_refresh h
    obtain ⟨hl, -, hsave⟩ := refreshAndSave_cases hr
    have hw' : s'.leases.WellFormed := by rw [hl]; exact hw.reapExpired
    rcases hsave with ⟨e, rfl, hh, -⟩ | ⟨rfl, -, hsave⟩
    · exact ⟨.failed hh, hw'⟩
    · exact ⟨.saved hsave, hw'⟩

/-- The invariant is kept by whatever settles memory and disk. -/
theorem Settles.synced {b : Bool} {clock lastSave : UInt64} (hJ : J.Lawful)
    (h : Settles J s now b s') (hi : Synced J ⟨s, clock, lastSave⟩) (hle : clock ≤ now)
    (hw : s'.leases.WellFormed) : Synced J ⟨s', now, if b then now else lastSave⟩ := by
  refine ⟨hw, fun hh => ?_⟩
  cases h with
  | saved hsave =>
    rcases LeaseStore.save_cases hJ hsave with ⟨-, records, hp, hs⟩ | ⟨⟨e, he⟩, -⟩
    · exact ⟨records, hs, (hw.snapshot_valid now).perm hp.symm, .of_snapshot hp⟩
    · cases he
  | failed hf =>
    have hh : s'.persistenceHealthy = true := hh
    rw [hf] at hh; cases hh
  | quiet hstore hhealthy hl =>
    have hh : s'.persistenceHealthy = true := hh
    rw [hhealthy] at hh
    obtain ⟨records, hs, hv, hm⟩ := hi.stored hh
    refine ⟨records, by rw [hstore]; exact hs, hv, ?_⟩
    have hm := hm.mono hle
    rcases hl with hl | hl
    · rw [hl]; exact hm
    · rw [hl]; exact hm.reapExpired

theorem Step.synced (hJ : J.Lawful) (hi : Synced J r) (h : Step J sha256 r e r') :
    Synced J r' := by
  obtain ⟨hsame, hn, hle, hp⟩ := h
  have hw := hsame.wellFormed hn hi.wellFormed
  obtain ⟨hsettles, hw'⟩ := perform_settles hw hp
  refine hsettles.synced hJ ⟨hw, fun hh => ?_⟩ hle hw'
  obtain ⟨records, hs, hv, hm⟩ := hi.stored hh
  exact ⟨records, hs, hv, hm.same hsame⟩

/-- A relay started on a current file has read it. -/
theorem Started.synced (h : Started J sha256 r) : Synced J r := by
  obtain ⟨server, clock, lastSave⟩ := r
  obtain ⟨store, io, hcur, hload, hlast⟩ := h
  have hlast : lastSave = clock := hlast
  subst hlast
  obtain ⟨answer, store', hc⟩ : ∃ answer store', store.loadOrCreate J sha256 lastSave io =
    (answer, store') := ⟨_, _, rfl⟩
  simp only [loadOrNew, hc] at hload
  cases answer with
  | error e => cases hload
  | ok table =>
    cases hload
    obtain ⟨rfl, records, hs, hres⟩ := LeaseStore.loadOrCreate_cases hcur hc
    obtain ⟨hv, rfl⟩ := LeaseTable.restore_eq_ok.mp hres
    exact ⟨hv.wellFormed, fun _ => ⟨records, hs, hv, .of_load hv⟩⟩

theorem Started.healthy (h : Started J sha256 r) : r.server.persistenceHealthy = true := by
  obtain ⟨store, io, -, hload, -⟩ := h
  simp only [loadOrNew] at hload
  split at hload
  · cases hload
  · rw [← Except.ok.inj hload]

theorem reachable_synced (hJ : J.Lawful) (h : Reachable J sha256 r) : Synced J r :=
  h.invariant (fun _ => Started.synced) (fun _ _ _ hi hs => hs.synced hJ hi)

/-! ## After a crash -/

/-- A relay started on the disk of `r` at `now` has the leases of `r`, each waiting until the
deadline the last save gave it, without those that are over; and the start writes nothing. -/
def Run.ComesBack (J : SerdeJson) (sha256 : Bytes32 → Bytes32) (r : Run Conn) (now : UInt64) :
    Prop :=
  ∀ io, ∃ s : ServerState Conn, loadOrNew J sha256 r.server.store now io = (.ok s, r.server.store) ∧
    ∀ k lease, s.leases.leases.lookup k = some lease ↔
      ∃ l, r.server.leases.leases.lookup k = some l ∧ now < l.savedDeadline r.lastSave ∧
        lease = { l with status := .grace (l.savedDeadline r.lastSave) }

/-- The answer confirms that `tokenId` has `port`. -/
def Event.Confirms (sha256 : Bytes32 → Bytes32) (e : Event Conn) (tokenId : TokenId)
    (port : UInt16) : Prop :=
  match e.op, e.outcome with
  | .register _ _ _ _ _, .registered (.ok registration) =>
    registration.tokenId = tokenId ∧ registration.publicPort = port
  | .rotate _ new, .rotated (.ok (some p)) => .fromToken sha256 new = tokenId ∧ p = port
  | .recover _ new _, .recovered (.ok (p, _)) => .fromToken sha256 new = tokenId ∧ p = port
  | _, _ => False

theorem Synced.comesBack (h : Synced J r) (hh : r.server.persistenceHealthy = true)
    (hle : r.clock ≤ now) : r.ComesBack J sha256 now := by
  intro io
  obtain ⟨records, hs, hv, hm⟩ := h.stored hh
  have hres := LeaseTable.restore_eq_ok.mpr ⟨hv, (rfl : load now .new records = _)⟩
  refine ⟨⟨load now .new records, r.server.store, true, ∅⟩, ?_, hm.lookup_load hv hle⟩
  simp only [loadOrNew, hs.load, hres]

/-- A confirmed port is in the table the operation leaves, and the relay is healthy. -/
theorem confirmed {tokenId : TokenId} {port : UInt16}
    (h : perform J sha256 s now io op = (outcome, s'))
    (hc : Event.Confirms sha256 ⟨op, now, io, outcome⟩ tokenId port) :
    s'.persistenceHealthy = true ∧
      ∃ lease, s'.leases.leases.lookup tokenId = some lease ∧ lease.port = port := by
  cases op with
  | endSession k sessionId => cases hc
  | refreshAndSave => cases hc
  | register token recoveryId peerIp connection bind =>
    obtain ⟨answer, s₁, hr⟩ : ∃ answer s₁, s.registerWithRecovery J sha256 token recoveryId peerIp
      now connection bind io = (answer, s₁) := ⟨_, _, rfl⟩
    simp only [perform, hr, Prod.mk.injEq] at h
    obtain ⟨rfl, rfl⟩ := h
    rcases registerWithRecovery_cases hr with
      ⟨⟨e, rfl⟩, -⟩ | ⟨_, _, _, _, -, -, -, hh, hreg, rfl⟩
    · cases hc
    · obtain ⟨rfl, rfl⟩ := hc
      refine ⟨hreg.healthy.trans hh, ?_⟩
      obtain ⟨e, he, -⟩ | ⟨sessionId, he, -, hl⟩ :=
        LeaseTable.activateWithRecovery_cases hreg.activated
      · cases he
      · rw [hl]
        exact ⟨_, AList.lookup_insert _, rfl⟩
  | rotate old new =>
    obtain ⟨answer, s₁, hr⟩ : ∃ answer s₁, s.rotate J sha256 old new now io = (answer, s₁) :=
      ⟨_, _, rfl⟩
    simp only [perform, hr, Prod.mk.injEq] at h
    obtain ⟨rfl, rfl⟩ := h
    rcases rotate_cases hr with
      ⟨⟨e, rfl⟩, -⟩ | ⟨hh, ⟨p, rfl, rfl, hrot⟩ | ⟨p, rfl, hrot, -, hh', -⟩⟩
    · cases hc
    · obtain ⟨lease, -, hl, -⟩ | ⟨-, ⟨e, he⟩ | ⟨lease, hl, -, he⟩ | ⟨-, -, he⟩⟩ :=
        LeaseTable.rotateClaim_cases (Prod.ext hrot rfl)
      · cases hl
      · cases he
      · cases he
        obtain ⟨rfl, rfl⟩ := hc
        exact ⟨hh, lease, LeaseTable.lookup_of_reapExpired hl, rfl⟩
      · cases he
        cases hc
    · obtain ⟨rfl, rfl⟩ := hc
      obtain ⟨lease, -, he, hl⟩ | ⟨-, ⟨e, he⟩ | ⟨_, _, _, he⟩ | ⟨_, _, he⟩⟩ :=
        LeaseTable.rotateClaim_cases hrot
      · cases he
        rw [hl]
        exact ⟨hh'.trans hh, _, AList.lookup_insert _, rfl⟩
      · cases he
      · cases he
      · cases he
  | recover secret new peerIp =>
    obtain ⟨answer, s₁, hr⟩ : ∃ answer s₁, s.recover J sha256 secret new peerIp now io =
      (answer, s₁) := ⟨_, _, rfl⟩
    simp only [perform, hr, Prod.mk.injEq] at h
    obtain ⟨rfl, rfl⟩ := h
    rcases recover_cases hr with
      ⟨⟨e, rfl⟩, -⟩ | ⟨hh, result, hrec, ⟨hch, rfl, rfl⟩ | ⟨hch, hl, -, hh', -, rfl⟩⟩
    · cases hc
    · obtain ⟨rfl, rfl⟩ := hc
      obtain ⟨_, _, -, he, -⟩ | ⟨-, ⟨e, he⟩ | ⟨lease, hl, -, he⟩⟩ :=
        LeaseTable.recoverClaim_cases (Prod.ext hrec rfl)
      · cases he
        cases hch
      · cases he
      · cases he
        exact ⟨hh, lease, LeaseTable.lookup_of_reapExpired hl, rfl⟩
    · obtain ⟨rfl, rfl⟩ := hc
      refine ⟨hh'.trans hh, ?_⟩
      obtain ⟨old, lease, -, he, ht⟩ | ⟨-, ⟨e, he⟩ | ⟨lease, hl, -, he⟩⟩ :=
        LeaseTable.recoverClaim_cases (Prod.ext hrec rfl)
      · cases he
        rw [hl.trans ht]
        exact ⟨_, AList.lookup_insert _, rfl⟩
      · cases he
      · cases he
        cases hch

/-- **A healthy relay loses nothing in a crash.** Started again at any time since, it has the same
leases: tokens, ports, sources, recovery keys and retired tokens; active ones wait for
their hosts until `graceMs` after the last successful save. Every port confirmed by an `Ok` answer
is among them until its deadline. -/
theorem crash_recovers (hJ : J.Lawful) (h : Reachable J sha256 r) :
    (r.server.persistenceHealthy = true → ∀ now, r.clock ≤ now → r.ComesBack J sha256 now) ∧
      ∀ e r' tokenId port, Step J sha256 r e r' → e.Confirms sha256 tokenId port →
        ∃ lease, r'.server.leases.leases.lookup tokenId = some lease ∧ lease.port = port ∧
          ∀ now io, r'.clock ≤ now → now < lease.savedDeadline r'.lastSave →
            ∃ s : ServerState Conn, (loadOrNew J sha256 r'.server.store now io).1 = .ok s ∧
              ∃ lease', s.leases.leases.lookup tokenId = some lease' ∧ lease'.port = port := by
  have hi := reachable_synced hJ h
  refine ⟨fun hh now hle => hi.comesBack hh hle, ?_⟩
  intro e r' tokenId port hs hc
  have hi' := hs.synced hJ hi
  obtain ⟨-, -, -, hp⟩ := hs
  obtain ⟨hh, lease, hl, hport⟩ := confirmed hp hc
  refine ⟨lease, hl, hport, fun now io hle hlt => ?_⟩
  have hback : Run.ComesBack J sha256 _ now := hi'.comesBack hh hle
  obtain ⟨s, hload, hlookup⟩ := hback io
  exact ⟨s, by rw [hload], _, (hlookup tokenId _).mpr ⟨lease, hl, hlt, rfl⟩, hport⟩

/-- A host registered at 1000; the relay crashes and comes back at 2000. -/
theorem crash_recovers_one_host :
    ∃ r : Run Unit, r.server.persistenceHealthy = true ∧ r.server.leases = sampleTable ∧
      r.ComesBack sampleJson (fun _ => sampleDigest) 2000 := by
  have h₀ : Reachable sampleJson (fun _ => sampleDigest) ⟨sampleServer, 0, 0⟩ := by
    refine .of_init ⟨⟨none, .absent⟩, ⟨.created, .saved, .saved⟩, ?_, rfl, rfl⟩
    intro bytes value h
    cases h
  obtain ⟨s, hcommit, hh, htable⟩ := sample_commit none
  have hreg : perform sampleJson (fun _ => sampleDigest) sampleServer 1000 .saved
      (.register (.replicate 32 7) (some (.replicate 32 8)) sampleIp none fun _ => .bound) =
      (.registered (.ok ⟨10000, ⟨sampleDigest⟩, ⟨1⟩⟩), s) := by
    have hloop : sampleServer.registerWithRecovery sampleJson (fun _ => sampleDigest)
        (.replicate 32 7) (some (.replicate 32 8)) sampleIp 1000 none (fun _ => .bound) .saved =
        sampleServer.commitRegistration sampleJson ⟨sampleDigest⟩ (some sampleKey) sampleIp 1000
          none 10000 .saved := rfl
    simp only [perform, hloop, hcommit]
  have hle : (0 : UInt64) ≤ 1000 := by decide
  have hstep := Step.mk (r := ⟨sampleServer, 0, 0⟩) (.refl _) rfl hle hreg
  have hle : (1000 : UInt64) ≤ 2000 := by decide
  exact ⟨_, hh, htable, (crash_recovers sampleJson_lawful (h₀.next hstep)).1 hh 2000 hle⟩

end ServerState
end GameNet
