import GameNet.Claim
import GameNet.Durability
import GameNet.LeaseOrigin

/-!
# GameNet.Custody

The claims of one machine, in the relay's memory and in its state file. The machine's claims are
those at its tokens, which are also the ones that are enrolled with its recovery key; a `Custody`
says at which tokens and on which ports they may be. Every operation that respects it keeps it,
whatever becomes of its save, and so does a restart from the file.
-/

namespace GameNet

/-- The fingerprints of a machine's tokens, its recovery key, and where its live claims may be. -/
structure Custody where
  mine : TokenId → Prop
  recoveryId : TokenId
  place : TokenId → UInt16 → Prop

namespace Custody

/-- A claim is the machine's or not, and in its place if it is. -/
structure Covers (c : Custody) (k : TokenId) (port : UInt16) (recoveryId : Option TokenId) :
    Prop where
  enrolled : c.mine k ↔ recoveryId = some c.recoveryId
  placed : c.mine k → c.place k port

/-- The live leases of the table at `clock`. -/
def Table (c : Custody) (clock : UInt64) (t : LeaseTable) : Prop :=
  ∀ k lease, t.leases.lookup k = some lease → lease.expired clock = false →
    c.Covers k lease.port lease.recoveryId

/-- The records that are not over at `clock`. -/
def Records (c : Custody) (clock : UInt64) (records : List LeaseRecord) : Prop :=
  ∀ record ∈ records, clock < record.expiresAtMs →
    c.Covers record.tokenId record.port record.recoveryId

/-- The operation names the machine's tokens and its key together, and puts its claims in their
place. -/
def Permits (c : Custody) : LeaseTable.Op → Prop
  | .activateWithRecovery tokenId recoveryId _ _ =>
    (c.mine tokenId ↔ recoveryId = some c.recoveryId) ∧
      (c.mine tokenId → ∀ port, c.place tokenId port)
  | .rotateClaim old new => (c.mine new ↔ c.mine old) ∧ (c.mine new → ∀ port, c.place new port)
  | .recoverClaim recoveryId new _ =>
    (c.mine new ↔ recoveryId = c.recoveryId) ∧ (c.mine new → ∀ port, c.place new port)
  | _ => True

variable {c c' : Custody} {t t' : LeaseTable} {records records' : List LeaseRecord}
  {clock now : UInt64} {k : TokenId} {lease : Lease} {op : LeaseTable.Op}
  {outcome : LeaseTable.Outcome}

/-! ## The table -/

theorem Table.mono (h : c.Table clock t) (hle : clock ≤ now) : c.Table now t :=
  fun k lease hl hx => h k lease hl (Lease.not_expired_mono hle hx)

theorem Table.of_subset (h : c.Table clock t)
    (hs : ∀ {k lease}, t'.leases.lookup k = some lease → t.leases.lookup k = some lease) :
    c.Table clock t' :=
  fun k lease hl hx => h k lease (hs hl) hx

theorem Table.same (h : c.Table clock t) (hs : t.Same t') : c.Table clock t' :=
  h.of_subset fun hl => by rw [hs.leases]; exact hl

theorem Table.reapExpired (h : c.Table clock t) : c.Table clock (t.reapExpired now) :=
  h.of_subset LeaseTable.lookup_of_reapExpired

theorem Table.origin (h : c.Table now t) (hp : c.Permits op) (ho : t.Origin now op k lease)
    (hx : lease.expired now = false) : c.Covers k lease.port lease.recoveryId := by
  cases ho with
  | kept hl => exact h _ _ hl hx
  | opened => exact ⟨hp.1, fun hk => hp.2 hk _⟩
  | @reopened _ lease presented _ port s hl =>
    obtain ⟨hl, hlive⟩ := LeaseTable.lookup_reapExpired.mp hl
    have hc := h _ _ hl hlive
    refine ⟨?_, fun hk => hp.2 hk _⟩
    -- the claim keeps its key, or gets the one that is presented
    show c.mine k ↔ lease.recoveryId.or presented = some c.recoveryId
    cases hr : lease.recoveryId with
    | none => exact hp.1
    | some r =>
      rw [← hr]
      simpa [hr] using hc.enrolled
  | ended hl hs =>
    have hc := h _ _ hl (Lease.expired_eq_false.mpr (by simp [hs]))
    exact ⟨hc.enrolled, hc.placed⟩
  | rotated hr =>
    obtain ⟨hl, hlive⟩ := LeaseTable.lookup_reapExpired.mp hr.held
    exact ⟨hp.1.trans (h _ _ hl hlive).enrolled, fun hk => hp.2 hk _⟩
  | recovered hr =>
    refine ⟨hp.1.trans ?_, fun hk => hp.2 hk _⟩
    simp only [LeaseTable.recoveredLease, hr.enrolled, Option.some.injEq]
  | @restored _ lease savedAt hl hlt =>
    have hlive : lease.expired now = false := by
      rw [Lease.expired_eq_false]
      intro e hs
      simpa [Lease.savedDeadline, hs] using hlt
    have hc := h _ _ hl hlive
    exact ⟨hc.enrolled, hc.placed⟩

theorem Table.perform (hw : t.WellFormed) (h : c.Table now t) (hp : c.Permits op)
    (ho : t.perform now op = (outcome, t')) : c.Table now t' :=
  fun _ _ hl hx => h.origin hp (LeaseTable.perform_origin hw ho hl) hx

/-! ## The file -/

theorem Records.mono (h : c.Records clock records) (hle : clock ≤ now) : c.Records now records :=
  fun record hr hlt => h record hr (by grind)

theorem Records.perm (h : c.Records clock records) (hp : records'.Perm records) :
    c.Records clock records' :=
  fun record hr hlt => h record (hp.mem_iff.mp hr) hlt

theorem Table.snapshot (h : c.Table now t) : c.Records now (t.snapshot now) := by
  intro record hr hlt
  obtain ⟨k, lease, hl, rfl⟩ := LeaseTable.mem_snapshot.mp hr
  refine h k lease hl ?_
  rw [Lease.expired_eq_false]
  intro e hs
  simpa [LeaseTable.recordOf, Lease.savedDeadline, hs] using hlt

theorem Records.load (h : c.Records now records) (hv : LeaseTable.Valid records) :
    c.Table now (LeaseTable.load now .new records) := by
  intro k lease hl hx
  obtain ⟨record, hr, rfl, hlt, rfl⟩ := (LeaseTable.lookup_load_new hv.tokens).mp hl
  exact h record hr hlt

end Custody

/-! ## Operations of the relay -/

namespace ServerState

variable {Conn : Type} {J : SerdeJson} {sha256 : Bytes32 → Bytes32} {s s' : ServerState Conn}
  {now : UInt64} {io : SaveOutcome} {op : Op Conn} {outcome : Outcome Conn}

/-- The operation of the table that an operation of the relay performs. A registration activates
the token on a port that it has bound. -/
def Op.Performs (sha256 : Bytes32 → Bytes32) : Op Conn → LeaseTable.Op → Prop
  | .register token recoveryId peerIp _ _, op => ∃ port, op =
    .activateWithRecovery (.fromToken sha256 token) (recoveryId.map TokenId.mk) peerIp port
  | .endSession tokenId sessionId, op => op = .endSession tokenId sessionId
  | .rotate old new, op => op = .rotateClaim (.fromToken sha256 old) (.fromToken sha256 new)
  | .recover secret new peerIp, op =>
    op = .recoverClaim (.fromToken sha256 secret) (.fromToken sha256 new) peerIp
  | .refreshAndSave, op => op = .reapExpired

/-- Memory holds the leases there were, or those that are not over, or those that the operation of
the table leaves; only the last are written to disk. -/
structure Stages (J : SerdeJson) (s : ServerState Conn) (now : UInt64) (op : LeaseTable.Op)
    (s' : ServerState Conn) : Prop where
  leases : s'.leases = s.leases ∨ s'.leases = s.leases.reapExpired now ∨
    s'.leases = (s.leases.perform now op).2
  store : s'.store = s.store ∨ ∃ io r,
    s.store.save J ((s.leases.perform now op).2.snapshot now) io = (r, s'.store)

theorem register_stages {token : TunnelToken} {recoveryId : Option Bytes32} {peerIp : IpAddr}
    {connection : Option Conn} {bind : UInt16 → BindOutcome} {r : Except ServerError Registration}
    (h : s.registerWithRecovery J sha256 token recoveryId peerIp now connection bind io = (r, s')) :
    ∃ port, Stages J s now (.activateWithRecovery (.fromToken sha256 token)
      (recoveryId.map TokenId.mk) peerIp port) s' := by
  unfold registerWithRecovery at h
  split at h
  · rename_i heq
    cases h
    rcases beginRegistration_cases heq with ⟨_, -, ⟨-, rfl⟩ | rfl⟩ | ⟨_, -, -, -, rfl⟩
    · exact ⟨0, .inl rfl, .inl rfl⟩
    · exact ⟨0, .inr (.inl rfl), .inl rfl⟩
    · exact ⟨0, .inr (.inl rfl), .inl rfl⟩
  · rename_i heq
    obtain rfl : _ = s.reaped now := by
      rcases beginRegistration_cases heq with ⟨_, he, -⟩ | ⟨_, -, -, -, hs⟩
      · cases he
      · exact hs
    rcases registerLoop_cases h with ⟨-, rfl⟩ | ⟨_, port, _, -, -, -, hc⟩
    · exact ⟨0, .inr (.inl rfl), .inl rfl⟩
    · refine ⟨port, ?_⟩
      rcases commitRegistration_cases hc with
        ⟨_, -, rfl⟩ | ⟨e, _, staged, store, ha, hs, -, rfl⟩ | ⟨sessionId, hr, -⟩
      · exact ⟨.inr (.inl rfl), .inl rfl⟩
      · simp only [reaped, LeaseTable.activateWithRecovery_reapExpired] at ha hs
        refine ⟨.inr (.inl rfl), .inr ⟨io, .error e, ?_⟩⟩
        simp only [LeaseTable.perform, ha]
        exact hs
      · have ha := hr.activated
        have hs := hr.saved
        simp only [reaped, LeaseTable.activateWithRecovery_reapExpired] at ha hs
        refine ⟨.inr (.inr ?_), .inr ⟨io, .ok (), ?_⟩⟩
        · simp only [LeaseTable.perform, ha]
        · simp only [LeaseTable.perform, ha]
          exact hs

theorem endSession_stages {tokenId : TokenId} {sessionId : SessionId} {r : Except ServerError Bool}
    (h : s.endSession J tokenId sessionId now io = (r, s')) :
    Stages J s now (.endSession tokenId sessionId) s' := by
  rcases endSession_cases h with ⟨-, -, rfl⟩ | ⟨-, hl, -, hsave⟩
  · exact ⟨.inl rfl, .inl rfl⟩
  · refine ⟨.inr (.inr hl), .inr ?_⟩
    rw [hl] at hsave
    rcases hsave with ⟨e, -, -, hsave⟩ | ⟨-, -, hsave⟩
    · exact ⟨io, _, hsave⟩
    · exact ⟨io, _, hsave⟩

theorem rotate_stages {old new : TunnelToken} {r : Except ServerError (Option UInt16)}
    (h : s.rotate J sha256 old new now io = (r, s')) :
    Stages J s now (.rotateClaim (.fromToken sha256 old) (.fromToken sha256 new)) s' := by
  unfold rotate at h
  split at h
  · cases h
    exact ⟨.inl rfl, .inl rfl⟩
  · split at h
    · cases h
      exact ⟨.inl rfl, .inl rfl⟩
    · cases h
      exact ⟨.inl rfl, .inl rfl⟩
    · rename_i heq
      split at h
      · rename_i hs
        cases h
        exact ⟨.inl rfl, .inr ⟨io, _, by simp only [LeaseTable.perform, heq]; exact hs⟩⟩
      · rename_i hs
        cases h
        refine ⟨.inr (.inr ?_), .inr ⟨io, _, by simp only [LeaseTable.perform, heq]; exact hs⟩⟩
        simp only [LeaseTable.perform, heq]

theorem recover_stages {secret new : TunnelToken} {peerIp : IpAddr}
    {r : Except ServerError (UInt16 × Option Conn)}
    (h : s.recover J sha256 secret new peerIp now io = (r, s')) :
    Stages J s now (.recoverClaim (.fromToken sha256 secret) (.fromToken sha256 new) peerIp)
      s' := by
  unfold recover at h
  split at h
  · cases h
    exact ⟨.inl rfl, .inl rfl⟩
  · split at h
    · cases h
      exact ⟨.inl rfl, .inl rfl⟩
    · rename_i heq
      split at h
      · cases h
        exact ⟨.inl rfl, .inl rfl⟩
      · split at h
        · rename_i hs
          cases h
          exact ⟨.inl rfl, .inr ⟨io, _, by simp only [LeaseTable.perform, heq]; exact hs⟩⟩
        · rename_i hs
          cases h
          refine ⟨.inr (.inr ?_), .inr ⟨io, _, by simp only [LeaseTable.perform, heq]; exact hs⟩⟩
          simp only [LeaseTable.perform, heq]

/-- An operation of the relay stages and saves an operation of the table. -/
theorem perform_stages (h : perform J sha256 s now io op = (outcome, s')) :
    ∃ tableOp, op.Performs sha256 tableOp ∧ Stages J s now tableOp s' := by
  cases op with
  | register token recoveryId peerIp connection bind =>
    obtain ⟨_, hr, -⟩ := perform_register h
    obtain ⟨port, hs⟩ := register_stages hr
    exact ⟨_, ⟨port, rfl⟩, hs⟩
  | endSession tokenId sessionId =>
    obtain ⟨_, hr, -⟩ := perform_endSession h
    exact ⟨_, rfl, endSession_stages hr⟩
  | rotate old new =>
    obtain ⟨_, hr, -⟩ := perform_rotate h
    exact ⟨_, rfl, rotate_stages hr⟩
  | recover secret new peerIp =>
    obtain ⟨_, hr, -⟩ := perform_recover h
    exact ⟨_, rfl, recover_stages hr⟩
  | refreshAndSave =>
    obtain ⟨_, hr, -⟩ := perform_refresh h
    obtain ⟨hl, -, hsave⟩ := refreshAndSave_cases hr
    refine ⟨_, rfl, .inr (.inl hl), .inr ?_⟩
    rw [hl] at hsave
    rcases hsave with ⟨e, -, -, hsave⟩ | ⟨-, -, hsave⟩
    · exact ⟨io, _, hsave⟩
    · exact ⟨io, _, hsave⟩

end ServerState

/-! ## The relay -/

namespace Custody

variable {Conn : Type} {J : SerdeJson} {sha256 : Bytes32 → Bytes32} {c c' : Custody}
  {t t' : LeaseTable} {now : UInt64} {r r' : ServerState.Run Conn}
  {e : ServerState.Event Conn} {old new : TokenId} {peerIp : IpAddr} {port : Option UInt16}

open LeaseStore (Stores Current)

/-- In memory and on disk. -/
structure Relay (J : SerdeJson) (c : Custody) (r : ServerState.Run Conn) : Prop where
  table : c.Table r.clock r.server.leases
  store : ∃ records, Stores J r.server.store records ∧ c.Records r.clock records

theorem Relay.step (hJ : J.Lawful) (hw : r.server.leases.WellFormed) (h : c.Relay J r)
    (hp : ∀ op, e.op.Performs sha256 op → c.Permits op) (hs : ServerState.Step J sha256 r e r') :
    c.Relay J r' := by
  obtain @⟨t, op, now, io, outcome, s', hsame, hn, hle, hperform⟩ := hs
  have hw := hsame.wellFormed hn hw
  have ht : c.Table now t := (h.table.mono hle).same hsame
  obtain ⟨tableOp, hop, hstages⟩ := ServerState.perform_stages hperform
  have hstaged : c.Table now (t.perform now tableOp).2 := ht.perform hw (hp tableOp hop) rfl
  constructor
  · rcases hstages.leases with hl | hl | hl
    · rw [hl]; exact ht
    · rw [hl]; exact ht.reapExpired
    · rw [hl]; exact hstaged
  · obtain ⟨records, hrecords, hc⟩ := h.store
    have hkept : ∃ records, Stores J r.server.store records ∧ c.Records now records :=
      ⟨records, hrecords, hc.mono hle⟩
    rcases hstages.store with hstore | ⟨_, _, hsave⟩
    · rw [hstore]
      exact hkept
    · rcases LeaseStore.save_cases hJ hsave with
        ⟨-, sorted, hperm, hstores⟩ | ⟨-, hstore | ⟨sorted, hperm, hstores⟩⟩
      · exact ⟨sorted, hstores, hstaged.snapshot.perm hperm⟩
      · rw [hstore]
        exact hkept
      · exact ⟨sorted, hstores, hstaged.snapshot.perm hperm⟩

theorem Relay.restart {server : ServerState Conn} {store : LeaseStore} {io : LoadIo}
    (h : c.Relay J r) (hle : r.clock ≤ now)
    (hload : ServerState.loadOrNew J sha256 r.server.store now io = (.ok server, store)) :
    c.Relay J ⟨server, now, now⟩ := by
  obtain ⟨records, hrecords, hc⟩ := h.store
  simp only [ServerState.loadOrNew, hrecords.load] at hload
  split at hload
  · cases hload
  · rename_i table _ heq
    split at heq
    · cases heq
    · rename_i restored hres
      cases heq
      cases hload
      obtain ⟨hv, rfl⟩ := LeaseTable.restore_eq_ok.mp hres
      exact ⟨(hc.mono hle).load hv, records, hrecords, hc.mono hle⟩

/-- A stored file has a version. -/
theorem current_of_stores {store : LeaseStore} {records : List LeaseRecord}
    (h : Stores J store records) : Current J store := by
  intro bytes value hf hv
  simp only [Stores, hf] at h
  obtain ⟨-, value', _, hv', hver, -⟩ := h
  rw [hv] at hv'
  cases hv'
  exact hver

/-- What holds of the memory of a healthy relay holds of its file. -/
theorem Relay.of_table (hi : ServerState.Synced J r)
    (hh : r.server.persistenceHealthy = true) (h : c.Table r.clock r.server.leases) :
    c.Relay J r := by
  obtain ⟨records, hrecords, -, hm⟩ := hi.stored hh
  refine ⟨h, records, hrecords, fun record hr hlt => ?_⟩
  obtain ⟨lease, hl, he⟩ := hm.sound record hr hlt
  have hlive : lease.expired r.clock = false := by
    rw [Lease.expired_eq_false]
    intro deadline hs
    rw [he] at hlt
    simpa [LeaseTable.recordOf, Lease.savedDeadline, hs] using hlt
  rw [he]
  exact h _ lease hl hlive

/-! ## A confirmed transfer -/

/-- The machine has at most one claim, at this token and on this port. -/
def settled (c : Custody) (k : TokenId) (port : Option UInt16) : Custody :=
  { c with place := fun k' p => k' = k ∧ port = some p }

theorem table_reapExpired (h : c.Table now (t.reapExpired now)) : c.Table now t :=
  fun k lease hl hx => h k lease (LeaseTable.lookup_reapExpired.mpr ⟨hl, hx⟩) hx

theorem Table.settle (h : c.Table now t)
    (hs : ∀ k lease, t.leases.lookup k = some lease → lease.expired now = false →
      lease.recoveryId = some c.recoveryId → k = new ∧ port = some lease.port) :
    (c.settled new port).Table now t := by
  intro k lease hl hx
  have hc := h k lease hl hx
  exact ⟨hc.enrolled, fun hk => hs k lease hl hx (hc.enrolled.mp hk)⟩

/-- The one claim with the key is the one at the new token. -/
theorem Table.settle_of_lookup {lease : Lease} {p : UInt16} (hw : t.WellFormed)
    (h : c.Table now t) (hl : t.leases.lookup new = some lease)
    (hr : lease.recoveryId = some c.recoveryId) (hport : lease.port = p) :
    (c.settled new (some p)).Table now t := by
  refine h.settle ?_
  intro k lease' hl' _ hr'
  obtain rfl := hw.recoveryUnique hl' hl hr' hr
  rw [hl] at hl'
  cases hl'
  exact ⟨rfl, congrArg some hport.symm⟩

theorem Table.rotated {result : RotationResult} (hw : t.WellFormed) (h : c.Table now t)
    (hp : c.Permits (.rotateClaim old new)) (hnew : c.mine new)
    (hplace : ∀ {k p}, c.place k p → k = old ∨ k = new)
    (ho : t.rotateClaim old new now = (.ok result, t')) :
    (c.settled new result.port).Table now t' := by
  have hw' := hw.rotateClaim ho
  have hperform : t.perform now (.rotateClaim old new) = (.rotated (.ok result), t') := by
    simp only [LeaseTable.perform, ho]
  have h' : c.Table now t' := h.perform hw hp hperform
  obtain ⟨lease, hr, he, rfl⟩ | ⟨rfl, ⟨_, he⟩ | ⟨lease, hl, -, he⟩ | ⟨hnone, hnone', he⟩⟩ :=
    LeaseTable.rotateClaim_cases ho
  · cases he
    have hlive := (LeaseTable.lookup_reapExpired.mp hr.held).2
    exact h'.settle_of_lookup hw' LeaseTable.lookup_moveClaim
      ((h' _ _ LeaseTable.lookup_moveClaim hlive).enrolled.mp hnew) rfl
  · cases he
  · cases he
    have hlive := (LeaseTable.lookup_reapExpired.mp hl).2
    exact h'.settle_of_lookup hw' hl ((h' _ _ hl hlive).enrolled.mp hnew) rfl
  · -- no claim of the machine is left
    cases he
    refine h'.settle ?_
    intro k lease hl hx hr
    have hc := h' k lease hl hx
    rcases hplace (hc.placed (hc.enrolled.mpr hr)) with rfl | rfl
    · rw [hnone'] at hl
      cases hl
    · rw [hnone] at hl
      cases hl

theorem Table.recovered {result : RecoveryResult} (hw : t.WellFormed) (h : c.Table now t)
    (hp : c.Permits (.recoverClaim c.recoveryId new peerIp))
    (ho : t.recoverClaim c.recoveryId new peerIp now = (.ok result, t')) :
    (c.settled new (some result.port)).Table now t' := by
  have hw' := hw.recoverClaim ho
  have hperform : t.perform now (.recoverClaim c.recoveryId new peerIp) =
      (.recovered (.ok result), t') := by
    simp only [LeaseTable.perform, ho]
  have h' : c.Table now t' := h.perform hw hp hperform
  obtain ⟨old, lease, hr, he, rfl⟩ | ⟨rfl, ⟨_, he⟩ | ⟨lease, hl, hkey, he⟩⟩ :=
    LeaseTable.recoverClaim_cases ho
  · cases he
    exact h'.settle_of_lookup hw' LeaseTable.lookup_moveClaim hr.enrolled rfl
  · cases he
  · cases he
    exact h'.settle_of_lookup hw' hl hkey rfl

/-- The relay confirms a rotation when no claim of the machine is anywhere but at its two tokens. -/
theorem Relay.rotated {old new : TunnelToken} {io : SaveOutcome} (hJ : J.Lawful)
    (hi : ServerState.Synced J r) (h : c.Relay J r)
    (hp : c.Permits (.rotateClaim (.fromToken sha256 old) (.fromToken sha256 new)))
    (hnew : c.mine (.fromToken sha256 new))
    (hplace : ∀ {k p}, c.place k p → k = .fromToken sha256 old ∨ k = .fromToken sha256 new)
    (hs : ServerState.Step J sha256 r ⟨.rotate old new, now, io, .rotated (.ok port)⟩ r') :
    (c.settled (.fromToken sha256 new) port).Relay J r' := by
  have hi' := hs.synced hJ hi
  obtain @⟨t, _, _, _, _, s', hsame, hn, hle, hperform⟩ := hs
  have hw := hsame.wellFormed hn hi.wellFormed
  have ht := (h.table.mono hle).same hsame
  obtain ⟨_, hr, he⟩ := ServerState.perform_rotate hperform
  cases he
  rcases ServerState.rotate_cases hr with
    ⟨⟨_, he⟩, -⟩ | ⟨hh, ⟨_, rfl, he, hrot⟩ | ⟨_, he, hrot, -, hh', -⟩⟩
  · cases he
  · cases he
    have hq : t.rotateClaim (.fromToken sha256 old) (.fromToken sha256 new) now =
      (.ok (.unchanged port), _) := Prod.ext hrot rfl
    obtain ⟨_, -, he, -⟩ | ⟨hreap, -⟩ := LeaseTable.rotateClaim_cases hq
    · cases he
    · have hsettled := ht.rotated hw hp hnew hplace hq
      rw [hreap] at hsettled
      exact .of_table hi' hh (table_reapExpired hsettled)
  · cases he
    exact .of_table hi' (hh'.trans hh) (ht.rotated hw hp hnew hplace hrot)

theorem Relay.recovered {secret new : TunnelToken} {io : SaveOutcome} {p : UInt16}
    {displaced : Option Conn} (hJ : J.Lawful) (hi : ServerState.Synced J r) (h : c.Relay J r)
    (hsecret : c.recoveryId = .fromToken sha256 secret)
    (hp : c.Permits (.recoverClaim c.recoveryId (.fromToken sha256 new) peerIp))
    (hs : ServerState.Step J sha256 r
      ⟨.recover secret new peerIp, now, io, .recovered (.ok (p, displaced))⟩ r') :
    (c.settled (.fromToken sha256 new) (some p)).Relay J r' := by
  have hi' := hs.synced hJ hi
  obtain @⟨t, _, _, _, _, s', hsame, hn, hle, hperform⟩ := hs
  have hw := hsame.wellFormed hn hi.wellFormed
  have ht := (h.table.mono hle).same hsame
  obtain ⟨_, hr, he⟩ := ServerState.perform_recover hperform
  cases he
  rcases ServerState.recover_cases hr with
    ⟨⟨_, he⟩, -⟩ | ⟨hh, result, hrec, ⟨hc, rfl, he⟩ | ⟨hc, hl, -, hh', -, he⟩⟩
  · cases he
  · cases he
    have hq : t.recoverClaim (.fromToken sha256 secret) (.fromToken sha256 new) peerIp now =
      (.ok result, _) := Prod.ext hrec rfl
    obtain ⟨_, _, -, he, -⟩ | ⟨hreap, -⟩ := LeaseTable.recoverClaim_cases hq
    · cases he
      cases hc
    · rw [← hsecret] at hq hreap
      have hsettled := ht.recovered hw hp hq
      rw [hreap] at hsettled
      exact .of_table hi' hh (table_reapExpired hsettled)
  · cases he
    have hq : t.recoverClaim (.fromToken sha256 secret) (.fromToken sha256 new) peerIp now =
      (.ok result, s'.leases) := Prod.ext hrec hl.symm
    rw [← hsecret] at hq
    exact .of_table hi' (hh'.trans hh) (ht.recovered hw hp hq)

/-! ## What the relay does not know -/

/-- Neither memory nor the file names the token. -/
structure Unknown (J : SerdeJson) (r : ServerState.Run Conn) (k : TokenId) : Prop where
  table : r.server.leases.leases.lookup k = none
  store : ∀ {records}, Stores J r.server.store records → ∀ record ∈ records, record.tokenId ≠ k

theorem Covers.mono {k : TokenId} {p : UInt16} {key : Option TokenId} (h : c.Covers k p key)
    (hkey : c'.recoveryId = c.recoveryId) (hmine : c'.mine k ↔ c.mine k)
    (hplace : c.place k p → c'.place k p) : c'.Covers k p key := by
  constructor
  · rw [hmine, hkey]
    exact h.enrolled
  · intro hk
    exact hplace (h.placed (hmine.mp hk))

/-- The machine may have more tokens that the relay does not know, and more places. -/
theorem Relay.mono (h : c.Relay J r) (hkey : c'.recoveryId = c.recoveryId)
    (hmine : ∀ k, (c'.mine k ↔ c.mine k) ∨ Unknown J r k)
    (hplace : ∀ {k p}, c.place k p → c'.place k p) : c'.Relay J r := by
  constructor
  · intro k lease hl hx
    rcases hmine k with hm | hu
    · exact (h.table k lease hl hx).mono hkey hm hplace
    · rw [hu.table] at hl
      cases hl
  · obtain ⟨records, hrecords, hc⟩ := h.store
    refine ⟨records, hrecords, fun record hr hlt => ?_⟩
    rcases hmine record.tokenId with hm | hu
    · exact (hc record hr hlt).mono hkey hm hplace
    · exact absurd rfl (hu.store hrecords record hr)

end Custody
end GameNet
