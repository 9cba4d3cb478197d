import GameNet.Serving

/-!
# GameNet.Atomicity

The transactions of the shared state fail atomically. A registration, rotation or recovery works on
a staged table, saves it and only then installs it, so one that fails leaves memory as it was. Its
save may still have replaced the file. Then the relay is unhealthy: it admits nothing until
`refresh_and_save` has written memory to the file again.

What an operation does to memory, and what it returns, does not depend on the content of the file
(`perform_withStore`). So a relay that failed goes on, in memory, like one that never tried.
-/

namespace GameNet

theorem LeaseStore.save_result (J : SerdeJson) (store store' : LeaseStore)
    (records : List LeaseRecord) (io : SaveOutcome) :
    (store.save J records io).1 = (store'.save J records io).1 := by
  simp only [save]
  split
  · rfl
  · split
    · rfl
    · cases io <;> rfl

namespace ServerState

variable {Conn : Type} {J : SerdeJson} {sha256 : Bytes32 → Bytes32} {S S' T : ServerState Conn}
  {e : Event Conn} {es : List (Event Conn)} {op : Op Conn} {now : UInt64} {io : SaveOutcome}
  {outcome : Outcome Conn}

/-- The operation admits a host to a port. -/
def Op.admits : Op Conn → Bool
  | .register _ _ _ _ _ | .rotate _ _ | .recover _ _ _ => true
  | .endSession _ _ | .refreshAndSave => false

def Op.registers : Op Conn → Bool
  | .register _ _ _ _ _ => true
  | _ => false

/-- The error an operation returned. -/
def Outcome.error? : Outcome Conn → Option ServerError
  | .registered (.error e) | .ended (.error e) | .rotated (.error e) | .recovered (.error e)
  | .refreshed (.error e) => some e
  | _ => none

/-- The event is a `refresh_and_save` that returned `Ok`. -/
def Event.refreshed (e : Event Conn) : Bool :=
  match e.outcome with
  | .refreshed (.ok ()) => true
  | _ => false

/-- The two relays have the same memory. -/
structure Alike (S T : ServerState Conn) : Prop where
  leases : S.leases = T.leases
  activeConnections : S.activeConnections = T.activeConnections
  persistenceHealthy : S.persistenceHealthy = T.persistenceHealthy

/-! ## A failed operation -/

/-- A registration, rotation or recovery that fails changes no connection and opens no session; and
a lease only goes if it had expired when a registration was tried. -/
theorem failed_unchanged {error : ServerError} (h : perform J sha256 S now io op = (outcome, S'))
    (hop : op.admits = true) (he : outcome.error? = some error) :
    S'.activeConnections = S.activeConnections ∧
      (S'.leases = S.leases ∨ (op.registers = true ∧ S'.leases = S.leases.reapExpired now)) := by
  cases op with
  | register token recoveryId peerIp connection bind =>
    obtain ⟨answer, hr, rfl⟩ := perform_register h
    rcases registerWithRecovery_cases hr with
      ⟨-, ⟨-, rfl⟩ | rfl | ⟨store, rfl⟩⟩ | ⟨_, _, _, _, -, -, -, -, -, rfl⟩
    · exact ⟨rfl, .inl rfl⟩
    · exact ⟨rfl, .inr ⟨rfl, rfl⟩⟩
    · exact ⟨rfl, .inr ⟨rfl, rfl⟩⟩
    · cases he
  | rotate old new =>
    obtain ⟨answer, hr, rfl⟩ := perform_rotate h
    rcases rotate_cases hr with
      ⟨-, rfl | ⟨store, rfl⟩⟩ | ⟨-, ⟨_, -, rfl, -⟩ | ⟨_, rfl, -⟩⟩
    · exact ⟨rfl, .inl rfl⟩
    · exact ⟨rfl, .inl rfl⟩
    · cases he
    · cases he
  | recover secret new peerIp =>
    obtain ⟨answer, hr, rfl⟩ := perform_recover h
    rcases recover_cases hr with
      ⟨-, rfl | ⟨store, rfl⟩⟩ | ⟨-, _, -, ⟨-, -, rfl⟩ | ⟨-, -, -, -, -, rfl⟩⟩
    · exact ⟨rfl, .inl rfl⟩
    · exact ⟨rfl, .inl rfl⟩
    · cases he
    · cases he
  | endSession | refreshAndSave => cases hop

/-! ## A failed save -/

theorem commitRegistration_unsaved {tokenId : TokenId} {recoveryId : Option TokenId}
    {peerIp : IpAddr} {connection : Option Conn} {port : UInt16} {error : StoreError}
    (h : S.commitRegistration J tokenId recoveryId peerIp now connection port io =
      (.error (.store error), S')) : S'.persistenceHealthy = false := by
  rcases commitRegistration_cases h with ⟨_, he, -⟩ | ⟨_, _, _, store, -, -, -, rfl⟩ | ⟨_, -, he⟩
  · cases he
  · rfl
  · cases he

theorem registerWithRecovery_unsaved {token : TunnelToken} {key : Option Bytes32}
    {peerIp : IpAddr} {connection : Option Conn} {bind : UInt16 → BindOutcome}
    {error : StoreError}
    (h : S.registerWithRecovery J sha256 token key peerIp now connection bind io =
      (.error (.store error), S')) : S'.persistenceHealthy = false := by
  unfold registerWithRecovery at h
  split at h
  · rename_i e S₁ hb
    cases h
    unfold beginRegistration at hb
    split at hb
    · cases hb
    · split at hb <;> cases hb
  · rename_i candidates S₁ hb
    clear hb
    -- the loop returns what the first port that can be bound returns
    induction candidates with
    | nil => cases h
    | cons port rest ih =>
      unfold registerLoop at h
      split at h
      · exact ih h
      · cases h
      · exact commitRegistration_unsaved h

theorem rotate_unsaved {old new : TunnelToken} {error : StoreError}
    (h : S.rotate J sha256 old new now io = (.error (.store error), S')) :
    S'.persistenceHealthy = false := by
  unfold rotate at h
  split at h
  · cases h
  · split at h
    · cases h
    · cases h
    · split at h <;> cases h
      rfl

theorem recover_unsaved {secret new : TunnelToken} {peerIp : IpAddr} {error : StoreError}
    (h : S.recover J sha256 secret new peerIp now io = (.error (.store error), S')) :
    S'.persistenceHealthy = false := by
  unfold recover at h
  split at h
  · cases h
  · split at h
    · cases h
    · split at h
      · cases h
      · split at h <;> cases h
        rfl

/-- A save that failed makes the relay unhealthy. -/
theorem unsaved_unhealthy {error : StoreError} (h : perform J sha256 S now io op = (outcome, S'))
    (he : outcome.error? = some (.store error)) : S'.persistenceHealthy = false := by
  cases op with
  | register token recoveryId peerIp connection bind =>
    obtain ⟨answer, hr, rfl⟩ := perform_register h
    cases answer <;> cases he
    exact registerWithRecovery_unsaved hr
  | rotate old new =>
    obtain ⟨answer, hr, rfl⟩ := perform_rotate h
    cases answer <;> cases he
    exact rotate_unsaved hr
  | recover secret new peerIp =>
    obtain ⟨answer, hr, rfl⟩ := perform_recover h
    cases answer <;> cases he
    exact recover_unsaved hr
  | endSession tokenId sessionId =>
    obtain ⟨answer, hr, rfl⟩ := perform_endSession h
    rcases endSession_cases hr with ⟨rfl, -⟩ | ⟨-, -, -, ⟨_, rfl, hh, -⟩ | ⟨rfl, -⟩⟩
    · cases he
    · exact hh
    · cases he
  | refreshAndSave =>
    obtain ⟨answer, hr, rfl⟩ := perform_refresh h
    rcases refreshAndSave_cases hr with ⟨-, -, ⟨_, rfl, hh, -⟩ | ⟨rfl, -⟩⟩
    · exact hh
    · cases he

theorem perform_unhealthy (hh : S.persistenceHealthy = false) (hop : op.admits = true) :
    (perform J sha256 S now io op).1.error? = some .storageUnavailable ∧
      (perform J sha256 S now io op).2 = S := by
  cases op with
  | register | rotate | recover =>
    simp [perform, Outcome.error?, registerWithRecovery, beginRegistration, rotate, recover, hh]
  | endSession | refreshAndSave => cases hop

/-- Only a refresh that succeeds makes the relay healthy again. -/
theorem Serves.unhealthy (h : Serves J sha256 S e S') (hh : S.persistenceHealthy = false)
    (he : e.refreshed = false) : S'.persistenceHealthy = false := by
  obtain @⟨_, t, op, now, io, outcome, -, -, hp⟩ := h
  cases op with
  | register | rotate | recover =>
    obtain rfl : _ = S' := congrArg Prod.snd hp
    rw [(perform_unhealthy _ rfl).2]
    · exact hh
    · exact hh
  | endSession tokenId sessionId =>
    obtain ⟨answer, hr, rfl⟩ := perform_endSession hp
    rcases endSession_cases hr with ⟨-, -, rfl⟩ | ⟨-, -, -, ⟨_, -, hh', -⟩ | ⟨-, hh', -⟩⟩
    · exact hh
    · exact hh'
    · rw [hh']
      exact hh
  | refreshAndSave =>
    obtain ⟨answer, hr, rfl⟩ := perform_refresh hp
    rcases refreshAndSave_cases hr with ⟨-, -, ⟨_, -, hh', -⟩ | ⟨rfl, -⟩⟩
    · exact hh'
    · cases he

/-- A refresh that succeeds writes the table it leaves in memory. -/
theorem refreshAndSave_stores (hJ : J.Lawful) (h : S.refreshAndSave J now io = (.ok (), S')) :
    S'.persistenceHealthy = true ∧ S'.leases = S.leases.reapExpired now ∧
      S'.activeConnections = S.activeConnections ∧
      ∃ records, records.Perm (S'.leases.snapshot now) ∧ LeaseStore.Stores J S'.store records := by
  obtain ⟨hl, hc, ⟨_, he, -⟩ | ⟨-, hh, hsave⟩⟩ := refreshAndSave_cases h
  · cases he
  · rcases LeaseStore.save_cases hJ hsave with ⟨-, records, hp, hs⟩ | ⟨⟨_, he⟩, -⟩
    · exact ⟨hh, hl, hc, records, hp, hs⟩
    · cases he

/-! ## The content of the file -/

/-- A save fails or succeeds whatever the files are that were there. -/
theorem save_alike (J : SerdeJson) (store store' : LeaseStore) (records : List LeaseRecord)
    (io : SaveOutcome) :
    (∃ e after after', store.save J records io = (.error e, after) ∧
        store'.save J records io = (.error e, after')) ∨
      ∃ after after', store.save J records io = (.ok (), after) ∧
        store'.save J records io = (.ok (), after') := by
  have hr := LeaseStore.save_result J store store' records io
  cases hs : store.save J records io with
  | mk r after =>
    cases hs' : store'.save J records io with
    | mk r' after' =>
      rw [hs, hs'] at hr
      obtain rfl : r = r' := hr
      cases r with
      | error e => exact .inl ⟨e, after, after', rfl, rfl⟩
      | ok u => exact .inr ⟨after, after', rfl, rfl⟩

/-- Equal answers, and the same memory left. -/
structure Equally {α : Type} (x y : α × ServerState Conn) : Prop where
  answer : x.1 = y.1
  alike : Alike x.2 y.2

theorem commitRegistration_alike {tokenId : TokenId} {recoveryId : Option TokenId}
    {peerIp : IpAddr} {connection : Option Conn} {port : UInt16} (store : LeaseStore) :
    Equally (S.commitRegistration J tokenId recoveryId peerIp now connection port io)
      (commitRegistration J { S with store := store } tokenId recoveryId peerIp now connection port
        io) := by
  unfold commitRegistration
  cases S.leases.activateWithRecovery tokenId recoveryId peerIp port now with
  | mk r staged =>
    cases r with
    | error e => exact ⟨rfl, rfl, rfl, rfl⟩
    | ok sessionId =>
      rcases save_alike J S.store store (staged.snapshot now) io with
        ⟨e, _, _, h, h'⟩ | ⟨_, _, h, h'⟩
      · simp only [h, h']
        exact ⟨rfl, rfl, rfl, rfl⟩
      · simp only [h, h']
        exact ⟨rfl, rfl, rfl, rfl⟩

theorem registerLoop_alike {tokenId : TokenId} {recoveryId : Option TokenId} {peerIp : IpAddr}
    {connection : Option Conn} {bind : UInt16 → BindOutcome} (store : LeaseStore)
    (ports : List UInt16) :
    Equally (S.registerLoop J tokenId recoveryId peerIp now connection bind io ports)
      (registerLoop J { S with store := store } tokenId recoveryId peerIp now connection bind io
        ports) := by
  induction ports with
  | nil => exact ⟨rfl, rfl, rfl, rfl⟩
  | cons port rest ih =>
    simp only [registerLoop]
    cases bind port with
    | addrInUse => exact ih
    | failed => exact ⟨rfl, rfl, rfl, rfl⟩
    | bound => exact commitRegistration_alike store

theorem registerWithRecovery_alike {token : TunnelToken} {key : Option Bytes32} {peerIp : IpAddr}
    {connection : Option Conn} {bind : UInt16 → BindOutcome} (store : LeaseStore) :
    Equally (S.registerWithRecovery J sha256 token key peerIp now connection bind io)
      (registerWithRecovery J sha256 { S with store := store } token key peerIp now connection bind
        io) := by
  have hbegin : beginRegistration sha256 { S with store := store } token peerIp now =
      ((S.beginRegistration sha256 token peerIp now).1,
        { (S.beginRegistration sha256 token peerIp now).2 with store := store }) := by
    simp only [beginRegistration]
    split
    · rfl
    · split <;> rfl
  unfold registerWithRecovery
  rw [hbegin]
  cases S.beginRegistration sha256 token peerIp now with
  | mk r S₁ =>
    cases r with
    | error e => exact ⟨rfl, rfl, rfl, rfl⟩
    | ok ports => exact registerLoop_alike store ports

theorem endSession_alike {tokenId : TokenId} {sessionId : SessionId} (store : LeaseStore) :
    Equally (S.endSession J tokenId sessionId now io)
      (endSession J { S with store := store } tokenId sessionId now io) := by
  simp only [endSession]
  cases S.leases.endSession tokenId sessionId now with
  | mk b leases =>
    cases b with
    | false => exact ⟨rfl, rfl, rfl, rfl⟩
    | true =>
      rcases save_alike J S.store store (leases.snapshot now) io with
        ⟨e, _, _, h, h'⟩ | ⟨_, _, h, h'⟩
      · simp only [h, h']
        exact ⟨rfl, rfl, rfl, rfl⟩
      · simp only [h, h']
        exact ⟨rfl, rfl, rfl, rfl⟩

theorem rotate_alike {old new : TunnelToken} (store : LeaseStore) :
    Equally (S.rotate J sha256 old new now io)
      (rotate J sha256 { S with store := store } old new now io) := by
  unfold rotate
  cases hh : S.persistenceHealthy with
  | false => exact ⟨rfl, rfl, rfl, hh⟩
  | true =>
    simp only [Bool.not_true, Bool.false_eq_true, if_false]
    cases S.leases.rotateClaim (.fromToken sha256 old) (.fromToken sha256 new) now with
    | mk r staged =>
      cases r with
      | error e => exact ⟨rfl, rfl, rfl, hh⟩
      | ok result =>
        cases result with
        | unchanged port => exact ⟨rfl, rfl, rfl, hh⟩
        | transferred port =>
          rcases save_alike J S.store store (staged.snapshot now) io with
            ⟨e, _, _, h, h'⟩ | ⟨_, _, h, h'⟩
          · simp only [h, h']
            exact ⟨rfl, rfl, rfl, rfl⟩
          · simp only [h, h']
            exact ⟨rfl, rfl, rfl, rfl⟩

theorem recover_alike {secret new : TunnelToken} {peerIp : IpAddr} (store : LeaseStore) :
    Equally (S.recover J sha256 secret new peerIp now io)
      (recover J sha256 { S with store := store } secret new peerIp now io) := by
  unfold recover
  cases hh : S.persistenceHealthy with
  | false => exact ⟨rfl, rfl, rfl, hh⟩
  | true =>
    simp only [Bool.not_true, Bool.false_eq_true, if_false]
    cases S.leases.recoverClaim (.fromToken sha256 secret) (.fromToken sha256 new) peerIp now with
    | mk r staged =>
      cases r with
      | error e => exact ⟨rfl, rfl, rfl, hh⟩
      | ok result =>
        cases hc : result.changed with
        | false =>
          simp only [hc, Bool.not_false, if_true]
          exact ⟨rfl, rfl, rfl, hh⟩
        | true =>
          simp only [hc, Bool.not_true, Bool.false_eq_true, if_false]
          rcases save_alike J S.store store (staged.snapshot now) io with
            ⟨e, _, _, h, h'⟩ | ⟨_, _, h, h'⟩
          · simp only [h, h']
            exact ⟨rfl, rfl, rfl, rfl⟩
          · simp only [h, h']
            exact ⟨rfl, rfl, rfl, rfl⟩

theorem refreshAndSave_alike (store : LeaseStore) :
    Equally (S.refreshAndSave J now io) (refreshAndSave J { S with store := store } now io) := by
  simp only [refreshAndSave]
  rcases save_alike J S.store store ((S.leases.reapExpired now).snapshot now) io with
    ⟨e, _, _, h, h'⟩ | ⟨_, _, h, h'⟩
  · simp only [h, h']
    exact ⟨rfl, rfl, rfl, rfl⟩
  · simp only [h, h']
    exact ⟨rfl, rfl, rfl, rfl⟩

theorem perform_alike (store : LeaseStore) (op : Op Conn) :
    Equally (perform J sha256 S now io op)
      (perform J sha256 { S with store := store } now io op) := by
  cases op with
  | register token recoveryId peerIp connection bind =>
    have h : Equally (S.registerWithRecovery J sha256 token recoveryId peerIp now connection bind
      io) _ := registerWithRecovery_alike store
    exact ⟨congrArg Outcome.registered h.answer, h.alike⟩
  | endSession tokenId sessionId =>
    have h : Equally (S.endSession J tokenId sessionId now io) _ := endSession_alike store
    exact ⟨congrArg Outcome.ended h.answer, h.alike⟩
  | rotate old new =>
    have h : Equally (S.rotate J sha256 old new now io) _ := rotate_alike store
    exact ⟨congrArg Outcome.rotated h.answer, h.alike⟩
  | recover secret new peerIp =>
    have h : Equally (S.recover J sha256 secret new peerIp now io) _ := recover_alike store
    exact ⟨congrArg Outcome.recovered h.answer, h.alike⟩
  | refreshAndSave =>
    have h : Equally (S.refreshAndSave J now io) _ := refreshAndSave_alike store
    exact ⟨congrArg Outcome.refreshed h.answer, h.alike⟩

theorem Serves.alike (ha : Alike S T) (h : Serves J sha256 S e S') :
    ∃ T', Serves J sha256 T e T' ∧ Alike S' T' := by
  obtain @⟨_, t, op, now, io, outcome, hsame, hn, hp⟩ := h
  have hp' : Equally (perform J sha256 { S with leases := t } now io op)
      (perform J sha256 { S with leases := t, store := T.store } now io op) :=
    perform_alike T.store op
  obtain ⟨outcome', T', hT⟩ : ∃ outcome' T', perform J sha256 { T with leases := t } now io op =
    (outcome', T') := ⟨_, _, rfl⟩
  rw [hp, ha.activeConnections, ha.persistenceHealthy, hT] at hp'
  rw [ha.leases] at hsame hn
  obtain ⟨rfl, halike⟩ := hp'
  exact ⟨T', .mk hsame hn hT, halike⟩

/-- A relay that shares the memory of another can follow it through any run. -/
theorem alike_run (ha : Alike S T) (h : Trace (Serves J sha256) S es S') :
    ∃ T', Trace (Serves J sha256) T es T' ∧ Alike S' T' :=
  h.refines (fun _ _ _ _ ha hs => hs.alike ha) ha

/-- **The transactions of the relay fail atomically.** A registration, rotation or recovery that
fails changes no connection, issues no session and changes no lease, but that a registration may
have dropped expired ones; and from then on the relay does in memory what one whose file was not
touched does. After a save that failed, of whatever operation, nobody is admitted until a refresh
succeeds, and that refresh writes the table in memory to the file. -/
theorem failure_atomic (hJ : J.Lawful) (S S' : ServerState Conn) (op : Op Conn) (now : UInt64)
    (io : SaveOutcome) (outcome : Outcome Conn) (error : ServerError)
    (h : perform J sha256 S now io op = (outcome, S')) (he : outcome.error? = some error) :
    (op.admits = true →
      S'.activeConnections = S.activeConnections ∧
        S'.leases.nextSessionId = S.leases.nextSessionId ∧
        (S'.leases = S.leases ∨
          (op.registers = true ∧ S'.leases = S.leases.reapExpired now)) ∧
        ∀ es S₂, Trace (Serves J sha256) S' es S₂ →
          ∃ T, Trace (Serves J sha256) { S' with store := S.store } es T ∧ Alike S₂ T) ∧
    ∀ cause, error = .store cause →
      ∀ es S₂, Trace (Serves J sha256) S' es S₂ → (∀ e ∈ es, e.refreshed = false) →
        (∀ op now io, op.admits = true →
          (perform J sha256 S₂ now io op).1.error? = some .storageUnavailable ∧
            (perform J sha256 S₂ now io op).2 = S₂) ∧
        ∀ now io S₃, S₂.refreshAndSave J now io = (.ok (), S₃) →
          S₃.persistenceHealthy = true ∧ S₃.leases = S₂.leases.reapExpired now ∧
            S₃.activeConnections = S₂.activeConnections ∧
            ∃ records, records.Perm (S₃.leases.snapshot now) ∧
              LeaseStore.Stores J S₃.store records := by
  refine ⟨fun hop => ?_, ?_⟩
  · obtain ⟨hc, hl⟩ := failed_unchanged h hop he
    have ha : Alike S' { S' with store := S.store } := ⟨rfl, rfl, rfl⟩
    refine ⟨hc, ?_, hl, fun es S₂ ht => alike_run ha ht⟩
    rcases hl with hl | ⟨-, hl⟩ <;> rw [hl]
    exact LeaseTable.reapExpired_nextSessionId
  · rintro cause rfl es S₂ ht hes
    have hh : S₂.persistenceHealthy = false := by
      have hh := unsaved_unhealthy h he
      clear h he
      induction ht with
      | refl => exact hh
      | cons hs _ ih =>
        exact ih (List.forall_mem_cons.mp hes).2 (hs.unhealthy hh (List.forall_mem_cons.mp hes).1)
    exact ⟨fun op now io hop => perform_unhealthy hh hop,
      fun now io S₃ hr => refreshAndSave_stores hJ hr⟩

/-- The save of a registration replaces the file and then fails. -/
theorem failure_atomic_unsynced :
    ∃ S : ServerState Unit, S.leases = .new ∧ S.store.file = some sampleBytes ∧
      ∀ op now io, op.admits = true →
        (perform sampleJson (fun _ => sampleDigest) S now io op).1.error? =
          some .storageUnavailable := by
  obtain ⟨rest, hb⟩ : ∃ rest, sampleServer.beginRegistration (fun _ => sampleDigest)
      (.replicate 32 7) sampleIp 1000 = (.ok (10000 :: rest), sampleServer) := ⟨_, rfl⟩
  have hact : sampleServer.leases.activateWithRecovery ⟨sampleDigest⟩ (some sampleKey) sampleIp
      10000 1000 = (.ok ⟨1⟩, sampleTable) := rfl
  have hsnap : sampleTable.snapshot 1000 = [sampleRecord] := rfl
  have hstore : sampleServer.store = ⟨none, .absent⟩ := rfl
  let S := unhealthy sampleServer ⟨some sampleBytes, .absent⟩
  have hr : sampleServer.registerWithRecovery sampleJson (fun _ => sampleDigest)
      (.replicate 32 7) (some sampleKey.bytes) sampleIp 1000 (some ()) (fun _ => .bound)
        .replacedUnsynced = (.error (.store .io), S) := by
    have hcommit : sampleServer.commitRegistration sampleJson ⟨sampleDigest⟩ (some sampleKey)
        sampleIp 1000 (some ()) 10000 .replacedUnsynced = (.error (.store .io), S) := by
      simp only [commitRegistration, hact, hsnap, hstore, sample_save]
      rfl
    simp only [registerWithRecovery, hb, registerLoop]
    exact hcommit
  have hp : perform sampleJson (fun _ => sampleDigest) sampleServer 1000 .replacedUnsynced
      (.register (.replicate 32 7) (some sampleKey.bytes) sampleIp (some ()) (fun _ => .bound)) =
        (.registered (.error (.store .io)), S) := by
    simp only [perform]
    rw [hr]
  have hfail := failure_atomic sampleJson_lawful sampleServer S _ 1000 .replacedUnsynced _ _ hp rfl
  refine ⟨S, ?_, rfl, fun op now io hop => ?_⟩
  · exact rfl
  · exact ((hfail.2 _ rfl [] S .refl (by simp)).1 op now io hop).1

end ServerState
end GameNet
