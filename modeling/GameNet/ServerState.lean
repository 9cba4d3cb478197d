import GameNet.LeaseStore

/-!
# GameNet.ServerState

The relay's shared state (`crates/server/src/state.rs`): the lease table, the store it is saved
to, the flag that stops admissions while memory and disk may differ, and the QUIC connection of
each active host.

Binding a TCP port and writing the file depend on the operating system; what they do is an
argument (`bind`, `io`). The listener of a registration is the port it is bound to. Every
operation has one lemma here that lists what it can do, and later modules use nothing else.
-/

namespace GameNet

inductive BindOutcome where
  | bound
  | addrInUse
  | failed
deriving DecidableEq

structure Registration where
  publicPort : UInt16
  tokenId : TokenId
  sessionId : SessionId

inductive ServerError where
  | storageUnavailable
  | noBindablePort
  /-- `TcpListener::bind` failed, and not because the address is in use. -/
  | bind
  | lease (e : LeaseError)
  | store (e : StoreError)

def ServerError.message : ServerError → Option String
  | .storageUnavailable => some "Lease storage is unavailable"
  | .noBindablePort => some "No free TCP port can be bound in the relay's port range"
  | .bind => none
  | .lease e => some e.message
  | .store e => e.message

structure ServerState (Conn : Type) where
  leases : LeaseTable
  store : LeaseStore
  persistenceHealthy : Bool
  activeConnections : KeyedMap TokenId (SessionId × Conn)

namespace ServerState

variable {Conn : Type}

def loadOrNew (J : SerdeJson) (sha256 : Bytes32 → Bytes32) (store : LeaseStore) (now : UInt64)
    (io : LoadIo) : Except StoreError (ServerState Conn) × LeaseStore :=
  match store.loadOrCreate J sha256 now io with
  | (.error e, store) => (.error e, store)
  | (.ok leases, store) =>
    (.ok
      { leases := leases
        store := store
        persistenceHealthy := true
        activeConnections := ∅ }, store)

/-- The body of the loop of `register_with_recovery` once `port` is bound. -/
def commitRegistration (J : SerdeJson) (s : ServerState Conn) (tokenId : TokenId)
    (recoveryId : Option TokenId) (peerIp : IpAddr) (now : UInt64) (connection : Option Conn)
    (port : UInt16) (io : SaveOutcome) : Except ServerError Registration × ServerState Conn :=
  match s.leases.activateWithRecovery tokenId recoveryId peerIp port now with
  | (.error e, _) => (.error (.lease e), s)
  | (.ok sessionId, staged) =>
    match s.store.save J (staged.snapshot now) io with
    | (.error e, store) => (.error (.store e), { s with store := store, persistenceHealthy := false })
    | (.ok (), store) =>
      (.ok { publicPort := port, tokenId := tokenId, sessionId := sessionId },
        { s with
          leases := staged
          store := store
          activeConnections :=
            match connection with
            | none => s.activeConnections
            | some connection => s.activeConnections.insert tokenId (sessionId, connection) })

/-- The loop of `register_with_recovery` over the candidate ports. -/
def registerLoop (J : SerdeJson) (s : ServerState Conn) (tokenId : TokenId)
    (recoveryId : Option TokenId) (peerIp : IpAddr) (now : UInt64) (connection : Option Conn)
    (bind : UInt16 → BindOutcome) (io : SaveOutcome) :
    List UInt16 → Except ServerError Registration × ServerState Conn
  | [] => (.error .noBindablePort, s)
  | port :: rest =>
    match bind port with
    | .addrInUse => registerLoop J s tokenId recoveryId peerIp now connection bind io rest
    | .failed => (.error .bind, s)
    | .bound => s.commitRegistration J tokenId recoveryId peerIp now connection port io

/-- `register_with_recovery` up to its loop: the ports it tries to bind. -/
def beginRegistration (sha256 : Bytes32 → Bytes32) (s : ServerState Conn) (token : TunnelToken)
    (peerIp : IpAddr) (now : UInt64) : Except ServerError (List UInt16) × ServerState Conn :=
  if !s.persistenceHealthy then (.error .storageUnavailable, s)
  else
    match s.leases.candidatePorts (.fromToken sha256 token) peerIp now with
    | (.error e, leases) => (.error (.lease e), { s with leases := leases })
    | (.ok candidates, leases) => (.ok candidates, { s with leases := leases })

def registerWithRecovery (J : SerdeJson) (sha256 : Bytes32 → Bytes32) (s : ServerState Conn)
    (token : TunnelToken) (recoveryId : Option Bytes32) (peerIp : IpAddr) (now : UInt64)
    (connection : Option Conn) (bind : UInt16 → BindOutcome) (io : SaveOutcome) :
    Except ServerError Registration × ServerState Conn :=
  match s.beginRegistration sha256 token peerIp now with
  | (.error e, s) => (.error e, s)
  | (.ok candidates, s) =>
    registerLoop J s (.fromToken sha256 token) (recoveryId.map TokenId.mk) peerIp now connection
      bind io candidates

/-- The connection of the session that ends leaves the registry. -/
def endedConnections (connections : KeyedMap TokenId (SessionId × Conn)) (tokenId : TokenId)
    (sessionId : SessionId) : KeyedMap TokenId (SessionId × Conn) :=
  if (connections.lookup tokenId).any fun e => e.1 == sessionId then connections.erase tokenId
  else connections

/-- `end` -/
def endSession (J : SerdeJson) (s : ServerState Conn) (tokenId : TokenId) (sessionId : SessionId)
    (now : UInt64) (io : SaveOutcome) : Except ServerError Bool × ServerState Conn :=
  match s.leases.endSession tokenId sessionId now with
  | (false, leases) => (.ok false, { s with leases := leases })
  | (true, leases) =>
    let s :=
      { s with
        leases := leases
        activeConnections := endedConnections s.activeConnections tokenId sessionId }
    match s.store.save J (s.leases.snapshot now) io with
    | (.error e, store) =>
      (.error (.store e), { s with store := store, persistenceHealthy := false })
    | (.ok (), store) => (.ok true, { s with store := store })

def rotate (J : SerdeJson) (sha256 : Bytes32 → Bytes32) (s : ServerState Conn)
    (old new : TunnelToken) (now : UInt64) (io : SaveOutcome) :
    Except ServerError (Option UInt16) × ServerState Conn :=
  if !s.persistenceHealthy then (.error .storageUnavailable, s)
  else
    match s.leases.rotateClaim (.fromToken sha256 old) (.fromToken sha256 new) now with
    | (.error e, _) => (.error (.lease e), s)
    | (.ok (.unchanged port), _) => (.ok port, s)
    | (.ok (.transferred port), staged) =>
      match s.store.save J (staged.snapshot now) io with
      | (.error e, store) =>
        (.error (.store e), { s with store := store, persistenceHealthy := false })
      | (.ok (), store) => (.ok (some port), { s with leases := staged, store := store })

/-- The connection of a displaced session leaves the registry if it is still registered. -/
def takeDisplaced (connections : KeyedMap TokenId (SessionId × Conn)) :
    Option (TokenId × SessionId) → Option Conn × KeyedMap TokenId (SessionId × Conn)
  | none => (none, connections)
  | some (old, session) =>
    match connections.lookup old with
    | none => (none, connections)
    | some (active, connection) =>
      if active = session then (some connection, connections.erase old)
      else (none, (connections.erase old).insert old (active, connection))

def recover (J : SerdeJson) (sha256 : Bytes32 → Bytes32) (s : ServerState Conn)
    (secret new : TunnelToken) (peerIp : IpAddr) (now : UInt64) (io : SaveOutcome) :
    Except ServerError (UInt16 × Option Conn) × ServerState Conn :=
  if !s.persistenceHealthy then (.error .storageUnavailable, s)
  else
    match s.leases.recoverClaim (.fromToken sha256 secret) (.fromToken sha256 new) peerIp now with
    | (.error e, _) => (.error (.lease e), s)
    | (.ok result, staged) =>
      if !result.changed then (.ok (result.port, none), s)
      else
        match s.store.save J (staged.snapshot now) io with
        | (.error e, store) =>
          (.error (.store e), { s with store := store, persistenceHealthy := false })
        | (.ok (), store) =>
          let taken := takeDisplaced s.activeConnections result.displaced
          (.ok (result.port, taken.1),
            { s with leases := staged, store := store, activeConnections := taken.2 })

def refreshAndSave (J : SerdeJson) (s : ServerState Conn) (now : UInt64) (io : SaveOutcome) :
    Except ServerError Unit × ServerState Conn :=
  let s := { s with leases := s.leases.reapExpired now }
  match s.store.save J (s.leases.snapshot now) io with
  | (.error e, store) =>
    (.error (.store e), { s with store := store, persistenceHealthy := false })
  | (.ok (), store) => (.ok (), { s with store := store, persistenceHealthy := true })

/-! ## What each operation can do -/

variable {J : SerdeJson} {sha256 : Bytes32 → Bytes32} {s s' : ServerState Conn}
  {tokenId : TokenId} {recoveryId : Option TokenId} {peerIp : IpAddr} {now : UInt64}
  {connection : Option Conn} {bind : UInt16 → BindOutcome} {io : SaveOutcome}

/-- `s` with its expired leases dropped. -/
def reaped (s : ServerState Conn) (now : UInt64) : ServerState Conn :=
  { s with leases := s.leases.reapExpired now }

/-- `s` after a save that failed. -/
def unhealthy (s : ServerState Conn) (store : LeaseStore) : ServerState Conn :=
  { s with store := store, persistenceHealthy := false }

/-- A registration on `port` that passed all checks and was saved. -/
structure Registers (J : SerdeJson) (s : ServerState Conn) (tokenId : TokenId)
    (recoveryId : Option TokenId) (peerIp : IpAddr) (now : UInt64) (connection : Option Conn)
    (port : UInt16) (io : SaveOutcome) (sessionId : SessionId) (s' : ServerState Conn) :
    Prop where
  activated : s.leases.activateWithRecovery tokenId recoveryId peerIp port now =
    (.ok sessionId, s'.leases)
  saved : s.store.save J (s'.leases.snapshot now) io = (.ok (), s'.store)
  healthy : s'.persistenceHealthy = s.persistenceHealthy
  connections : s'.activeConnections =
    match connection with
    | none => s.activeConnections
    | some connection => s.activeConnections.insert tokenId (sessionId, connection)

theorem commitRegistration_cases {port : UInt16} {r : Except ServerError Registration}
    (h : s.commitRegistration J tokenId recoveryId peerIp now connection port io = (r, s')) :
    (∃ e, r = .error (.lease e) ∧ s' = s) ∨
      (∃ e sessionId staged store,
        s.leases.activateWithRecovery tokenId recoveryId peerIp port now =
          (.ok sessionId, staged) ∧
        s.store.save J (staged.snapshot now) io = (.error e, store) ∧ r = .error (.store e) ∧
        s' = s.unhealthy store) ∨
      ∃ sessionId, s.Registers J tokenId recoveryId peerIp now connection port io sessionId s' ∧
        r = .ok { publicPort := port, tokenId := tokenId, sessionId := sessionId } := by
  unfold commitRegistration at h
  split at h
  · cases h
    exact .inl ⟨_, rfl, rfl⟩
  · rename_i sessionId staged ha
    split at h
    · rename_i e store hs
      cases h
      exact .inr (.inl ⟨e, sessionId, staged, store, ha, hs, rfl, rfl⟩)
    · rename_i store hs
      cases h
      exact .inr (.inr ⟨sessionId, ⟨ha, hs, rfl, rfl⟩, rfl⟩)

/-- The loop stops at the first candidate whose address is not in use. -/
theorem registerLoop_cases {ports : List UInt16} {r : Except ServerError Registration}
    (h : s.registerLoop J tokenId recoveryId peerIp now connection bind io ports = (r, s')) :
    ((∃ e, r = .error e) ∧ s' = s) ∨
      ∃ before port after, ports = before ++ port :: after ∧ (∀ q ∈ before, bind q = .addrInUse) ∧
        bind port = .bound ∧
        s.commitRegistration J tokenId recoveryId peerIp now connection port io = (r, s') := by
  induction ports with
  | nil =>
    cases h
    exact .inl ⟨⟨_, rfl⟩, rfl⟩
  | cons port rest ih =>
    unfold registerLoop at h
    split at h
    · rename_i hb
      rcases ih h with he | ⟨before, q, after, rfl, hbefore, hq⟩
      · exact .inl he
      · exact .inr ⟨port :: before, q, after, rfl, List.forall_mem_cons.mpr ⟨hb, hbefore⟩, hq⟩
    · cases h
      exact .inl ⟨⟨_, rfl⟩, rfl⟩
    · rename_i hb
      exact .inr ⟨[], port, rest, rfl, by simp, hb, h⟩

theorem beginRegistration_cases {token : TunnelToken} {r : Except ServerError (List UInt16)}
    (h : s.beginRegistration sha256 token peerIp now = (r, s')) :
    (∃ e, r = .error e ∧ ((s.persistenceHealthy = false ∧ s' = s) ∨ s' = s.reaped now)) ∨
      ∃ ports, r = .ok ports ∧ s.persistenceHealthy = true ∧
        (s.leases.candidatePorts (.fromToken sha256 token) peerIp now).1 = .ok ports ∧
        s' = s.reaped now := by
  unfold beginRegistration at h
  split at h
  · rename_i hh
    cases h
    exact .inl ⟨_, rfl, .inl ⟨by simpa using hh, rfl⟩⟩
  · rename_i hh
    have hh : s.persistenceHealthy = true := by simpa using hh
    simp only [LeaseTable.candidatePorts_eq] at h
    split at h
    · rename_i heq
      obtain ⟨_, rfl⟩ := Prod.mk.inj heq
      cases h
      exact .inl ⟨_, rfl, .inr rfl⟩
    · rename_i ports leases heq
      obtain ⟨hports, rfl⟩ := Prod.mk.inj heq
      cases h
      exact .inr ⟨ports, rfl, hh, hports, rfl⟩

theorem registerWithRecovery_cases {token : TunnelToken} {key : Option Bytes32}
    {r : Except ServerError Registration}
    (h : s.registerWithRecovery J sha256 token key peerIp now connection bind io = (r, s')) :
    ((∃ e, r = .error e) ∧
      ((s.persistenceHealthy = false ∧ s' = s) ∨ s' = s.reaped now ∨
        ∃ store, s' = (s.reaped now).unhealthy store)) ∨
      ∃ before port after sessionId,
        (s.leases.candidatePorts (.fromToken sha256 token) peerIp now).1 =
          .ok (before ++ port :: after) ∧
        (∀ q ∈ before, bind q = .addrInUse) ∧ bind port = .bound ∧
        s.persistenceHealthy = true ∧
        s.Registers J (.fromToken sha256 token) (key.map TokenId.mk) peerIp now connection port io
          sessionId s' ∧
        r = .ok
          { publicPort := port, tokenId := .fromToken sha256 token, sessionId := sessionId } := by
  unfold registerWithRecovery at h
  split at h
  · rename_i e s₁ heq
    cases h
    rcases beginRegistration_cases heq with ⟨_, -, hs⟩ | ⟨_, he, -⟩
    · exact .inl ⟨⟨_, rfl⟩, hs.imp_right .inl⟩
    · cases he
  · rename_i ports s₁ heq
    rcases beginRegistration_cases heq with ⟨_, he, -⟩ | ⟨_, hp, hh, hports, rfl⟩
    · cases he
    · cases hp
      rcases registerLoop_cases h with
        ⟨he, rfl⟩ | ⟨before, port, after, rfl, hbefore, hbound, hc⟩
      · exact .inl ⟨he, .inr (.inl rfl)⟩
      · rcases commitRegistration_cases hc with
          ⟨e, rfl, rfl⟩ | ⟨e, _, _, store, _, _, rfl, rfl⟩ | ⟨sessionId, hr, rfl⟩
        · exact .inl ⟨⟨_, rfl⟩, .inr (.inl rfl)⟩
        · exact .inl ⟨⟨_, rfl⟩, .inr (.inr ⟨store, rfl⟩)⟩
        · refine .inr ⟨before, port, after, sessionId, hports, hbefore, hbound, hh, ?_, rfl⟩
          have ha := hr.activated
          simp only [reaped] at ha
          rw [LeaseTable.activateWithRecovery_reapExpired] at ha
          exact ⟨ha, hr.saved, hr.healthy, hr.connections⟩

theorem endSession_cases {sessionId : SessionId} {r : Except ServerError Bool}
    (h : s.endSession J tokenId sessionId now io = (r, s')) :
    (r = .ok false ∧ (s.leases.endSession tokenId sessionId now).1 = false ∧ s' = s) ∨
      ((s.leases.endSession tokenId sessionId now).1 = true ∧
        s'.leases = (s.leases.endSession tokenId sessionId now).2 ∧
        s'.activeConnections = endedConnections s.activeConnections tokenId sessionId ∧
        ((∃ e, r = .error (.store e) ∧ s'.persistenceHealthy = false ∧
            s.store.save J (s'.leases.snapshot now) io = (.error e, s'.store)) ∨
          (r = .ok true ∧ s'.persistenceHealthy = s.persistenceHealthy ∧
            s.store.save J (s'.leases.snapshot now) io = (.ok (), s'.store)))) := by
  simp only [endSession] at h
  split at h
  · rename_i leases heq
    obtain ⟨_, rfl, _⟩ | ⟨_, hb, _⟩ := LeaseTable.endSession_cases heq
    · cases h
      exact .inl ⟨rfl, by rw [heq], rfl⟩
    · cases hb
  · rename_i leases heq
    rw [heq]
    split at h
    · rename_i e store hs
      cases h
      exact .inr ⟨rfl, rfl, rfl, .inl ⟨e, rfl, rfl, hs⟩⟩
    · rename_i store hs
      cases h
      exact .inr ⟨rfl, rfl, rfl, .inr ⟨rfl, rfl, hs⟩⟩

theorem rotate_cases {old new : TunnelToken} {r : Except ServerError (Option UInt16)}
    (h : s.rotate J sha256 old new now io = (r, s')) :
    ((∃ e, r = .error e) ∧ (s' = s ∨ ∃ store, s' = s.unhealthy store)) ∨
      (s.persistenceHealthy = true ∧
        ((∃ port, s' = s ∧ r = .ok port ∧
            (s.leases.rotateClaim (.fromToken sha256 old) (.fromToken sha256 new) now).1 =
              .ok (.unchanged port)) ∨
          ∃ port, r = .ok (some port) ∧
            s.leases.rotateClaim (.fromToken sha256 old) (.fromToken sha256 new) now =
              (.ok (.transferred port), s'.leases) ∧
            s.store.save J (s'.leases.snapshot now) io = (.ok (), s'.store) ∧
            s'.persistenceHealthy = s.persistenceHealthy ∧
            s'.activeConnections = s.activeConnections)) := by
  unfold rotate at h
  split at h
  · cases h
    exact .inl ⟨⟨_, rfl⟩, .inl rfl⟩
  · rename_i hh
    have hh : s.persistenceHealthy = true := by simpa using hh
    split at h
    · cases h
      exact .inl ⟨⟨_, rfl⟩, .inl rfl⟩
    · rename_i port _ heq
      cases h
      exact .inr ⟨hh, .inl ⟨port, rfl, rfl, by rw [heq]⟩⟩
    · rename_i port staged heq
      split at h
      · rename_i e store hs
        cases h
        exact .inl ⟨⟨_, rfl⟩, .inr ⟨store, rfl⟩⟩
      · rename_i store hs
        cases h
        exact .inr ⟨hh, .inr ⟨port, rfl, heq, hs, rfl, rfl⟩⟩

theorem recover_cases {secret new : TunnelToken} {r : Except ServerError (UInt16 × Option Conn)}
    (h : s.recover J sha256 secret new peerIp now io = (r, s')) :
    ((∃ e, r = .error e) ∧ (s' = s ∨ ∃ store, s' = s.unhealthy store)) ∨
      (s.persistenceHealthy = true ∧ ∃ result, (s.leases.recoverClaim (.fromToken sha256 secret)
          (.fromToken sha256 new) peerIp now).1 = .ok result ∧
        ((result.changed = false ∧ s' = s ∧ r = .ok (result.port, none)) ∨
          (result.changed = true ∧
            s'.leases = (s.leases.recoverClaim (.fromToken sha256 secret) (.fromToken sha256 new)
              peerIp now).2 ∧
            s.store.save J (s'.leases.snapshot now) io = (.ok (), s'.store) ∧
            s'.persistenceHealthy = s.persistenceHealthy ∧
            s'.activeConnections = (takeDisplaced s.activeConnections result.displaced).2 ∧
            r = .ok (result.port, (takeDisplaced s.activeConnections result.displaced).1)))) := by
  unfold recover at h
  split at h
  · cases h
    exact .inl ⟨⟨_, rfl⟩, .inl rfl⟩
  · rename_i hh
    have hh : s.persistenceHealthy = true := by simpa using hh
    split at h
    · cases h
      exact .inl ⟨⟨_, rfl⟩, .inl rfl⟩
    · rename_i result staged heq
      rw [heq]
      split at h
      · rename_i hc
        cases h
        exact .inr ⟨hh, result, rfl, .inl ⟨by simpa using hc, rfl, rfl⟩⟩
      · rename_i hc
        split at h
        · rename_i e store hs
          cases h
          exact .inl ⟨⟨_, rfl⟩, .inr ⟨store, rfl⟩⟩
        · rename_i store hs
          cases h
          exact .inr ⟨hh, result, rfl, .inr ⟨by simpa using hc, rfl, hs, rfl, rfl, rfl⟩⟩

theorem refreshAndSave_cases {r : Except ServerError Unit}
    (h : s.refreshAndSave J now io = (r, s')) :
    s'.leases = s.leases.reapExpired now ∧ s'.activeConnections = s.activeConnections ∧
      ((∃ e, r = .error (.store e) ∧ s'.persistenceHealthy = false ∧
          s.store.save J (s'.leases.snapshot now) io = (.error e, s'.store)) ∨
        (r = .ok () ∧ s'.persistenceHealthy = true ∧
          s.store.save J (s'.leases.snapshot now) io = (.ok (), s'.store))) := by
  simp only [refreshAndSave] at h
  split at h
  · rename_i e store hs
    cases h
    exact ⟨rfl, rfl, .inl ⟨e, rfl, rfl, hs⟩⟩
  · rename_i store hs
    cases h
    exact ⟨rfl, rfl, .inr ⟨rfl, rfl, hs⟩⟩

/-! ## One host -/

def sampleServer : ServerState Unit := ⟨.new, ⟨none, .absent⟩, true, ∅⟩

def sampleTable : LeaseTable :=
  (LeaseTable.new.activateWithRecovery ⟨sampleDigest⟩ (some sampleKey) sampleIp 10000 1000).2

theorem sample_commit (connection : Option Unit) :
    ∃ s, sampleServer.commitRegistration sampleJson ⟨sampleDigest⟩ (some sampleKey) sampleIp 1000
        connection 10000 .saved = (.ok ⟨10000, ⟨sampleDigest⟩, ⟨1⟩⟩, s) ∧
      s.persistenceHealthy = true ∧ s.leases = sampleTable := by
  have hact : sampleServer.leases.activateWithRecovery ⟨sampleDigest⟩ (some sampleKey) sampleIp
      10000 1000 = (.ok ⟨1⟩, sampleTable) := rfl
  have hsnap : sampleTable.snapshot 1000 = [sampleRecord] := rfl
  have hstore : sampleServer.store = ⟨none, .absent⟩ := rfl
  simp only [commitRegistration, hact, hsnap, hstore, sample_save]
  exact ⟨_, rfl, rfl, rfl⟩

end ServerState
end GameNet
