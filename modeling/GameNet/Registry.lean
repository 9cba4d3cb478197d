import GameNet.Serving

/-!
# GameNet.Registry

The registry of connections mirrors the active leases. `active_connections` and the lease table are
two maps that five operations update at different points, around a save that may fail. In a run in
which every registration brings its connection, as the relay's do, the entry of a token is there
exactly while its lease is active, with the session of the lease and the connection that opened it.
So a recovery finds the connection of the session it displaces.
-/

namespace GameNet
namespace ServerState

open LeaseTable (Active active_reapExpired active_activate active_endSession active_rotateClaim
  active_recoverClaim active_of_displaced)

variable {Conn : Type}

/-- The registry has an entry for each active lease, with its session, and no other. -/
structure Matches (t : LeaseTable) (connections : KeyedMap TokenId (SessionId × Conn)) : Prop where
  active : ∀ {k s c}, connections.lookup k = some (s, c) → t.Active k s
  entry : ∀ {k s}, t.Active k s → ∃ c, connections.lookup k = some (s, c)

namespace Matches

variable {t t' : LeaseTable} {connections : KeyedMap TokenId (SessionId × Conn)} {k : TokenId}
  {s : SessionId} {c : Conn}

theorem of_active_iff (h : Matches t connections) (ha : ∀ k s, t'.Active k s ↔ t.Active k s) :
    Matches t' connections where
  active he := (ha _ _).mpr (h.active he)
  entry hl := h.entry ((ha _ _).mp hl)

/-- A session opens. -/
theorem insert (h : Matches t connections)
    (ha : ∀ k' s', t'.Active k' s' ↔ (k' = k ∧ s' = s) ∨ (k' ≠ k ∧ t.Active k' s')) :
    Matches t' (AList.insert k (s, c) connections) where
  active he := by
    rw [KeyedMap.lookup_insert] at he
    split at he
    · cases he
      exact (ha _ _).mpr (.inl ⟨‹_›, rfl⟩)
    · exact (ha _ _).mpr (.inr ⟨‹_›, h.active he⟩)
  entry hl := by
    rw [KeyedMap.lookup_insert]
    rcases (ha _ _).mp hl with ⟨rfl, rfl⟩ | ⟨hne, hl⟩
    · exact ⟨c, if_pos rfl⟩
    · rw [if_neg hne]
      exact h.entry hl

/-- A session ends. -/
theorem erase (h : Matches t connections) (hk : t.Active k s)
    (ha : ∀ k' s', t'.Active k' s' ↔ t.Active k' s' ∧ ¬(k' = k ∧ s' = s)) :
    Matches t' (AList.erase k connections) where
  active he := by
    rw [KeyedMap.lookup_erase] at he
    split at he
    · cases he
    · exact (ha _ _).mpr ⟨h.active he, fun hc => absurd hc.1 ‹_›⟩
  entry hl := by
    obtain ⟨hl, hne⟩ := (ha _ _).mp hl
    rw [KeyedMap.lookup_erase, if_neg]
    · exact h.entry hl
    · rintro rfl
      obtain ⟨lease, hl, hs⟩ := hl
      obtain ⟨lease', hl', hs'⟩ := hk
      rw [hl] at hl'
      cases hl'
      rw [hs] at hs'
      cases hs'
      exact hne ⟨rfl, rfl⟩

/-- The entry of the session that ends is the one that is found. -/
theorem endedConnections (h : Matches t connections) (hk : t.Active k s) :
    endedConnections connections k s = connections.erase k := by
  obtain ⟨c, hl⟩ := h.entry hk
  simp [ServerState.endedConnections, hl]

theorem takeDisplaced (h : Matches t connections) (hk : t.Active k s) :
    ∃ c, connections.lookup k = some (s, c) ∧
      takeDisplaced connections (some (k, s)) = (some c, connections.erase k) := by
  obtain ⟨c, hl⟩ := h.entry hk
  exact ⟨c, hl, by simp [ServerState.takeDisplaced, hl]⟩

end Matches

/-- The event is the registration that returned the session `s` of `k`, for the connection `c`. -/
def Event.Opened (e : Event Conn) (k : TokenId) (s : SessionId) (c : Conn) : Prop :=
  e.issued = some (k, s) ∧
    match e.op with
    | .register _ _ _ connection _ => connection = some c
    | _ => False

/-- A registration brings its connection. -/
def Op.connected : Op Conn → Bool
  | .register _ _ _ connection _ => connection.isSome
  | _ => true

variable {J : SerdeJson} {sha256 : Bytes32 → Bytes32} {S S' : ServerState Conn} {e : Event Conn}
  {es : List (Event Conn)} {k : TokenId} {s : SessionId} {c : Conn} {now : UInt64}
  {io : SaveOutcome} {outcome : Outcome Conn}

theorem register_matches {token : TunnelToken} {recoveryId : Option Bytes32} {peerIp : IpAddr}
    {connection : Conn} {bind : UInt16 → BindOutcome} {answer : Except ServerError Registration}
    (h : Matches S.leases S.activeConnections)
    (hr : S.registerWithRecovery J sha256 token recoveryId peerIp now (some connection) bind io =
      (answer, S')) :
    Matches S'.leases S'.activeConnections ∧
      ∀ {k s c}, S'.activeConnections.lookup k = some (s, c) →
        S.activeConnections.lookup k = some (s, c) ∨
          ∃ registration, answer = .ok registration ∧ registration.tokenId = k ∧
            registration.sessionId = s ∧ connection = c := by
  rcases registerWithRecovery_cases hr with
    ⟨-, ⟨-, rfl⟩ | rfl | ⟨store, rfl⟩⟩ | ⟨_, port, _, sessionId, -, -, -, -, hreg, rfl⟩
  · exact ⟨h, .inl⟩
  · exact ⟨h.of_active_iff fun _ _ => active_reapExpired, .inl⟩
  · exact ⟨h.of_active_iff fun _ _ => active_reapExpired, .inl⟩
  · rw [hreg.connections]
    refine ⟨h.insert fun _ _ => active_activate hreg.activated, fun he => ?_⟩
    rw [KeyedMap.lookup_insert] at he
    split at he
    · cases he
      exact .inr ⟨_, rfl, Eq.symm ‹_›, rfl, rfl⟩
    · exact .inl he

theorem endSession_matches {tokenId : TokenId} {sessionId : SessionId}
    {answer : Except ServerError Bool} (h : Matches S.leases S.activeConnections)
    (he : S.endSession J tokenId sessionId now io = (answer, S')) :
    Matches S'.leases S'.activeConnections ∧
      ∀ {k s c}, S'.activeConnections.lookup k = some (s, c) →
        S.activeConnections.lookup k = some (s, c) := by
  rcases endSession_cases he with ⟨-, -, rfl⟩ | ⟨ht, hl, hc, -⟩
  · exact ⟨h, id⟩
  · have hend : S.leases.endSession tokenId sessionId now = (true, S'.leases) :=
      Prod.ext ht hl.symm
    obtain ⟨ha, -⟩ := LeaseTable.active_of_endSession hend
    rw [hc, h.endedConnections ha]
    exact ⟨h.erase ha fun _ _ => active_endSession hend, KeyedMap.lookup_of_erase⟩

theorem rotate_matches {old new : TunnelToken} {answer : Except ServerError (Option UInt16)}
    (h : Matches S.leases S.activeConnections)
    (hr : S.rotate J sha256 old new now io = (answer, S')) :
    Matches S'.leases S'.activeConnections ∧ S'.activeConnections = S.activeConnections := by
  rcases rotate_cases hr with
    ⟨-, rfl | ⟨store, rfl⟩⟩ | ⟨-, ⟨_, rfl, -, -⟩ | ⟨_, -, hrot, -, -, hc⟩⟩
  · exact ⟨h, rfl⟩
  · exact ⟨h, rfl⟩
  · exact ⟨h, rfl⟩
  · rw [hc]
    exact ⟨h.of_active_iff fun _ _ => active_rotateClaim hrot, rfl⟩

/-- A recovery that displaces a session takes its connection out of the registry. -/
theorem recover_matches {secret new : TunnelToken} {peerIp : IpAddr}
    {answer : Except ServerError (UInt16 × Option Conn)}
    (h : Matches S.leases S.activeConnections)
    (hr : S.recover J sha256 secret new peerIp now io = (answer, S')) :
    Matches S'.leases S'.activeConnections ∧
      ∀ {k s c}, S'.activeConnections.lookup k = some (s, c) →
        S.activeConnections.lookup k = some (s, c) := by
  rcases recover_cases hr with
    ⟨-, rfl | ⟨store, rfl⟩⟩ | ⟨-, result, hrec, ⟨-, rfl, -⟩ | ⟨-, hl, -, -, hc, -⟩⟩
  · exact ⟨h, id⟩
  · exact ⟨h, id⟩
  · exact ⟨h, id⟩
  · have hrec : S.leases.recoverClaim (.fromToken sha256 secret) (.fromToken sha256 new) peerIp
        now = (.ok result, S'.leases) := Prod.ext hrec hl.symm
    have ha : ∀ k s, S'.leases.Active k s ↔ S.leases.Active k s ∧ result.displaced ≠ some (k, s) :=
      fun _ _ => active_recoverClaim hrec
    rw [hc]
    cases hd : result.displaced with
    | none =>
      simp only [hd, ne_eq, reduceCtorEq, not_false_eq_true, and_true] at ha
      exact ⟨h.of_active_iff ha, id⟩
    | some p =>
      obtain ⟨old, session⟩ := p
      have hold := active_of_displaced hrec hd
      obtain ⟨c, -, htaken⟩ := h.takeDisplaced hold
      rw [htaken]
      refine ⟨h.erase hold fun k s => ?_, KeyedMap.lookup_of_erase⟩
      rw [ha, hd, ne_eq, Option.some.injEq, Prod.mk.injEq, eq_comm, @eq_comm _ session]

theorem perform_matches {op : Op Conn} (h : Matches S.leases S.activeConnections)
    (hp : perform J sha256 S now io op = (outcome, S')) (hop : op.connected = true) :
    Matches S'.leases S'.activeConnections ∧
      ∀ {k s c}, S'.activeConnections.lookup k = some (s, c) →
        S.activeConnections.lookup k = some (s, c) ∨
          Event.Opened ⟨op, now, io, outcome⟩ k s c := by
  cases op with
  | register token recoveryId peerIp connection bind =>
    obtain ⟨connection, rfl⟩ := Option.isSome_iff_exists.mp hop
    obtain ⟨answer, hr, rfl⟩ := perform_register hp
    obtain ⟨hm, hentries⟩ := register_matches h hr
    refine ⟨hm, fun hl => (hentries hl).imp_right ?_⟩
    rintro ⟨registration, rfl, rfl, rfl, rfl⟩
    exact ⟨rfl, rfl⟩
  | endSession tokenId sessionId =>
    obtain ⟨answer, he, -⟩ := perform_endSession hp
    obtain ⟨hm, hentries⟩ := endSession_matches h he
    exact ⟨hm, fun hl => .inl (hentries hl)⟩
  | rotate old new =>
    obtain ⟨answer, hr, -⟩ := perform_rotate hp
    obtain ⟨hm, hentries⟩ := rotate_matches h hr
    exact ⟨hm, fun hl => .inl (hentries ▸ hl)⟩
  | recover secret new peerIp =>
    obtain ⟨answer, hr, -⟩ := perform_recover hp
    obtain ⟨hm, hentries⟩ := recover_matches h hr
    exact ⟨hm, fun hl => .inl (hentries hl)⟩
  | refreshAndSave =>
    obtain ⟨answer, hr, -⟩ := perform_refresh hp
    obtain ⟨hl, hc, -⟩ := refreshAndSave_cases hr
    rw [hl, hc]
    exact ⟨h.of_active_iff fun _ _ => active_reapExpired, .inl⟩

/-! ## Runs -/

/-- One operation of a relay, which always gives the connection of a registration. -/
def Relays (J : SerdeJson) (sha256 : Bytes32 → Bytes32) (S : ServerState Conn) (e : Event Conn)
    (S' : ServerState Conn) : Prop :=
  Serves J sha256 S e S' ∧ e.op.connected = true

/-- After the events `es` the registry matches the leases, and each connection in it is the one
given to the registration that returned the session. -/
structure Registered (S : ServerState Conn) (es : List (Event Conn)) : Prop where
  consistent : Matches S.leases S.activeConnections
  opened : ∀ {k s c}, S.activeConnections.lookup k = some (s, c) → ∃ e ∈ es, e.Opened k s c

theorem Relays.registered (h : Relays J sha256 S e S') (hi : Registered S es) :
    Registered S' (es ++ [e]) := by
  obtain ⟨@⟨_, t, op, now, io, outcome, hsame, hn, hp⟩, hop⟩ := h
  have hmatches : Matches t S.activeConnections :=
    hi.consistent.of_active_iff fun _ _ => (Active.same hsame).symm
  obtain ⟨hm, hentries⟩ := perform_matches (S := { S with leases := t }) hmatches hp hop
  refine ⟨hm, fun hl => ?_⟩
  rcases hentries hl with hold | hnew
  · obtain ⟨e, he, ho⟩ := hi.opened hold
    exact ⟨e, List.mem_append_left _ he, ho⟩
  · exact ⟨_, List.mem_append_right _ (List.mem_singleton.mpr rfl), hnew⟩

theorem registered_of_relays {S₀ : ServerState Conn} (h₀ : Loaded J sha256 S₀)
    (h : Trace (Relays J sha256) S₀ es S) : Registered S es := by
  obtain ⟨store, now, io, hload⟩ := h₀
  obtain ⟨-, hidle, hempty⟩ := loadOrNew_ok hload
  refine h.history (fun _ _ _ _ hi hs => hs.registered hi) ⟨⟨?_, ?_⟩, ?_⟩
  · intro k s c hl
    rw [hempty] at hl
    cases hl
  · intro k s ha
    exact absurd ha (hidle k s)
  · intro k s c hl
    rw [hempty] at hl
    cases hl

/-- A session is opened by one registration, so for one connection. -/
theorem Event.Opened.unique {e' : Event Conn} {c' : Conn} {S₀ : ServerState Conn}
    (h : Trace (Serves J sha256) S₀ es S) (he : e ∈ es) (he' : e' ∈ es) (ho : e.Opened k s c)
    (ho' : e'.Opened k s c') : c = c' := by
  obtain rfl := serial_serves.issued_inj h he he' ho.1 ho'.1
  obtain ⟨-, hc⟩ := ho
  obtain ⟨-, hc'⟩ := ho'
  split at hc
  · rename_i heq
    rw [heq] at hc'
    exact Option.some.inj (hc.symm.trans hc')
  · exact hc.elim

/-- What a recovery returns, from a registry that matches the leases. -/
theorem recover_returns {secret new : TunnelToken} {peerIp : IpAddr} {port : UInt16}
    {connection : Option Conn} (h : Matches S.leases S.activeConnections)
    (hr : S.recover J sha256 secret new peerIp now io = (.ok (port, connection), S')) :
    ∃ k lease, S.leases.leases.lookup k = some lease ∧
      lease.recoveryId = some (.fromToken sha256 secret) ∧ lease.port = port ∧
      match lease.status with
      | .active s =>
        if k = .fromToken sha256 new then connection = none
        else ∃ c, connection = some c ∧ S.activeConnections.lookup k = some (s, c)
      | .grace _ => connection = none := by
  rcases recover_cases hr with ⟨⟨_, he⟩, -⟩ | ⟨-, result, hrec, ⟨hch, -, he⟩ | ⟨hch, -, -, -, -, he⟩⟩
  · cases he
  · cases he
    rcases LeaseTable.recoverClaim_cases (Prod.ext hrec rfl) with
      ⟨_, _, -, he, -⟩ | ⟨-, ⟨_, he⟩ | ⟨lease, hl, hk, he⟩⟩
    · cases he; cases hch
    · cases he
    · cases he
      refine ⟨_, lease, LeaseTable.lookup_of_reapExpired hl, hk, rfl, ?_⟩
      cases lease.status <;> simp
  · cases he
    rcases LeaseTable.recoverClaim_cases (Prod.ext hrec rfl) with
      ⟨old, lease, hre, he, -⟩ | ⟨-, ⟨_, he⟩ | ⟨_, -, -, he⟩⟩
    · cases he
      have hl := LeaseTable.lookup_of_reapExpired hre.held
      refine ⟨old, lease, hl, hre.enrolled, rfl, ?_⟩
      cases hs : lease.status with
      | active s =>
        obtain ⟨c, hc, htaken⟩ := h.takeDisplaced ⟨lease, hl, hs⟩
        simp only [LeaseTable.displacedSession, hs, htaken, if_neg hre.distinct]
        exact ⟨c, rfl, hc⟩
      | grace e => simp only [LeaseTable.displacedSession, hs, takeDisplaced]
    · cases he
    · cases he; cases hch

/-- **The registry of connections mirrors the active leases.** At every point of a run the entry of
a token is that of its active lease, with the connection given to the registration that returned
its session. A recovery that displaces a session returns the connection of that session, and one
that finds the claim idle, or at the new token already, returns none. -/
theorem registry_mirrors (J : SerdeJson) (sha256 : Bytes32 → Bytes32) (S₀ S : ServerState Conn)
    (es : List (Event Conn)) (h₀ : Loaded J sha256 S₀) (h : Trace (Relays J sha256) S₀ es S) :
    (∀ k s c, S.activeConnections.lookup k = some (s, c) ↔
      S.leases.Active k s ∧ ∃ e ∈ es, e.Opened k s c) ∧
    ∀ secret new peerIp now io port connection S',
      S.recover J sha256 secret new peerIp now io = (.ok (port, connection), S') →
      ∃ k lease, S.leases.leases.lookup k = some lease ∧
        lease.recoveryId = some (.fromToken sha256 secret) ∧ lease.port = port ∧
        match lease.status with
        | .active s =>
          if k = .fromToken sha256 new then connection = none
          else ∃ c, connection = some c ∧ ∃ e ∈ es, e.Opened k s c
        | .grace _ => connection = none := by
  have hi := registered_of_relays h₀ h
  refine ⟨fun k s c => ⟨fun hl => ⟨hi.consistent.active hl, hi.opened hl⟩, ?_⟩, ?_⟩
  · rintro ⟨ha, e, he, ho⟩
    obtain ⟨c', hl⟩ := hi.consistent.entry ha
    obtain ⟨e', he', ho'⟩ := hi.opened hl
    obtain rfl := ho.unique (h.mono fun _ _ _ hs => hs.1) he he' ho'
    exact hl
  · intro secret new peerIp now io port connection S' hr
    obtain ⟨k, lease, hl, hk, hp, hc⟩ := recover_returns hi.consistent hr
    refine ⟨k, lease, hl, hk, hp, ?_⟩
    cases hs : lease.status with
    | grace e =>
      rw [hs] at hc
      exact hc
    | active s =>
      rw [hs] at hc
      simp only at hc ⊢
      split
      · rwa [if_pos ‹_›] at hc
      · rw [if_neg ‹_›] at hc
        obtain ⟨c, hc, hentry⟩ := hc
        exact ⟨c, hc, hi.opened hentry⟩

/-- One host, with its connection. -/
theorem registry_mirrors_one_host :
    ∃ S : ServerState Unit, S.activeConnections.lookup ⟨sampleDigest⟩ = some (⟨1⟩, ()) := by
  have h₀ : Loaded sampleJson (fun _ => sampleDigest) sampleServer :=
    ⟨⟨none, .absent⟩, 0, ⟨.created, .saved, .saved⟩, rfl⟩
  obtain ⟨rest, hb⟩ : ∃ rest, sampleServer.beginRegistration (fun _ => sampleDigest)
      (.replicate 32 7) sampleIp 1000 = (.ok (10000 :: rest), sampleServer) := ⟨_, rfl⟩
  obtain ⟨S, hc, -, htable⟩ := sample_commit (some ())
  have hr : sampleServer.registerWithRecovery sampleJson (fun _ => sampleDigest)
      (.replicate 32 7) (some sampleKey.bytes) sampleIp 1000 (some ()) (fun _ => .bound) .saved =
        (.ok ⟨10000, ⟨sampleDigest⟩, ⟨1⟩⟩, S) := by
    simp only [registerWithRecovery, hb, registerLoop]
    exact hc
  have hs : Relays sampleJson (fun _ => sampleDigest) sampleServer
      ⟨.register (.replicate 32 7) (some sampleKey.bytes) sampleIp (some ()) (fun _ => .bound),
        1000, .saved, .registered (.ok ⟨10000, ⟨sampleDigest⟩, ⟨1⟩⟩)⟩ S :=
    ⟨.mk (.refl _) rfl (by simp only [perform]; rw [hr]), rfl⟩
  have hm := registry_mirrors sampleJson (fun _ => sampleDigest) sampleServer S _ h₀ (.single hs)
  exact ⟨S, (hm.1 _ _ _).mpr
    ⟨by rw [htable]; exact ⟨_, rfl, rfl⟩, _, List.mem_singleton.mpr rfl, rfl, rfl⟩⟩

end ServerState
end GameNet
