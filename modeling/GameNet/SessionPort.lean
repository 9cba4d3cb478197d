import GameNet.Linearized
import GameNet.LeaseOrigin

/-!
# GameNet.SessionPort

The public port of an active session, and its connection. A session gets both when it is registered
and keeps them while it is active; `Turns` says what a step of the relay's tasks can do to the
active sessions. They end in two ways: their own task ends them, or a recovery displaces them, which
is then given the session's connection.
-/

namespace GameNet

namespace LeaseTable

/-- The token's lease is active in that session, on that port. -/
def ActiveOn (t : LeaseTable) (k : TokenId) (s : SessionId) (port : UInt16) : Prop :=
  ∃ lease, t.leases.lookup k = some lease ∧ lease.status = .active s ∧ lease.port = port

variable {t t' : LeaseTable} {k k' tokenId : TokenId} {s s' sessionId : SessionId}
  {port port' : UInt16} {now : UInt64}

theorem ActiveOn.active (h : t.ActiveOn k s port) : t.Active k s := by
  obtain ⟨lease, hl, hs, -⟩ := h
  exact ⟨lease, hl, hs⟩

theorem Active.on (h : t.Active k s) : ∃ port, t.ActiveOn k s port := by
  obtain ⟨lease, hl, hs⟩ := h
  exact ⟨lease.port, lease, hl, hs, rfl⟩

theorem ActiveOn.same (h : t.Same t') : t.ActiveOn k s port ↔ t'.ActiveOn k s port := by
  unfold ActiveOn
  rw [h.leases]

/-- A token has one active session, on one port. -/
theorem ActiveOn.unique (h : t.ActiveOn k s port) (h' : t.ActiveOn k s' port') :
    s = s' ∧ port = port' := by
  obtain ⟨lease, hl, hs, rfl⟩ := h
  obtain ⟨lease', hl', hs', rfl⟩ := h'
  rw [hl] at hl'
  cases hl'
  rw [hs] at hs'
  cases hs'
  exact ⟨rfl, rfl⟩

/-- A port has one active session. -/
theorem ActiveOn.exclusive (hw : t.WellFormed) (h : t.ActiveOn k s port)
    (h' : t.ActiveOn k' s' port) : k = k' ∧ s = s' := by
  obtain ⟨lease, hl, hs, hp⟩ := h
  obtain ⟨lease', hl', hs', hp'⟩ := h'
  obtain rfl := hw.portUnique hl hl' (hp.trans hp'.symm)
  rw [hl] at hl'
  cases hl'
  rw [hs] at hs'
  cases hs'
  exact ⟨rfl, rfl⟩

/-- What is active after an operation, an activation apart, was active on that port before. -/
theorem activeOn_perform {op : Op} {outcome : Outcome} (hw : t.WellFormed)
    (hop : ∀ k presented peerIp port, op ≠ .activateWithRecovery k presented peerIp port)
    (h : t.perform now op = (outcome, t')) (ha : t'.ActiveOn k s port) : t.ActiveOn k s port := by
  obtain ⟨lease, hl, hs, hp⟩ := ha
  cases perform_origin hw h hl with
  | kept hl => exact ⟨lease, hl, hs, hp⟩
  | opened | reopened => exact absurd rfl (hop _ _ _ _)
  | ended | recovered | restored => cases hs
  | rotated hr =>
    obtain ⟨_, hgrace⟩ := hr.idle
    rw [hgrace] at hs
    cases hs

theorem activeOn_reapExpired : (t.reapExpired now).ActiveOn k s port ↔ t.ActiveOn k s port := by
  constructor
  · rintro ⟨lease, hl, hs⟩
    exact ⟨lease, lookup_of_reapExpired hl, hs⟩
  · rintro ⟨lease, hl, hs, hp⟩
    exact ⟨lease, lookup_reapExpired.mpr ⟨hl, by simp only [Lease.expired, hs]⟩, hs, hp⟩

theorem activeOn_activate {recoveryId : Option TokenId} {peerIp : IpAddr}
    (h : t.activateWithRecovery tokenId recoveryId peerIp port' now = (.ok sessionId, t')) :
    t'.ActiveOn k s port ↔ (k = tokenId ∧ s = sessionId ∧ port = port') ∨
      (k ≠ tokenId ∧ t.ActiveOn k s port) := by
  rcases activateWithRecovery_cases h with ⟨_, he, -⟩ | ⟨_, he, -, rfl⟩
  · cases he
  · cases he
    rw [← @activeOn_reapExpired t k s port now]
    unfold ActiveOn
    simp only [KeyedMap.lookup_insert]
    by_cases hk : k = tokenId
    · simp only [hk, if_true, Option.some.injEq, exists_eq_left', activeLease,
        LeaseStatus.active.injEq, ne_eq, not_true_eq_false, false_and, or_false, true_and]
      exact and_congr eq_comm eq_comm
    · simp only [hk, if_false, ne_eq, not_false_eq_true, false_and, false_or, true_and]

/-- A token that registers has no active session. -/
theorem inactive_of_activate {recoveryId : Option TokenId} {peerIp : IpAddr}
    (h : t.activateWithRecovery tokenId recoveryId peerIp port now = (.ok sessionId, t')) :
    ¬t.Active tokenId s := by
  rcases activateWithRecovery_cases h with ⟨_, he, -⟩ | ⟨_, -, hact, -⟩
  · cases he
  · rintro ha
    obtain ⟨lease, hl, hs⟩ := (@active_reapExpired t tokenId s now).mpr ha
    obtain ⟨ports, ho, -⟩ := hact.offered
    obtain ⟨⟨_, hgrace⟩, -⟩ : (∃ deadline, lease.status = .grace deadline) ∧ ports = [lease.port] :=
      offer_reserved hl ho
    rw [hgrace] at hs
    cases hs

end LeaseTable

namespace ServerState

open LeaseTable (ActiveOn activeOn_perform activeOn_reapExpired)

variable {Conn : Type} {J : SerdeJson} {sha256 : Bytes32 → Bytes32} {S S' : ServerState Conn}
  {k : TokenId} {s : SessionId} {now : UInt64} {io : SaveOutcome}

/-- What is active and registered in `S'` was so in `S`, on the same port and with the same
connection. -/
structure Keeps (S S' : ServerState Conn) : Prop where
  port : ∀ {k s port}, S'.leases.ActiveOn k s port → S.leases.ActiveOn k s port
  connection : ∀ {k s c}, S'.activeConnections.lookup k = some (s, c) →
    S.activeConnections.lookup k = some (s, c)

theorem Keeps.refl (S : ServerState Conn) : Keeps S S := ⟨id, id⟩

theorem Keeps.reaped (S : ServerState Conn) (now : UInt64) : Keeps S (S.reaped now) :=
  ⟨activeOn_reapExpired.mp, id⟩

theorem beginRegistration_keeps {token : TunnelToken} {peerIp : IpAddr}
    {answer : Except ServerError (List UInt16)}
    (h : S.beginRegistration sha256 token peerIp now = (answer, S')) :
    Keeps S S' ∧ ∀ {k s}, S.leases.Active k s → S'.leases.Active k s := by
  rcases beginRegistration_cases h with ⟨_, -, ⟨-, rfl⟩ | rfl⟩ | ⟨_, -, -, -, rfl⟩
  · exact ⟨.refl _, id⟩
  · exact ⟨.reaped _ _, LeaseTable.active_reapExpired.mpr⟩
  · exact ⟨.reaped _ _, LeaseTable.active_reapExpired.mpr⟩

theorem commitRegistration_error_keeps {tokenId : TokenId} {recoveryId : Option TokenId}
    {peerIp : IpAddr} {connection : Option Conn} {port : UInt16} {error : ServerError}
    (h : S.commitRegistration J tokenId recoveryId peerIp now connection port io =
      (.error error, S')) : Keeps S S' ∧ ∀ {k s}, S.leases.Active k s → S'.leases.Active k s := by
  rcases commitRegistration_cases h with
    ⟨_, -, rfl⟩ | ⟨_, _, _, _, -, -, -, rfl⟩ | ⟨_, -, he⟩
  · exact ⟨.refl _, id⟩
  · exact ⟨⟨id, id⟩, id⟩
  · cases he

theorem endSession_keeps {answer : Except ServerError Bool} (hw : S.leases.WellFormed)
    (hm : Matches S.leases S.activeConnections)
    (h : S.endSession J k s now io = (answer, S')) :
    Keeps S S' ∧ ∀ {k' s'}, S.leases.Active k' s' →
      S'.leases.Active k' s' ∨ (k' = k ∧ s' = s) := by
  obtain ⟨-, hconnections⟩ := endSession_matches hm h
  rcases endSession_cases h with ⟨-, -, rfl⟩ | ⟨ht, hl, -⟩
  · exact ⟨.refl _, .inl⟩
  · have hend : S.leases.endSession k s now = (true, S'.leases) := Prod.ext ht hl.symm
    have hperform : S.leases.perform now (.endSession k s) = (.ended true, S'.leases) := by
      simp only [LeaseTable.perform, hend]
    refine ⟨⟨activeOn_perform hw (fun _ _ _ _ he => by cases he) hperform, hconnections⟩,
      fun {k' s'} ha => ?_⟩
    by_cases hks : k' = k ∧ s' = s
    · exact .inr hks
    · exact .inl ((LeaseTable.active_endSession hend).mpr ⟨ha, hks⟩)

theorem rotate_keeps {old new : TunnelToken} {answer : Except ServerError (Option UInt16)}
    (hw : S.leases.WellFormed) (h : S.rotate J sha256 old new now io = (answer, S')) :
    Keeps S S' ∧ ∀ {k s}, S.leases.Active k s → S'.leases.Active k s := by
  rcases rotate_cases h with
    ⟨-, rfl | ⟨store, rfl⟩⟩ | ⟨-, ⟨_, rfl, -, -⟩ | ⟨port, -, hrot, -, -, hc⟩⟩
  · exact ⟨.refl _, id⟩
  · exact ⟨⟨id, id⟩, id⟩
  · exact ⟨.refl _, id⟩
  · have hperform : S.leases.perform now (.rotateClaim (.fromToken sha256 old)
        (.fromToken sha256 new)) = (.rotated (.ok (.transferred port)), S'.leases) := by
      simp only [LeaseTable.perform, hrot]
    refine ⟨⟨activeOn_perform hw (fun _ _ _ _ he => by cases he) hperform, fun hl => hc ▸ hl⟩,
      fun ha => ?_⟩
    exact (LeaseTable.active_rotateClaim hrot).mpr ha

/-- A recovery ends the session it displaces, and returns its connection. -/
theorem recover_keeps {secret new : TunnelToken} {peerIp : IpAddr}
    {answer : Except ServerError (UInt16 × Option Conn)} (hw : S.leases.WellFormed)
    (hm : Matches S.leases S.activeConnections)
    (h : S.recover J sha256 secret new peerIp now io = (answer, S')) :
    Keeps S S' ∧ ∀ {k s}, S.leases.Active k s → S'.leases.Active k s ∨
      ∃ port c, answer = .ok (port, some c) ∧ S.leases.ActiveOn k s port ∧
        S.activeConnections.lookup k = some (s, c) := by
  obtain ⟨-, hconnections⟩ := recover_matches hm h
  rcases recover_cases h with
    ⟨-, rfl | ⟨store, rfl⟩⟩ | ⟨-, result, hrec, ⟨-, rfl, -⟩ | ⟨-, hl, -, -, -, hanswer⟩⟩
  · exact ⟨.refl _, .inl⟩
  · exact ⟨⟨id, id⟩, .inl⟩
  · exact ⟨.refl _, .inl⟩
  · have hrec : S.leases.recoverClaim (.fromToken sha256 secret) (.fromToken sha256 new) peerIp
        now = (.ok result, S'.leases) := Prod.ext hrec hl.symm
    have hperform : S.leases.perform now (.recoverClaim (.fromToken sha256 secret)
        (.fromToken sha256 new) peerIp) = (.recovered (.ok result), S'.leases) := by
      simp only [LeaseTable.perform, hrec]
    refine ⟨⟨activeOn_perform hw (fun _ _ _ _ he => by cases he) hperform, hconnections⟩,
      fun {k s} ha => ?_⟩
    by_cases hd : result.displaced = some (k, s)
    · obtain ⟨c, hc, htaken⟩ := hm.takeDisplaced ha
      refine .inr ⟨result.port, c, ?_, ?_, hc⟩
      · rw [hanswer, hd, htaken]
      · rcases LeaseTable.recoverClaim_cases hrec with
          ⟨old, lease, hr, he, -⟩ | ⟨-, ⟨_, he⟩ | ⟨_, -, -, he⟩⟩
        · cases he
          have hold : old = k ∧ lease.status = .active s := by
            simp only [LeaseTable.displacedSession] at hd
            split at hd
            · cases hd
              exact ⟨rfl, ‹_›⟩
            · cases hd
          obtain ⟨rfl, hs⟩ := hold
          exact ⟨lease, LeaseTable.lookup_of_reapExpired hr.held, hs, rfl⟩
        · cases he
        · cases he
          cases hd
    · exact .inl ((LeaseTable.active_recoverClaim hrec).mpr ⟨ha, hd⟩)

theorem refreshAndSave_keeps {answer : Except ServerError Unit}
    (h : S.refreshAndSave J now io = (answer, S')) :
    Keeps S S' ∧ ∀ {k s}, S.leases.Active k s → S'.leases.Active k s := by
  obtain ⟨hl, hc, -⟩ := refreshAndSave_cases h
  refine ⟨⟨fun ha => ?_, fun he => hc ▸ he⟩, fun ha => ?_⟩
  · rw [hl] at ha
    exact activeOn_reapExpired.mp ha
  · rw [hl]
    exact LeaseTable.active_reapExpired.mpr ha

end ServerState

namespace Relay

open ServerState (Keeps Matches)
open LeaseTable (ActiveOn)

variable {Conn : Type}

/-- The active sessions of `r'` are those of `r`. -/
structure Lasts (r r' : Relay Conn) : Prop where
  keeps : Keeps r.server r'.server
  stays : ∀ {k s}, r.server.leases.Active k s → r'.server.leases.Active k s

/-- What a step can do to the active sessions. -/
inductive Turns (r r' : Relay Conn) : Event Conn → Prop where
  | lasts {e : Event Conn} : e.issued = none → Lasts r r' → Turns r r' e
  | opens {i : TaskId} {reg : Registering Conn} {ports : List UInt16}
      {registration : Registration} : r.tasks.lookup i = some (.binding reg ports) →
      (∀ {s}, ¬r.server.leases.Active registration.tokenId s) →
      (portStart ≤ registration.publicPort ∧ registration.publicPort ≤ portEnd) →
      (∀ {k s port}, r'.server.leases.ActiveOn k s port ↔
        (k = registration.tokenId ∧ s = registration.sessionId ∧ port = registration.publicPort) ∨
          (k ≠ registration.tokenId ∧ r.server.leases.ActiveOn k s port)) →
      r'.server.activeConnections = r.server.activeConnections.insert registration.tokenId
        (registration.sessionId, reg.connection) →
      Turns r r' (.registered i registration)
  | ends {i : TaskId} {k : TokenId} {s : SessionId} {answer : Except ServerError Bool} :
      r.session i = some (k, s) → Keeps r.server r'.server →
      (∀ {k' s'}, r.server.leases.Active k' s' →
        r'.server.leases.Active k' s' ∨ (k' = k ∧ s' = s)) →
      Turns r r' (.finished i answer)
  | displaces {i : TaskId} {secret new : TunnelToken}
      {answer : Except ServerError (UInt16 × Option Conn)} : Keeps r.server r'.server →
      (∀ {k s}, r.server.leases.Active k s → r'.server.leases.Active k s ∨
        ∃ port c, answer = .ok (port, some c) ∧ r.server.leases.ActiveOn k s port ∧
          r.server.activeConnections.lookup k = some (s, c)) →
      Turns r r' (.recovered i secret new answer)

variable {J : SerdeJson} {sha256 : Bytes32 → Bytes32} {r r' : Relay Conn} {e : Event Conn}

theorem Step.turns (hw : r.server.leases.WellFormed)
    (hm : Matches r.server.leases r.server.activeConnections) (hs : Step J sha256 r e r') :
    Turns r r' e := by
  cases hs with
  | reorder hsame hn =>
    exact .lasts rfl ⟨⟨(ActiveOn.same hsame).mpr, id⟩, (LeaseTable.Active.same hsame).mp⟩
  | begin _ _ hb | refuse _ _ hb =>
    obtain ⟨hkeeps, hstays⟩ := ServerState.beginRegistration_keeps hb
    exact .lasts rfl ⟨hkeeps, hstays⟩
  | arrive | busy | exhaust | bindFail | cancelWaiting | cancelBinding | sent | drop | close =>
    exact .lasts rfl ⟨.refl _, id⟩
  | register hi hc =>
    rcases ServerState.commitRegistration_cases hc with
      ⟨_, he, -⟩ | ⟨_, _, _, _, -, -, he, -⟩ | ⟨sessionId, hr, he⟩
    · cases he
    · cases he
    · cases he
      refine .opens hi (LeaseTable.inactive_of_activate hr.activated) ?_
        (LeaseTable.activeOn_activate hr.activated) hr.connections
      have hw' := hw.activateWithRecovery hr.activated
      obtain ⟨lease, hl, -, hp⟩ :=
        (LeaseTable.activeOn_activate hr.activated).mpr (.inl ⟨rfl, rfl, rfl⟩)
      exact hp ▸ hw'.portInPool hl
  | commitFail _ hc =>
    obtain ⟨hkeeps, hstays⟩ := ServerState.commitRegistration_error_keeps hc
    exact .lasts rfl ⟨hkeeps, hstays⟩
  | @finish i k s now io answer server _ hi he =>
    obtain ⟨hkeeps, hends⟩ := ServerState.endSession_keeps hw hm he
    refine .ends (k := k) (s := s) ?_ hkeeps hends
    rcases hi with hi | hi
    · exact sessionIn_of_lookup hi
    · exact sessionIn_of_lookup hi
  | rotate _ _ hr =>
    obtain ⟨hkeeps, hstays⟩ := ServerState.rotate_keeps hw hr
    exact .lasts rfl ⟨hkeeps, hstays⟩
  | recover _ _ hr =>
    obtain ⟨hkeeps, hends⟩ := ServerState.recover_keeps hw hm hr
    exact .displaces hkeeps hends
  | refresh _ hr =>
    obtain ⟨hkeeps, hstays⟩ := ServerState.refreshAndSave_keeps hr
    exact .lasts rfl ⟨hkeeps, hstays⟩

/-- The registry of connections matches the leases whatever the tasks do. -/
theorem reachable_matches (h : Reachable J sha256 r) :
    Matches r.server.leases r.server.activeConnections := by
  obtain ⟨r₀, es, h₀, ht⟩ := h
  obtain ⟨segments, S, -, hrelays, hlinear⟩ := simulates_operations h₀ ht
  obtain ⟨-, -, store, now, io, hload⟩ := h₀
  have hregistered := ServerState.registered_of_relays ⟨store, now, io, hload⟩ hrelays
  obtain ⟨hactive, hconnections⟩ := hlinear.idle
  rw [hconnections]
  exact hregistered.consistent.of_active_iff hactive

end Relay
end GameNet
