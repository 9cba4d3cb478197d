import GameNet.Lib.Serial
import GameNet.LeaseRun
import GameNet.ServerState

/-!
# GameNet.Sessions

The sessions of the lease table. An operation either opens one session (`Opens`), whose id is above
every id given out before, or opens none (`Calms`). The ids are serial numbers in the sense of
`Serial`, whose rules apply to every run of a table: the ids increase, and a session that is over
stays over, whatever tokens its claim goes through later. A restart is the start of another run.
-/

namespace GameNet

namespace LeaseTable

/-- The token's lease is active in that session. -/
def Active (t : LeaseTable) (k : TokenId) (s : SessionId) : Prop :=
  ∃ lease, t.leases.lookup k = some lease ∧ lease.status = .active s

/-- `t'` has no active session that `t` does not have. -/
structure Calms (t t' : LeaseTable) : Prop where
  wellFormed : t.WellFormed → t'.WellFormed
  counter : t'.nextSessionId = t.nextSessionId
  active : ∀ {k s}, t'.Active k s → t.Active k s

/-- `t'` has the new session `s` of the token `k`, which has no other. -/
structure Opens (t t' : LeaseTable) (k : TokenId) (s : SessionId) : Prop where
  wellFormed : t.WellFormed → t'.WellFormed
  counter : t'.nextSessionId = s.value
  fresh : t.nextSessionId < s.value
  active : ∀ {k' s'}, t'.Active k' s' → (k' = k ∧ s' = s) ∨ (k' ≠ k ∧ t.Active k' s')

variable {t t' t'' : LeaseTable} {k old new tokenId : TokenId} {s sessionId : SessionId}
  {lease lease' : Lease} {now : UInt64}

theorem Active.same (h : t.Same t') : t.Active k s ↔ t'.Active k s := by
  unfold Active
  rw [h.leases]

/-- Active leases do not expire. -/
theorem active_reapExpired : (t.reapExpired now).Active k s ↔ t.Active k s := by
  constructor
  · rintro ⟨lease, hl, hs⟩
    exact ⟨lease, lookup_of_reapExpired hl, hs⟩
  · rintro ⟨lease, hl, hs⟩
    exact ⟨lease, lookup_reapExpired.mpr ⟨hl, by simp only [Lease.expired, hs]⟩, hs⟩

theorem active_insert {n : UInt64} :
    Active ⟨AList.insert tokenId lease t.leases, n⟩ k s ↔
      (k = tokenId ∧ lease.status = .active s) ∨ (k ≠ tokenId ∧ t.Active k s) := by
  unfold Active
  simp only [KeyedMap.lookup_insert]
  by_cases hk : k = tokenId <;> simp [hk]

/-- A claim that waits under its new token has no session. -/
theorem active_moveClaim {e : UInt64} (hs : lease.status = .grace e)
    (hn : t.leases.lookup new = none) :
    (t.moveClaim old new lease).Active k s ↔ k ≠ old ∧ t.Active k s := by
  constructor
  · rintro ⟨l, hl, ha⟩
    rcases lookup_moveClaim_eq_some.mp hl with ⟨-, rfl⟩ | ⟨-, hko, hl⟩
    · rw [hs] at ha; cases ha
    · exact ⟨hko, l, hl, ha⟩
  · rintro ⟨hko, l, hl, ha⟩
    have hkn : k ≠ new := by
      rintro rfl
      rw [hn] at hl; cases hl
    exact ⟨l, lookup_moveClaim_eq_some.mpr (.inr ⟨hkn, hko, hl⟩), ha⟩

theorem active_activate {recoveryId : Option TokenId} {peerIp : IpAddr} {port : UInt16}
    (h : t.activateWithRecovery tokenId recoveryId peerIp port now = (.ok sessionId, t')) :
    t'.Active k s ↔ (k = tokenId ∧ s = sessionId) ∨ (k ≠ tokenId ∧ t.Active k s) := by
  rcases activateWithRecovery_cases h with ⟨_, he, -⟩ | ⟨_, he, -, rfl⟩
  · cases he
  · cases he
    rw [active_insert, active_reapExpired]
    simp only [activeLease, LeaseStatus.active.injEq, eq_comm]

theorem active_endSession {b : Bool} (h : t.endSession tokenId sessionId now = (b, t')) :
    t'.Active k s ↔ t.Active k s ∧ ¬(k = tokenId ∧ s = sessionId) := by
  rcases endSession_cases h with ⟨-, rfl, hn⟩ | ⟨lease, -, hl, hs, rfl⟩
  · constructor
    · rintro ⟨l, hl, hs⟩
      refine ⟨⟨l, hl, hs⟩, ?_⟩
      rintro ⟨rfl, rfl⟩
      exact hn l hl hs
    · exact fun h => h.1
  · rw [active_insert]
    constructor
    · rintro (⟨-, ha⟩ | ⟨hk, ha⟩)
      · cases ha
      · exact ⟨ha, fun h => hk h.1⟩
    · rintro ⟨ha, hne⟩
      refine .inr ⟨fun hk => hne ⟨hk, ?_⟩, ha⟩
      obtain ⟨l, hl', hs'⟩ := ha
      rw [hk, hl] at hl'
      cases hl'
      rw [hs] at hs'
      cases hs'
      rfl

/-- A claim with a session is not rotated. -/
theorem active_rotateClaim {r : Except LeaseError RotationResult}
    (h : t.rotateClaim old new now = (r, t')) : t'.Active k s ↔ t.Active k s := by
  rcases rotateClaim_cases h with ⟨lease, hr, -, rfl⟩ | ⟨rfl, -⟩
  · obtain ⟨e, hs⟩ := hr.idle
    have hmoved : ((t.reapExpired now).moveClaim old new
        { lease with retiredTokenIds := [old] }).Active k s ↔ _ :=
      active_moveClaim hs hr.newUnused
    rw [hmoved, active_reapExpired, and_iff_right_iff_imp]
    rintro ha rfl
    obtain ⟨l, hl, ha⟩ := (@active_reapExpired t k s now).mpr ha
    rw [hr.held] at hl
    cases hl
    rw [hs] at ha
    cases ha
  · exact active_reapExpired

/-- A recovery puts an end to the session it displaces. -/
theorem active_recoverClaim {recoveryId : TokenId} {peerIp : IpAddr} {result : RecoveryResult}
    (h : t.recoverClaim recoveryId new peerIp now = (.ok result, t')) :
    t'.Active k s ↔ t.Active k s ∧ result.displaced ≠ some (k, s) := by
  rcases recoverClaim_cases h with ⟨old, lease, hr, he, rfl⟩ | ⟨rfl, ⟨_, he⟩ | ⟨_, -, -, he⟩⟩
  · cases he
    have hold : (t.reapExpired now).Active old s ↔ displacedSession old lease = some (old, s) := by
      unfold Active displacedSession
      rw [hr.held]
      cases hs : lease.status <;> simp [hs]
    have hdisplaced : displacedSession old lease = some (k, s) → k = old := by
      unfold displacedSession
      cases lease.status <;> simp +contextual
    rw [active_moveClaim rfl hr.newUnused, ← @active_reapExpired t k s now]
    constructor
    · rintro ⟨hk, ha⟩
      exact ⟨ha, fun hd => hk (hdisplaced hd)⟩
    · rintro ⟨ha, hd⟩
      refine ⟨?_, ha⟩
      rintro rfl
      exact hd (hold.mp ha)
  · cases he
  · cases he
    simp [active_reapExpired]

theorem Calms.refl (t : LeaseTable) : Calms t t := ⟨id, rfl, id⟩

theorem Calms.same (h : t.Same t') (hn : t.nextSessionId = t'.nextSessionId) : Calms t t' :=
  ⟨fun hw => h.wellFormed hn hw, hn.symm, (Active.same h).mpr⟩

theorem Calms.reapExpired : Calms t (t.reapExpired now) :=
  ⟨fun hw => hw.reapExpired, rfl, active_reapExpired.mp⟩

theorem Opens.activate {recoveryId : Option TokenId} {peerIp : IpAddr} {port : UInt16}
    (h : t.activateWithRecovery tokenId recoveryId peerIp port now = (.ok s, t')) :
    t.Opens t' tokenId s := by
  have ha := fun k' s' => (active_activate (k := k') (s := s') h).mp
  rcases activateWithRecovery_cases h with ⟨_, he, -⟩ | ⟨_, he, hact, ht⟩
  · cases he
  · cases he
    exact ⟨fun hw => hw.activateWithRecovery h, by rw [ht], hact.lt_session, ha _ _⟩

theorem Calms.endSession {b : Bool} (h : t.endSession tokenId sessionId now = (b, t')) :
    Calms t t' := by
  refine ⟨fun hw => hw.endSession h, ?_, fun ha => ((active_endSession h).mp ha).1⟩
  rcases endSession_cases h with ⟨-, rfl, -⟩ | ⟨_, -, -, -, rfl⟩ <;> rfl

theorem Calms.rotateClaim {r : Except LeaseError RotationResult}
    (h : t.rotateClaim old new now = (r, t')) : Calms t t' := by
  refine ⟨fun hw => hw.rotateClaim h, ?_, (active_rotateClaim h).mp⟩
  rcases rotateClaim_cases h with ⟨_, -, -, rfl⟩ | ⟨rfl, -⟩ <;> rfl

theorem Calms.recoverClaim {recoveryId : TokenId} {peerIp : IpAddr}
    {r : Except LeaseError RecoveryResult}
    (h : t.recoverClaim recoveryId new peerIp now = (r, t')) : Calms t t' := by
  refine ⟨fun hw => hw.recoverClaim h, ?_, ?_⟩
  · rcases recoverClaim_cases h with ⟨_, _, -, -, rfl⟩ | ⟨rfl, -⟩ <;> rfl
  · intro k s ha
    cases r with
    | ok result => exact ((active_recoverClaim h).mp ha).1
    | error e =>
      rcases recoverClaim_cases h with ⟨_, _, -, he, -⟩ | ⟨rfl, -⟩
      · cases he
      · exact active_reapExpired.mp ha

/-- A displaced session was active. -/
theorem active_of_displaced {recoveryId : TokenId} {peerIp : IpAddr} {result : RecoveryResult}
    (h : t.recoverClaim recoveryId new peerIp now = (.ok result, t'))
    (hd : result.displaced = some (k, s)) : t.Active k s := by
  rcases recoverClaim_cases h with ⟨old, lease, hr, he, -⟩ | ⟨-, ⟨_, he⟩ | ⟨_, -, -, he⟩⟩
  · cases he
    simp only [displacedSession] at hd
    split at hd
    · rename_i hs
      cases hd
      exact ⟨lease, lookup_of_reapExpired hr.held, hs⟩
    · cases hd
  · cases he
  · cases he
    cases hd

/-- A session is ended if it is the token's active one, and otherwise nothing happens. -/
theorem endSession_of_active (h : t.Active tokenId sessionId) :
    (t.endSession tokenId sessionId now).1 = true ∧
      ¬(t.endSession tokenId sessionId now).2.Active tokenId sessionId := by
  refine ⟨?_, fun ha => ((active_endSession rfl).mp ha).2 ⟨rfl, rfl⟩⟩
  obtain ⟨b, t', he⟩ : ∃ b t', t.endSession tokenId sessionId now = (b, t') := ⟨_, _, rfl⟩
  obtain ⟨lease, hl, hs⟩ := h
  rcases endSession_cases he with ⟨-, -, hne⟩ | ⟨_, rfl, -, -, rfl⟩
  · exact absurd hs (hne lease hl)
  · rw [he]

theorem endSession_of_inactive (h : ¬t.Active tokenId sessionId) :
    t.endSession tokenId sessionId now = (false, t) := by
  obtain ⟨b, t', he⟩ : ∃ b t', t.endSession tokenId sessionId now = (b, t') := ⟨_, _, rfl⟩
  rcases endSession_cases he with ⟨rfl, rfl, -⟩ | ⟨lease, -, hl, hs, -⟩
  · exact he
  · exact absurd ⟨lease, hl, hs⟩ h

theorem active_of_endSession (h : t.endSession tokenId sessionId now = (true, t')) :
    t.Active tokenId sessionId ∧ ¬t'.Active tokenId sessionId := by
  refine ⟨?_, fun ha => ((active_endSession h).mp ha).2 ⟨rfl, rfl⟩⟩
  by_contra ha
  rw [endSession_of_inactive ha] at h
  cases h

/-! ## Runs that are not restarted -/

/-- Sessions are ordered as their ids. -/
instance : Preorder SessionId := Preorder.lift fun s => s.value.toNat

theorem lt_iff_value_lt : s < sessionId ↔ s.value < sessionId.value :=
  UInt64.lt_iff_toNat_lt.symm

theorem le_iff_value_le : s ≤ sessionId ↔ s.value ≤ sessionId.value :=
  UInt64.le_iff_toNat_le.symm

/-- The highest session id given out so far. -/
def lastSession (t : LeaseTable) : SessionId := ⟨t.nextSessionId⟩

theorem Calms.serial (h : t.Calms t') :
    t'.lastSession = t.lastSession ∧ ∀ {k s}, t'.Active k s → t.Active k s :=
  ⟨congrArg SessionId.mk h.counter, h.active⟩

theorem Opens.serial (h : t.Opens t' k s) :
    t.lastSession < s ∧ t'.lastSession = s ∧
      ∀ {k' s'}, t'.Active k' s' → (k' = k ∧ s' = s) ∨ (k' ≠ k ∧ t.Active k' s') :=
  ⟨lt_iff_value_lt.mpr h.fresh, congrArg SessionId.mk h.counter, h.active⟩

/-- No lease is active when a relay starts. -/
theorem inactive_of_initial (h : t = .new ∨ ∃ records, restore records now = .ok t) :
    ¬t.Active k s := by
  rintro ⟨lease, hl, hs⟩
  rcases h with rfl | ⟨records, hres⟩
  · cases hl
  · obtain ⟨hv, rfl⟩ := restore_eq_ok.mp hres
    obtain ⟨record, -, -, -, rfl⟩ := (lookup_load_new hv.tokens).mp hl
    cases hs

/-- One operation but a restart, at any time, on the table in any iteration order. -/
inductive Runs : LeaseTable → Event → LeaseTable → Prop where
  | mk {t u t' : LeaseTable} {op : Op} {now : UInt64} {outcome : Outcome} : t.Same u →
      t.nextSessionId = u.nextSessionId → (∀ savedAt, op ≠ .restart savedAt) →
      u.perform now op = (outcome, t') → Runs t ⟨op, now, outcome⟩ t'

/-- The step that performs `op` on the table as it is. -/
theorem Runs.of_perform (t : LeaseTable) (op : Op) (now : UInt64)
    (hop : ∀ savedAt, op ≠ .restart savedAt) :
    Runs t ⟨op, now, (t.perform now op).1⟩ (t.perform now op).2 :=
  .mk (.refl _) rfl hop rfl

/-- The session an activation returned. -/
def Event.issued (e : Event) : Option (TokenId × SessionId) :=
  match e.op, e.outcome with
  | .activateWithRecovery tokenId _ _ _, .activated (.ok sessionId) => some (tokenId, sessionId)
  | _, _ => none

/-- The event ended the session `s`. -/
def Event.ended (s : SessionId) (e : Event) : Bool :=
  match e.op, e.outcome with
  | .endSession _ sessionId, .ended b => sessionId == s && b
  | _, _ => false

/-- The event put an end to the session `s` of `k`: it ended it, it recovered the claim from it,
or it activated the token again. -/
def Event.Supersedes (k : TokenId) (s : SessionId) (e : Event) : Prop :=
  match e.op, e.outcome with
  | .endSession tokenId sessionId, .ended b => tokenId = k ∧ sessionId = s ∧ b = true
  | .recoverClaim _ _ _, .recovered (.ok result) => result.displaced = some (k, s)
  | .activateWithRecovery tokenId _ _ _, .activated (.ok _) => tokenId = k
  | _, _ => False

/-- An operation that returns no session opens none. -/
theorem perform_calms {op : Op} {outcome : Outcome} (hop : ∀ savedAt, op ≠ .restart savedAt)
    (h : t.perform now op = (outcome, t')) (hi : Event.issued ⟨op, now, outcome⟩ = none) :
    t.Calms t' := by
  cases op with
  | candidatePorts tokenId peerIp =>
    cases h
    exact .reapExpired
  | activateWithRecovery tokenId recoveryId peerIp port =>
    obtain ⟨r, ha, rfl⟩ := perform_activate h
    rcases activateWithRecovery_cases ha with ⟨_, rfl, rfl⟩ | ⟨_, rfl, -, -⟩
    · exact .reapExpired
    · cases hi
  | endSession tokenId sessionId =>
    obtain ⟨b, he, -⟩ := perform_endSession h
    exact .endSession he
  | rotateClaim old new =>
    obtain ⟨r, hr, -⟩ := perform_rotate h
    exact .rotateClaim hr
  | recoverClaim recoveryId new peerIp =>
    obtain ⟨r, hr, -⟩ := perform_recover h
    exact .recoverClaim hr
  | reapExpired =>
    cases h
    exact .reapExpired
  | restart savedAt => exact absurd rfl (hop savedAt)

theorem perform_opens {op : Op} {outcome : Outcome} (h : t.perform now op = (outcome, t'))
    (hi : Event.issued ⟨op, now, outcome⟩ = some (k, s)) : t.Opens t' k s := by
  unfold Event.issued at hi
  split at hi
  · rename_i hop hout
    cases hi
    have hop : op = _ := hop
    have hout : outcome = _ := hout
    subst hop hout
    obtain ⟨r, ha, he⟩ := perform_activate h
    cases he
    exact .activate ha
  · cases hi

/-- The sessions of a table are serial numbers. -/
theorem serial_runs : Serial Runs lastSession Active Event.issued where
  calm h hi := by
    obtain ⟨hsame, hn, hop, hp⟩ := h
    obtain ⟨hc, ha⟩ := (perform_calms hop hp hi).serial
    exact ⟨hc.trans (congrArg SessionId.mk hn.symm), fun h => (Active.same hsame).mpr (ha h)⟩
  fresh h hi := by
    obtain ⟨hsame, hn, -, hp⟩ := h
    obtain ⟨hlt, hc, ha⟩ := (perform_opens hp hi).serial
    refine ⟨lt_of_eq_of_lt (congrArg SessionId.mk hn) hlt, hc, fun h => ?_⟩
    rw [Active.same hsame]
    exact ha h

theorem WellFormed.sound (h : t.WellFormed) : Serial.Sound lastSession Active t where
  bounded := by
    rintro k s ⟨lease, hl, hs⟩
    exact le_iff_value_le.mpr (h.sessionBound hl hs)
  unique := by
    rintro k k' s ⟨lease, hl, hs⟩ ⟨lease', hl', hs'⟩
    exact h.sessionUnique hl hl' hs hs'

/-- An event that puts an end to a session finds it active, or activates its token again. -/
theorem Runs.superseded {e : Event} (h : Runs t e t') (hs : e.Supersedes k s) :
    (t.Active k s ∧ ¬t'.Active k s) ∨ ∃ s', e.issued = some (k, s') := by
  obtain @⟨_, u, op, now, outcome, hsame, -, -, hp⟩ := h
  rw [Active.same hsame]
  cases op with
  | endSession tokenId sessionId =>
    obtain ⟨b, he, rfl⟩ := perform_endSession hp
    obtain ⟨rfl, rfl, rfl⟩ := hs
    exact .inl (active_of_endSession he)
  | recoverClaim recoveryId new peerIp =>
    obtain ⟨r, hr, rfl⟩ := perform_recover hp
    cases r with
    | error e => exact hs.elim
    | ok result =>
      exact .inl ⟨active_of_displaced hr hs, fun ha => ((active_recoverClaim hr).mp ha).2 hs⟩
  | activateWithRecovery tokenId recoveryId peerIp port =>
    obtain ⟨r, -, rfl⟩ := perform_activate hp
    cases r with
    | error e => exact hs.elim
    | ok s' =>
      obtain rfl := hs
      exact .inr ⟨s', rfl⟩
  | candidatePorts | rotateClaim | reapExpired | restart => exact hs.elim

/-- The event that ended a session found it active. -/
theorem Runs.ended {e : Event} (h : Runs t e t') (hs : e.ended s = true) :
    ∃ k, t.Active k s ∧ ¬t'.Active k s := by
  obtain @⟨_, u, op, now, outcome, hsame, -, -, hp⟩ := h
  cases op with
  | endSession tokenId sessionId =>
    obtain ⟨b, he, rfl⟩ := perform_endSession hp
    simp only [Event.ended, Bool.and_eq_true, beq_iff_eq] at hs
    obtain ⟨rfl, rfl⟩ := hs
    exact ⟨tokenId, by rw [Active.same hsame]; exact active_of_endSession he⟩
  | candidatePorts | activateWithRecovery | rotateClaim | recoverClaim | reapExpired | restart =>
    cases hs

/-- What the sessions of a run with the events `es` that ends in `t` can rely on. -/
structure Sessions (es : List Event) (t : LeaseTable) : Prop where
  increasing : (es.filterMap Event.issued).Pairwise fun p q => p.2.value < q.2.value
  ends : ∀ k s now, (k, s) ∈ es.filterMap Event.issued → ∀ tokenId,
    ((t.endSession tokenId s now).1 = true ↔ t.Active tokenId s) ∧
      (¬t.Active tokenId s → t.endSession tokenId s now = (false, t))
  once : ∀ s, es.countP (Event.ended s) ≤ 1
  late : ∀ before e after k s, es = before ++ e :: after →
    (k, s) ∈ before.filterMap Event.issued → e.Supersedes k s →
    ∀ tokenId now, t.endSession tokenId s now = (false, t)

theorem sessions_of_runs {t₀ : LeaseTable} {es : List Event} (hw : t₀.WellFormed)
    (h : Trace Runs t₀ es t) : Sessions es t where
  increasing := (serial_runs.issued_pairwise h).imp lt_iff_value_lt.mp
  ends _ _ _ _ _ := by
    refine ⟨⟨fun he => ?_, fun ha => (endSession_of_active ha).1⟩, endSession_of_inactive⟩
    by_contra ha
    rw [endSession_of_inactive ha] at he
    cases he
  once _ := serial_runs.dies_once h hw.sound Runs.ended
  late := by
    rintro before e after k s rfl hp hs tokenId now
    apply endSession_of_inactive
    obtain ⟨t₁, hbefore, hrest⟩ := h.of_append
    cases hrest with
    | cons he hafter =>
      rcases he.superseded hs with ⟨ha, hover⟩ | ⟨s', hi⟩
      · exact serial_runs.dies he (serial_runs.sound hbefore hw.sound) ha hover hafter
      · exact serial_runs.replaced hbefore hw.sound hp he hi hafter

end LeaseTable

namespace ServerState

open LeaseTable (Calms Opens)

variable {Conn : Type} {J : SerdeJson} {sha256 : Bytes32 → Bytes32} {k : TokenId} {s : SessionId}

theorem rotate_calms {server server' : ServerState Conn} {old new : TunnelToken} {now : UInt64}
    {io : SaveOutcome} {answer : Except ServerError (Option UInt16)}
    (h : server.rotate J sha256 old new now io = (answer, server')) :
    Calms server.leases server'.leases := by
  rcases rotate_cases h with
    ⟨-, rfl | ⟨store, rfl⟩⟩ | ⟨-, ⟨_, rfl, -, -⟩ | ⟨_, -, hrot, -⟩⟩
  · exact .refl _
  · exact .refl _
  · exact .refl _
  · exact .rotateClaim hrot

theorem recover_calms {server server' : ServerState Conn} {secret new : TunnelToken}
    {peerIp : IpAddr} {now : UInt64} {io : SaveOutcome}
    {answer : Except ServerError (UInt16 × Option Conn)}
    (h : server.recover J sha256 secret new peerIp now io = (answer, server')) :
    Calms server.leases server'.leases := by
  rcases recover_cases h with
    ⟨-, rfl | ⟨store, rfl⟩⟩ | ⟨-, result, hrec, ⟨-, rfl, -⟩ | ⟨-, hl, -⟩⟩
  · exact .refl _
  · exact .refl _
  · exact .refl _
  · exact .recoverClaim (Prod.ext hrec hl.symm)

theorem beginRegistration_calms {server server' : ServerState Conn} {token : TunnelToken}
    {peerIp : IpAddr} {now : UInt64} {answer : Except ServerError (List UInt16)}
    (h : server.beginRegistration sha256 token peerIp now = (answer, server')) :
    Calms server.leases server'.leases := by
  rcases beginRegistration_cases h with
    ⟨_, -, ⟨-, rfl⟩ | rfl⟩ | ⟨_, -, -, -, rfl⟩
  · exact .refl _
  · exact .reapExpired
  · exact .reapExpired

theorem commitRegistration_error_calms {server server' : ServerState Conn} {tokenId : TokenId}
    {recoveryId : Option TokenId} {peerIp : IpAddr} {now : UInt64} {connection : Option Conn}
    {port : UInt16} {io : SaveOutcome} {error : ServerError}
    (h : server.commitRegistration J tokenId recoveryId peerIp now connection port io =
      (.error error, server')) : Calms server.leases server'.leases := by
  rcases commitRegistration_cases h with
    ⟨_, -, rfl⟩ | ⟨_, _, _, _, -, -, -, rfl⟩ | ⟨_, -, he⟩
  · exact .refl _
  · exact .refl _
  · cases he

theorem endSession_calms {server server' : ServerState Conn} {now : UInt64} {io : SaveOutcome}
    {answer : Except ServerError Bool}
    (h : server.endSession J k s now io = (answer, server')) :
    Calms server.leases server'.leases := by
  rcases endSession_cases h with ⟨-, -, rfl⟩ | ⟨ht, hl, -⟩
  · exact .refl _
  · exact .endSession (Prod.ext ht hl.symm)

/-- `end` of a session that is not the active one returns `false`, and nothing happens. -/
theorem endSession_of_inactive {S : ServerState Conn} {now : UInt64} {io : SaveOutcome}
    (h : ¬S.leases.Active k s) : S.endSession J k s now io = (.ok false, S) := by
  obtain ⟨answer, S', he⟩ : ∃ answer S', S.endSession J k s now io = (answer, S') := ⟨_, _, rfl⟩
  rcases endSession_cases he with ⟨rfl, -, rfl⟩ | ⟨ht, -⟩
  · exact he
  · rw [LeaseTable.endSession_of_inactive h] at ht
    cases ht

/-- `end` of the active session ends it, whatever the save does. -/
theorem endSession_of_active {S S' : ServerState Conn} {now : UInt64} {io : SaveOutcome}
    {answer : Except ServerError Bool} (h : S.leases.Active k s)
    (he : S.endSession J k s now io = (answer, S')) :
    (answer = .ok true ∨ ∃ e, answer = .error e) ∧ ¬S'.leases.Active k s := by
  obtain ⟨ht, hover⟩ : (S.leases.endSession k s now).1 = true ∧ _ :=
    LeaseTable.endSession_of_active h
  rcases endSession_cases he with ⟨-, hf, -⟩ | ⟨-, hl, -, ⟨e, rfl, -⟩ | ⟨rfl, -⟩⟩
  · rw [ht] at hf
    cases hf
  · exact ⟨.inr ⟨_, rfl⟩, hl ▸ hover⟩
  · exact ⟨.inl rfl, hl ▸ hover⟩

/-- After a recovery moved the claim away, the session is over. -/
theorem recover_inactive {server server' : ServerState Conn} {secret new : TunnelToken}
    {peerIp : IpAddr} {now : UInt64} {io : SaveOutcome} {answer : UInt16 × Option Conn}
    {lease : Lease} (hw : server.leases.WellFormed)
    (hl : server.leases.leases.lookup k = some lease)
    (hk : lease.recoveryId = some (.fromToken sha256 secret)) (hne : .fromToken sha256 new ≠ k)
    (h : server.recover J sha256 secret new peerIp now io = (.ok answer, server')) :
    ¬server'.leases.Active k s := by
  intro ha
  obtain ⟨lease', hl', hs⟩ := (recover_calms h).active ha
  rw [hl] at hl'
  cases hl'
  -- an active lease does not expire, so it is the one the request finds
  have hx : lease.expired now = false := by simp only [Lease.expired, hs]
  have hr := LeaseTable.lookup_reapExpired.mpr ⟨hl, hx⟩
  have hwr : (server.leases.reapExpired now).WellFormed := hw.reapExpired
  rcases recover_cases h with
    ⟨⟨_, he⟩, -⟩ | ⟨-, result, hrec, ⟨hc, -, -⟩ | ⟨hc, hleases, -⟩⟩
  · cases he
  · rcases LeaseTable.recoverClaim_cases (Prod.ext hrec rfl) with
      ⟨_, _, -, he, -⟩ | ⟨-, ⟨_, he⟩ | ⟨l, hn, hkn, -⟩⟩
    · cases he; cases hc
    · cases he
    · exact hne (hwr.recoveryUnique hn hr hkn hk)
  · have hmove : server.leases.recoverClaim (.fromToken sha256 secret) (.fromToken sha256 new)
        peerIp now = (.ok result, server'.leases) := Prod.ext hrec hleases.symm
    rcases LeaseTable.recoverClaim_cases hmove with
      ⟨old, l, hre, -, ht⟩ | ⟨-, ⟨_, he⟩ | ⟨_, -, -, he⟩⟩
    · obtain rfl := hwr.recoveryUnique hre.held hr hre.enrolled hk
      obtain ⟨l', hl', -⟩ := ha
      rw [ht] at hl'
      rcases LeaseTable.lookup_moveClaim_eq_some.mp hl' with ⟨hn, -⟩ | ⟨-, ho, -⟩
      · exact hne hn.symm
      · exact ho rfl
    · cases he
    · cases he; cases hc

/-- What a relay starts with: a table that was restored, without sessions, and no connection. -/
theorem loadOrNew_ok {S : ServerState Conn} {store : LeaseStore} {now : UInt64} {io : LoadIo}
    (h : (loadOrNew J sha256 store now io).1 = .ok S) :
    S.leases.WellFormed ∧ (∀ k s, ¬S.leases.Active k s) ∧ S.activeConnections = ∅ := by
  obtain ⟨answer, store', hc⟩ : ∃ answer store', store.loadOrCreate J sha256 now io =
    (answer, store') := ⟨_, _, rfl⟩
  simp only [loadOrNew, hc] at h
  cases answer with
  | error e => cases h
  | ok table =>
    obtain rfl := Except.ok.inj h
    have hres := LeaseStore.loadOrCreate_restored hc
    refine ⟨?_, fun k s => LeaseTable.inactive_of_initial hres, rfl⟩
    rcases hres with hnew | ⟨records, hres⟩
    · rw [hnew]
      exact LeaseTable.wellFormed_new
    · exact LeaseTable.restore_wellFormed hres

end ServerState
end GameNet
