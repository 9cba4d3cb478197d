import GameNet.Durability
import GameNet.Sessions

/-!
# GameNet.Serving

Runs of the relay's shared state from `load_or_new` until the relay stops: any operations, at any
times, with any outcomes of binding and saving. The sessions are those of the registrations that
returned `Ok`. A registration whose save fails discards the staged table with the session it opened,
so the next one may open a session of the same id; the discarded one was not returned to anybody.
-/

namespace GameNet
namespace ServerState

open LeaseTable (Active Calms Opens WellFormed lastSession lt_iff_value_lt)

variable {Conn : Type}

/-- One operation at any time, on the leases in any iteration order. -/
inductive Serves (J : SerdeJson) (sha256 : Bytes32 → Bytes32) :
    ServerState Conn → Event Conn → ServerState Conn → Prop where
  | mk {S S' : ServerState Conn} {t : LeaseTable} {op : Op Conn} {now : UInt64}
      {io : SaveOutcome} {outcome : Outcome Conn} : S.leases.Same t →
      S.leases.nextSessionId = t.nextSessionId →
      perform J sha256 { S with leases := t } now io op = (outcome, S') →
      Serves J sha256 S ⟨op, now, io, outcome⟩ S'

/-- The relay has just been started on some state file. -/
def Loaded (J : SerdeJson) (sha256 : Bytes32 → Bytes32) (S : ServerState Conn) : Prop :=
  ∃ store now io, (loadOrNew J sha256 store now io).1 = .ok S

/-- The session a registration returned. -/
def Event.issued (e : Event Conn) : Option (TokenId × SessionId) :=
  match e.outcome with
  | .registered (.ok registration) => some (registration.tokenId, registration.sessionId)
  | _ => none

/-- The event ended the session `s`, whether it could save that or not. -/
def Event.ended (s : SessionId) (e : Event Conn) : Bool :=
  match e.op, e.outcome with
  | .endSession _ sessionId, .ended answer =>
    sessionId == s && (match answer with | .ok b => b | .error _ => true)
  | _, _ => false

variable {J : SerdeJson} {sha256 : Bytes32 → Bytes32} {S S' : ServerState Conn} {e : Event Conn}
  {k : TokenId} {s : SessionId}

/-- The event put an end to the session `s` of `k`: it ended it, it moved the claim that `k` has
in `S` to another token, or it registered the token again. -/
def Event.Supersedes (sha256 : Bytes32 → Bytes32) (S : ServerState Conn) (k : TokenId)
    (s : SessionId) (e : Event Conn) : Prop :=
  match e.op, e.outcome with
  | .endSession tokenId sessionId, .ended answer =>
    tokenId = k ∧ sessionId = s ∧ answer ≠ .ok false
  | .recover secret new _, .recovered (.ok _) => .fromToken sha256 new ≠ k ∧
    ∃ lease, S.leases.leases.lookup k = some lease ∧
      lease.recoveryId = some (.fromToken sha256 secret)
  | .register _ _ _ _ _, .registered (.ok registration) => registration.tokenId = k
  | _, _ => False

/-- A registration opens the session it returns, and none if it fails. -/
theorem register_opens {token : TunnelToken} {recoveryId : Option Bytes32} {peerIp : IpAddr}
    {now : UInt64} {connection : Option Conn} {bind : UInt16 → BindOutcome} {io : SaveOutcome}
    {answer : Except ServerError Registration}
    (h : S.registerWithRecovery J sha256 token recoveryId peerIp now connection bind io =
      (answer, S')) :
    match answer with
    | .error _ => S.leases.Calms S'.leases
    | .ok registration => S.leases.Opens S'.leases registration.tokenId registration.sessionId := by
  rcases registerWithRecovery_cases h with
    ⟨⟨e, rfl⟩, ⟨-, rfl⟩ | rfl | ⟨store, rfl⟩⟩ | ⟨_, port, _, sessionId, -, -, -, -, hr, rfl⟩
  · exact .refl _
  · exact .reapExpired
  · exact .reapExpired
  · exact .activate hr.activated

/-- An operation that returns no session opens none. -/
theorem perform_calms {op : Op Conn} {now : UInt64} {io : SaveOutcome} {outcome : Outcome Conn}
    (h : perform J sha256 S now io op = (outcome, S'))
    (hi : Event.issued ⟨op, now, io, outcome⟩ = none) : S.leases.Calms S'.leases := by
  cases op with
  | register token recoveryId peerIp connection bind =>
    obtain ⟨answer, hr, rfl⟩ := perform_register h
    have ho := register_opens hr
    cases answer with
    | error e => exact ho
    | ok registration => cases hi
  | endSession tokenId sessionId =>
    obtain ⟨answer, he, -⟩ := perform_endSession h
    exact endSession_calms he
  | rotate old new =>
    obtain ⟨answer, hr, -⟩ := perform_rotate h
    exact rotate_calms hr
  | recover secret new peerIp =>
    obtain ⟨answer, hr, -⟩ := perform_recover h
    exact recover_calms hr
  | refreshAndSave =>
    obtain ⟨answer, hr, -⟩ := perform_refresh h
    obtain ⟨hl, -, -⟩ := refreshAndSave_cases hr
    rw [hl]
    exact .reapExpired

theorem perform_opens {op : Op Conn} {now : UInt64} {io : SaveOutcome} {outcome : Outcome Conn}
    (h : perform J sha256 S now io op = (outcome, S'))
    (hi : Event.issued ⟨op, now, io, outcome⟩ = some (k, s)) :
    S.leases.Opens S'.leases k s := by
  cases op with
  | register token recoveryId peerIp connection bind =>
    obtain ⟨answer, hr, rfl⟩ := perform_register h
    have ho := register_opens hr
    cases answer with
    | error e => cases hi
    | ok registration =>
      cases hi
      exact ho
  | endSession | rotate | recover | refreshAndSave =>
    cases h
    cases hi

/-- The sessions of a relay are serial numbers. -/
theorem serial_serves : Serial (Serves J sha256) (fun S : ServerState Conn => S.leases.lastSession)
    (fun S => S.leases.Active) Event.issued where
  calm h hi := by
    obtain ⟨hsame, hn, hp⟩ := h
    obtain ⟨hc, ha⟩ := (perform_calms hp hi).serial
    exact ⟨hc.trans (congrArg SessionId.mk hn.symm), fun h => (Active.same hsame).mpr (ha h)⟩
  fresh h hi := by
    obtain ⟨hsame, hn, hp⟩ := h
    obtain ⟨hlt, hc, ha⟩ := (perform_opens hp hi).serial
    refine ⟨lt_of_eq_of_lt (congrArg SessionId.mk hn) hlt, hc, fun h => ?_⟩
    rw [Active.same hsame]
    exact ha h

theorem Serves.wellFormed (hw : S.leases.WellFormed) (h : Serves J sha256 S e S') :
    S'.leases.WellFormed := by
  obtain ⟨hsame, hn, hp⟩ := h
  exact (perform_settles (hsame.wellFormed hn hw) hp).2

/-- An event that puts an end to a session leaves it inactive, or registers its token again. -/
theorem Serves.superseded (hw : S.leases.WellFormed) (h : Serves J sha256 S e S')
    (hs : e.Supersedes sha256 S k s) :
    ¬S'.leases.Active k s ∨ ∃ s', e.issued = some (k, s') := by
  obtain @⟨_, t, op, now, io, outcome, hsame, hn, hp⟩ := h
  have hw := hsame.wellFormed hn hw
  cases op with
  | register token recoveryId peerIp connection bind =>
    obtain ⟨answer, -, rfl⟩ := perform_register hp
    cases answer with
    | error e => exact hs.elim
    | ok registration =>
      obtain rfl := hs
      exact .inr ⟨registration.sessionId, rfl⟩
  | endSession tokenId sessionId =>
    obtain ⟨answer, he, rfl⟩ := perform_endSession hp
    obtain ⟨rfl, rfl, hne⟩ := hs
    by_cases ha : t.Active tokenId sessionId
    · exact .inl (endSession_of_active ha he).2
    · rw [endSession_of_inactive ha] at he
      cases he
      exact absurd rfl hne
  | recover secret new peerIp =>
    obtain ⟨answer, hr, rfl⟩ := perform_recover hp
    cases answer with
    | error e => exact hs.elim
    | ok answer =>
      obtain ⟨hne, lease, hl, hk⟩ := hs
      rw [hsame.leases] at hl
      exact .inl (recover_inactive hw hl hk hne hr)
  | rotate | refreshAndSave => exact hs.elim

/-- The event that ended a session found it active. -/
theorem Serves.ended (h : Serves J sha256 S e S') (hs : e.ended s = true) :
    ∃ k, S.leases.Active k s ∧ ¬S'.leases.Active k s := by
  obtain @⟨_, t, op, now, io, outcome, hsame, hn, hp⟩ := h
  cases op with
  | endSession tokenId sessionId =>
    obtain ⟨answer, he, rfl⟩ := perform_endSession hp
    simp only [Event.ended, Bool.and_eq_true, beq_iff_eq] at hs
    obtain ⟨rfl, hb⟩ := hs
    by_cases ha : t.Active tokenId sessionId
    · exact ⟨tokenId, (Active.same hsame).mpr ha, (endSession_of_active ha he).2⟩
    · rw [endSession_of_inactive ha] at he
      cases he
      cases hb
  | register | rotate | recover | refreshAndSave => cases hs

/-- What the sessions of a relay that has performed the events `es` can rely on. -/
structure Sessions (J : SerdeJson) (es : List (Event Conn)) (S : ServerState Conn) : Prop where
  increasing : (es.filterMap Event.issued).Pairwise fun p q => p.2.value < q.2.value
  ends : ∀ k s, (k, s) ∈ es.filterMap Event.issued → ∀ tokenId now io,
    (S.leases.Active tokenId s →
        (S.endSession J tokenId s now io).1 = .ok true ∨
          ∃ e, (S.endSession J tokenId s now io).1 = .error e) ∧
      (¬S.leases.Active tokenId s → S.endSession J tokenId s now io = (.ok false, S))
  once : ∀ s, es.countP (Event.ended s) ≤ 1

theorem sessions_of_serves {es : List (Event Conn)} (hw : S.leases.WellFormed)
    (h : Trace (Serves J sha256) S es S') : Sessions J es S' where
  increasing := (serial_serves.issued_pairwise h).imp lt_iff_value_lt.mp
  ends _ _ _ _ _ _ := ⟨fun ha => (endSession_of_active ha rfl).1, endSession_of_inactive⟩
  once _ := serial_serves.dies_once h hw.sound.part Serves.ended

/-- **Late cleanup never touches a newer session.** In every run of a table, and of a relay whose
saves may fail, the sessions returned increase; `end` ends the session it is given exactly when that
is the active one of the token, at most once; and after a session was ended, displaced by a
recovery or followed by another of its token, ending it does nothing. -/
theorem late_cleanup :
    (∀ (t₀ : LeaseTable) (clock : UInt64) (es : List LeaseTable.Event) (t : LeaseTable),
      LeaseTable.Initial ⟨t₀, clock⟩ → Trace LeaseTable.Runs t₀ es t →
      LeaseTable.Sessions es t) ∧
    ∀ (J : SerdeJson) (sha256 : Bytes32 → Bytes32) (S₀ : ServerState Conn)
      (before : List (Event Conn)) (S₁ : ServerState Conn), Loaded J sha256 S₀ →
      Trace (Serves J sha256) S₀ before S₁ → Sessions J before S₁ ∧
        ∀ e S₂ after S k s, Serves J sha256 S₁ e S₂ → Trace (Serves J sha256) S₂ after S →
          (k, s) ∈ before.filterMap Event.issued → e.Supersedes sha256 S₁ k s →
          ∀ tokenId now io, S.endSession J tokenId s now io = (.ok false, S) := by
  constructor
  · intro t₀ clock es t h₀ h
    exact LeaseTable.sessions_of_runs h₀.wellFormed h
  · intro J sha256 S₀ before S₁ h₀ h
    obtain ⟨store, now, io, hload⟩ := h₀
    obtain ⟨hw₀, -, -⟩ := loadOrNew_ok hload
    refine ⟨sessions_of_serves hw₀ h, ?_⟩
    intro e S₂ after S k s he hafter hp hs tokenId now io
    have hw : S₁.leases.WellFormed :=
      h.invariant (I := fun S => S.leases.WellFormed) (fun _ _ _ hw h => h.wellFormed hw) hw₀
    apply endSession_of_inactive
    rcases he.superseded hw hs with hover | ⟨s', hi⟩
    · -- the session is the owner's alone, so it is over for every token
      have hn := (serial_serves.mem_issued h hp).2
      refine serial_serves.gone hafter (hn.trans (serial_serves.step_old he).1) fun ha => ?_
      obtain rfl := serial_serves.owner (h.snoc he) hw₀.sound.part
        (by rw [List.filterMap_append]; exact List.mem_append_left _ hp) ha
      exact hover ha
    · exact serial_serves.replaced h hw₀.sound.part hp he hi hafter

/-- The host of token 1 is displaced by a recovery, which its new token follows up. -/
theorem late_cleanup_displaced :
    ∃ t : LeaseTable, t.Active (.filled 2) ⟨2⟩ ∧
      ∀ tokenId now, t.endSession tokenId ⟨1⟩ now = (false, t) := by
  let ip : IpAddr := .v4 ⟨.replicate 4 10⟩
  have hrun : Trace LeaseTable.Runs .new _ _ :=
    .cons (.of_perform _ (.activateWithRecovery (.filled 1) (some (.filled 100)) ip 10000) 1000
      (by simp)) <|
    .cons (.of_perform _ (.recoverClaim (.filled 100) (.filled 2) ip) 1001 (by simp)) <|
    .single (.of_perform _ (.activateWithRecovery (.filled 2) (some (.filled 100)) ip 10000) 1002
      (by simp))
  have hsessions := (@late_cleanup Unit).1 .new 0 _ _ (.inl rfl) hrun
  exact ⟨_, ⟨_, rfl, rfl⟩, hsessions.late [_] _ [_] (.filled 1) ⟨1⟩ rfl (by decide) rfl⟩

end ServerState
end GameNet
