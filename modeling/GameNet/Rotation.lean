import GameNet.Recovery
import GameNet.Revoked
import GameNet.ServerState

/-!
# GameNet.Rotation

Routine rotation. The relay lets a claim be rotated while its retired list is empty, and nothing
ever empties the list: a rotation and a recovery put a token there, a reconnect and a restart keep
it. So a claim is rotated at most once, and when one of several competing requests has won, the
others are refused (`rotated_once`).

A recovery puts a token there too, so a claim that was recovered cannot be rotated at all, with
the error of one that was rotated (`rotation_available`, `not_rotation_available`).

A request that is repeated finds its first run's traces: the new token's lease lists the old token,
or is the one with the recovery key (`retries`).
-/

namespace GameNet
namespace LeaseTable

/-- Whether the claim is rotated, as a number. -/
def Effect.rotations : Effect → Nat
  | .rotate _ => 1
  | _ => 0

/-- Whether the claim is recovered, as a number. -/
def Effect.recoveries : Effect → Nat
  | .recover _ _ _ => 1
  | _ => 0

/-- How often the claim is rotated in the events. -/
def Claim.rotations (c : Claim) : List Event → Nat
  | [] => 0
  | e :: es => (e.effect c.token c.lease.port).rotations + (c.next e).rotations es

/-- How often the claim is recovered in the events. -/
def Claim.recoveries (c : Claim) : List Event → Nat
  | [] => 0
  | e :: es => (e.effect c.token c.lease.port).recoveries + (c.next e).recoveries es

variable {t t' : LeaseTable} {port : UInt16} {c : Claim} {now later : UInt64}
  {s s' s'' : RunState} {e : Event} {es : List Event} {x old new recoveryId : TokenId}
  {lease : Lease} {peerIp : IpAddr}

/-! ## The retired list -/

theorem Claim.moves_eq : c.moves es = c.rotations es + c.recoveries es := by
  induction es generalizing c with
  | nil => rfl
  | cons e es ih =>
    simp only [moves, rotations, recoveries, ih, Event.moves]
    cases e.effect c.token c.lease.port with
    | rotate new => simp only [Effect.moves, Effect.rotations, Effect.recoveries]; omega
    | recover new peerIp now =>
      simp only [Effect.moves, Effect.rotations, Effect.recoveries]; omega
    | _ => simp only [Effect.moves, Effect.rotations, Effect.recoveries]; omega

/-- A token on the list is there until eight recoveries later, so the list is not empty again. -/
theorem Claim.retired_next (h : c.lease.retiredTokenIds ≠ []) :
    (c.next e).lease.retiredTokenIds ≠ [] := by
  unfold Claim.next
  cases e.effect c.token c.lease.port with
  | rotate new => simp [Claim.apply]
  | recover new peerIp now =>
    obtain ⟨before, hb⟩ := retire_eq c.lease.retiredTokenIds c.token
    simp [Claim.apply, recoveredLease, hb]
  | _ => exact h

theorem Claim.retired_foldl (h : c.lease.retiredTokenIds ≠ []) :
    (es.foldl Claim.next c).lease.retiredTokenIds ≠ [] := by
  induction es generalizing c with
  | nil => exact h
  | cons e es ih => exact ih (retired_next h)

/-- The list fills up when the claim moves. -/
theorem Claim.retired_next_iff (h : c.lease.retiredTokenIds = []) :
    (c.next e).lease.retiredTokenIds = [] ↔ e.moves c = 0 := by
  unfold Claim.next Event.moves
  cases e.effect c.token c.lease.port with
  | rotate new => simp [Claim.apply, Effect.moves]
  | recover new peerIp now =>
    obtain ⟨before, hb⟩ := retire_eq c.lease.retiredTokenIds c.token
    simp [Claim.apply, recoveredLease, Effect.moves, hb]
  | _ => simp [Claim.apply, activeLease, Effect.moves, h]

theorem Claim.retired_foldl_iff (h : c.lease.retiredTokenIds = []) :
    (es.foldl Claim.next c).lease.retiredTokenIds = [] ↔ c.moves es = 0 := by
  induction es generalizing c with
  | nil => simp [Claim.moves, h]
  | cons e es ih =>
    rw [List.foldl_cons, Claim.moves, Nat.add_eq_zero_iff, ← retired_next_iff h]
    by_cases hn : (c.next e).lease.retiredTokenIds = []
    · rw [ih hn, and_iff_right hn]
    · exact ⟨fun hf => absurd hf (retired_foldl hn), fun hf => absurd hf.1 hn⟩

/-! ## At most one rotation -/

theorem rotations_of_retired (hw : s.table.WellFormed) (h : s.table.Holds port c)
    (ht : Trace (LiveStep port) s es s') (hr : c.lease.retiredTokenIds ≠ []) :
    c.rotations es = 0 := by
  induction ht generalizing c with
  | refl => rfl
  | @cons s s' s'' e es hs _ ih =>
    have hrest := ih (hs.1.wellFormed hw) (hs.holds hw h) (Claim.retired_next hr)
    have hnot := fun new => not_rotate new hw h hs hr
    simp only [Claim.rotations, hrest]
    cases heff : e.effect c.token c.lease.port with
    | rotate new => exact absurd heff (hnot new)
    | _ => rfl

theorem rotations_le_one (hw : s.table.WellFormed) (h : s.table.Holds port c)
    (ht : Trace (LiveStep port) s es s') : c.rotations es ≤ 1 := by
  induction ht generalizing c with
  | refl => exact Nat.zero_le _
  | @cons s s' s'' e es hs htail ih =>
    have hw' := hs.1.wellFormed hw
    have h' := hs.holds hw h
    cases heff : e.effect c.token c.lease.port with
    | rotate new =>
      -- the rotation puts a token on the list
      have hr : (c.next e).lease.retiredTokenIds ≠ [] := by simp [Claim.next, heff, Claim.apply]
      simp [Claim.rotations, heff, Effect.rotations, rotations_of_retired hw' h' htail hr]
    | _ => simpa [Claim.rotations, heff, Effect.rotations] using ih hw' h'

/-- A rotation from a retired token fails, but for the one that retired it. -/
theorem rotateClaim_retired (hw : t.WellFormed) (h : t.Holds port c)
    (hx : c.lease.expired now = false) (hold : old ∈ c.lease.retiredTokenIds)
    (hne : x ≠ c.token) :
    ∃ e, t.rotateClaim old x now = (.error e, t.reapExpired now) := by
  have hr := h.reapExpired hx
  have hold' : (t.reapExpired now).isRetired old = true :=
    isRetired_eq_true.mpr ⟨_, _, hr.1, hold⟩
  simp only [rotateClaim]
  split
  · exact ⟨_, rfl⟩
  · split
    · rename_i lease hl
      have hno : lease.retiredTokenIds.contains old = false := by
        rw [← Bool.not_eq_true, List.contains_iff_mem]
        intro hm
        exact hne (hw.reapExpired.retiredUnique hl hr.1 hm hold)
      simp only [hno, Bool.false_eq_true, if_false]
      exact ⟨_, rfl⟩
    · -- `x` was retired, or else `old` was
      split
      · exact ⟨_, rfl⟩
      · exact ⟨_, rfl⟩

/-- **A claim is rotated at most once, and only one competitor can win.** When a rotation away
from the token `old` has gone through, then, as long as the claim lives and lists `old`, every
rotation from `old` to another token than the claim's fails and leaves the live claims as they
are. -/
theorem rotated_once (h₀ : Reachable s) (h : s.table.Holds port c)
    (ht : Trace (LiveStep port) s es s') :
    c.rotations es ≤ 1 ∧
      ∀ before e after winner, es = before ++ e :: after →
        e.effect (before.foldl Claim.next c).token port = .rotate winner →
        (before.foldl Claim.next c).token ∈ (es.foldl Claim.next c).lease.retiredTokenIds →
        ∀ now x, (es.foldl Claim.next c).lease.expired now = false →
          x ≠ (es.foldl Claim.next c).token →
          ∃ err, s'.table.rotateClaim (before.foldl Claim.next c).token x now =
            (.error err, s'.table.reapExpired now) := by
  have hw := reachable_wellFormed h₀
  obtain ⟨hw', h'⟩ := follow hw h ht
  refine ⟨rotations_le_one hw h ht, ?_⟩
  intro before e after winner _ _ hold now x hx hne
  exact rotateClaim_retired hw' h' hx hold hne

/-- The host leaves and rotates to token 2; a competitor asks for token 3. -/
theorem rotated_once_one_winner :
    ∃ t : LeaseTable, ∃ err, t.rotateClaim (.filled 1) (.filled 3) 2002 =
      (.error err, t.reapExpired 2002) := by
  have hlive := hosted_run
    [(2000, .endSession (.filled 1) ⟨1⟩), (2001, .rotateClaim (.filled 1) (.filled 2))] rfl rfl
  have hleft := hosted_run [(2000, .endSession (.filled 1) ⟨1⟩)] rfl rfl
  exact ⟨_, (rotated_once hosted_reachable hosted_holds hlive).2
    (RunState.run ⟨hosted, 1000⟩ [(2000, .endSession (.filled 1) ⟨1⟩)]).1 _ [] (.filled 2) rfl rfl
    (by decide) 2002 (.filled 3) rfl (by decide)⟩

/-! ## A claim that was not rotated yet -/

/-- The claim on `port` is new: its token has just been activated for the first time, or the claim
was loaded with no retired token, as a migration leaves it. -/
inductive Created (s : RunState) (port : UInt16) (c : Claim) : Prop where
  | activated {s₀ : RunState} {presented : Option TokenId} {peerIp : IpAddr}
      {sessionId : SessionId} {now : UInt64} : Reachable s₀ →
      (s₀.table.reapExpired now).leases.lookup c.token = none →
      Step s₀
        ⟨.activateWithRecovery c.token presented peerIp port, now, .activated (.ok sessionId)⟩ s →
      c.lease = activeLease none presented peerIp port sessionId → Created s port c
  | restored {records : List LeaseRecord} : restore records s.clock = .ok s.table →
      s.table.Holds port c → c.lease.retiredTokenIds = [] → Created s port c

/-- The rotation goes through. From then on, as long as the claim lives, the new token is offered
the port and no other from the source it is charged to, and the old token is refused. -/
structure Rotated (t t' : LeaseTable) (port : UInt16) (c : Claim) (new : TokenId) (now : UInt64) :
    Prop where
  succeeds : t.rotateClaim c.token new now = (.ok (.transferred port), t')
  offered : ∀ later ip, now ≤ later → c.lease.expired later = false →
    c.lease.source = some (HostSource.ofIp ip) → (t'.candidatePorts new ip later).1 = .ok [port]
  refused : ∀ later ip, now ≤ later → c.lease.expired later = false →
    ∃ e, (t'.candidatePorts c.token ip later).1 = .error e

theorem Created.start (h : Created s port c) :
    Reachable s ∧ s.table.Holds port c ∧ c.lease.retiredTokenIds = [] := by
  cases h with
  | @activated s₀ presented peerIp sessionId now h₀ hnone hs hc =>
    refine ⟨h₀.next hs, ?_, by rw [hc]; rfl⟩
    obtain ⟨hsame, -, -, -, hp⟩ := hs
    obtain ⟨r, hq, hr⟩ := perform_activate hp
    cases hr
    obtain ⟨_, he, -⟩ | ⟨s', he, -, rfl⟩ := activateWithRecovery_cases hq
    · cases he
    · cases he
      rw [(hsame.reapExpired now).leases] at hnone
      refine ⟨?_, by rw [hc]; rfl⟩
      rw [hc, hnone]
      exact AList.lookup_insert _
  | restored hres hc hr => exact ⟨.of_init (.inr ⟨_, hres⟩), hc, hr⟩

/-- A claim that nothing has retired a token of can be rotated when nobody hosts with it. -/
theorem Holds.rotated {deadline : UInt64} (hw : t.WellFormed) (h : t.Holds port c)
    (hs : c.lease.status = .grace deadline) (hx : c.lease.expired now = false)
    (hr : c.lease.retiredTokenIds = []) (hne : new ≠ c.token)
    (hn : (t.reapExpired now).leases.lookup new = none)
    (hnr : (t.reapExpired now).isRetired new = false) : ∃ t', Rotated t t' port c new now := by
  have hlive := h.reapExpired hx
  obtain ⟨t', hok, hmoved⟩ : ∃ t', t.rotateClaim c.token new now =
      (.ok (.transferred c.lease.port), t') ∧
      t'.Holds port ⟨new, { c.lease with retiredTokenIds := [c.token] }⟩ :=
    ⟨_, rotateClaim_ok ⟨hlive.1, ⟨deadline, hs⟩, hr, hne.symm, hn, hnr,
      hw.reapExpired.isRetired_key hlive.1⟩, lookup_moveClaim, hlive.2⟩
  have hw' := hw.rotateClaim hok
  refine ⟨t', by rw [hok, hlive.2], ?_, ?_⟩
  · intro later ip _ hx' hsource
    exact hmoved.offered hw' hs hx' (.inl hsource)
  · intro later ip _ hx'
    exact ⟨_, hmoved.refused hx' (List.mem_singleton.mpr rfl) ip⟩

/-- **Routine rotation is available to a claim exactly until its first recovery.** Take a claim
that was not rotated since it was created, with nobody hosting, and a token that is neither a key
nor retired: the rotation to it goes through if and only if the claim was not recovered either. -/
theorem rotation_available {deadline : UInt64} (h : Created s port c)
    (ht : Trace (LiveStep port) s es s') (hrot : c.rotations es = 0)
    (hs : (es.foldl Claim.next c).lease.status = .grace deadline)
    (hx : (es.foldl Claim.next c).lease.expired now = false)
    (hne : new ≠ (es.foldl Claim.next c).token)
    (hn : (s'.table.reapExpired now).leases.lookup new = none)
    (hnr : (s'.table.reapExpired now).isRetired new = false) :
    (∃ t', Rotated s'.table t' port (es.foldl Claim.next c) new now) ↔ c.recoveries es = 0 := by
  obtain ⟨h₀, hc, hempty⟩ := h.start
  obtain ⟨hw', h'⟩ := follow (reachable_wellFormed h₀) hc ht
  have hmoves : c.recoveries es = c.moves es := by rw [Claim.moves_eq, hrot, Nat.zero_add]
  rw [hmoves, ← Claim.retired_foldl_iff hempty]
  constructor
  · rintro ⟨t', hrotated⟩
    obtain ⟨lease, hr, -, -⟩ | ⟨-, hb⟩ := rotateClaim_cases hrotated.succeeds
    · have hl := hr.held
      rw [(h'.reapExpired hx).1] at hl
      cases hl
      exact hr.unrotated
    · obtain ⟨_, hb⟩ | ⟨_, _, _, hb⟩ | ⟨_, _, hb⟩ := hb <;> cases hb
  · intro hr
    exact h'.rotated hw' hs hx hr hne hn hnr

theorem hosted_created : Created ⟨hosted, 1000⟩ 10000 hostedClaim :=
  .activated (reachable_new 0) rfl
    (Step.of_perform .new 0
      (.activateWithRecovery (.filled 1) (some (.filled 100)) hostIp 10000) 1000 (by decide)
      (by decide)) rfl

/-- The host leaves and rotates to token 2. -/
theorem rotation_available_first_time :
    ∃ t t' c, Rotated t t' 10000 c (.filled 2) 2001 := by
  have hlive := hosted_run [(2000, .endSession (.filled 1) ⟨1⟩)] rfl rfl
  have havail : (∃ t', Rotated _ t' 10000 _ (.filled 2) 2001) ↔ _ :=
    rotation_available hosted_created hlive rfl rfl rfl (by decide) rfl rfl
  obtain ⟨t', hrotated⟩ := havail.mpr rfl
  exact ⟨_, t', _, hrotated⟩

/-- Rotation is not available to every claim that was not rotated: when the host of token 1 has
recovered its claim with token 2, the claim cannot be rotated to token 3. -/
theorem not_rotation_available :
    ¬∀ (s s' : RunState) (port : UInt16) (c : Claim) (es : List Event) (new : TokenId)
      (deadline now : UInt64), Created s port c → Trace (LiveStep port) s es s' →
      c.rotations es = 0 → (es.foldl Claim.next c).lease.status = .grace deadline →
      (es.foldl Claim.next c).lease.expired now = false → new ≠ (es.foldl Claim.next c).token →
      (s'.table.reapExpired now).leases.lookup new = none →
      (s'.table.reapExpired now).isRetired new = false →
      ∃ t', Rotated s'.table t' port (es.foldl Claim.next c) new now := by
  intro hclaim
  have hlive := hosted_run [(1001, .recoverClaim (.filled 100) (.filled 2) hostIp)] rfl rfl
  obtain ⟨t', hrotated⟩ := hclaim _ _ _ _ _ (.filled 3) _ 1002 hosted_created hlive rfl rfl rfl
    (by decide) rfl rfl
  have hok : ((RunState.run ⟨hosted, 1000⟩
      [(1001, .recoverClaim (.filled 100) (.filled 2) hostIp)]).2.table.rotateClaim (.filled 2)
      (.filled 3) 1002).1.isOk = false := rfl
  rw [show (LeaseTable.rotateClaim _ (.filled 2) (.filled 3) 1002).1 = _ from
    congrArg Prod.fst hrotated.succeeds] at hok
  cases hok

/-! ## Requests that are repeated -/

/-- A rotation to the token of the claim, which lists the old token, has been done. -/
theorem Holds.rotateClaim_again (h : t.Holds port c) (hx : c.lease.expired now = false)
    (hold : old ∈ c.lease.retiredTokenIds) (hne : old ≠ c.token) :
    t.rotateClaim old c.token now = (.ok (.unchanged (some port)), t.reapExpired now) := by
  have hr := h.reapExpired hx
  simp [rotateClaim, hne, hr.1, hold, ← hr.2]

/-- A recovery to the token of the claim with the recovery key has been done. -/
theorem Holds.recoverClaim_again (hw : t.WellFormed) (h : t.Holds port c)
    (hx : c.lease.expired now = false) (hkey : c.lease.recoveryId = some recoveryId) :
    t.recoverClaim recoveryId c.token peerIp now =
      (.ok { port := port, displaced := none, changed := false }, t.reapExpired now) := by
  have hr := h.reapExpired hx
  have hf : (t.reapExpired now).leases.find? (fun _ lease => lease.recoveryId == some recoveryId) =
      some (c.token, c.lease) :=
    KeyedMap.find?_of_unique hr.1 (by simp [hkey]) fun k l hl hk =>
      hw.reapExpired.recoveryUnique hl hr.1 (by simpa using hk) hkey
  simp [recoverClaim, hf, hr.2]

/-- A claim that is neither rotated nor recovered keeps its token and its retired list. -/
theorem Claim.foldl_of_not_moved (h : c.moves es = 0) :
    (es.foldl Claim.next c).token = c.token ∧
      (es.foldl Claim.next c).lease.retiredTokenIds = c.lease.retiredTokenIds := by
  induction es generalizing c with
  | nil => exact ⟨rfl, rfl⟩
  | cons e es ih =>
    rw [moves, Nat.add_eq_zero_iff] at h
    have hnext : (c.next e).token = c.token ∧
        (c.next e).lease.retiredTokenIds = c.lease.retiredTokenIds := by
      have h₁ := h.1
      unfold Event.moves at h₁
      unfold Claim.next
      cases heff : e.effect c.token c.lease.port with
      | rotate new => simp [heff, Effect.moves] at h₁
      | recover new peerIp now => simp [heff, Effect.moves] at h₁
      | _ => exact ⟨rfl, rfl⟩
    rw [List.foldl_cons, ← hnext.1, ← hnext.2]
    exact ih h.2

/-- The rotation from `old` to `new` is answered with the port, by the table and by a relay that
holds it, and nothing changes but for the leases that have expired. -/
structure RotationRepeats (t : LeaseTable) (old new : TokenId) (port : UInt16) (now : UInt64) :
    Prop where
  table : t.rotateClaim old new now = (.ok (.unchanged (some port)), t.reapExpired now)
  server : ∀ {Conn : Type} (J : SerdeJson) (sha256 : Bytes32 → Bytes32) (s : ServerState Conn)
    (oldToken newToken : TunnelToken) (io : SaveOutcome), s.leases = t →
    s.persistenceHealthy = true → .fromToken sha256 oldToken = old →
    .fromToken sha256 newToken = new →
    s.rotate J sha256 oldToken newToken now io = (.ok (some port), s)

/-- The recovery with `recoveryId` to `new` is answered with the port, and displaces nobody. -/
structure RecoveryRepeats (t : LeaseTable) (recoveryId new : TokenId) (port : UInt16)
    (peerIp : IpAddr) (now : UInt64) : Prop where
  table : t.recoverClaim recoveryId new peerIp now =
    (.ok { port := port, displaced := none, changed := false }, t.reapExpired now)
  server : ∀ {Conn : Type} (J : SerdeJson) (sha256 : Bytes32 → Bytes32) (s : ServerState Conn)
    (secret newToken : TunnelToken) (io : SaveOutcome), s.leases = t →
    s.persistenceHealthy = true → .fromToken sha256 secret = recoveryId →
    .fromToken sha256 newToken = new →
    s.recover J sha256 secret newToken peerIp now io = (.ok (port, none), s)

theorem RotationRepeats.of_table
    (h : t.rotateClaim old new now = (.ok (.unchanged (some port)), t.reapExpired now)) :
    t.RotationRepeats old new port now where
  table := h
  server J sha256 s oldToken newToken io ht hh ho hn := by
    simp [ServerState.rotate, hh, ho, hn, ht, h]

theorem RecoveryRepeats.of_table
    (h : t.recoverClaim recoveryId new peerIp now =
      (.ok { port := port, displaced := none, changed := false }, t.reapExpired now)) :
    t.RecoveryRepeats recoveryId new port peerIp now where
  table := h
  server J sha256 s secret newToken io ht hh hs hn := by
    simp [ServerState.recover, hh, hs, hn, ht, h]

theorem next_of_transferred (hop : e.op = .rotateClaim c.token new)
    (hout : e.outcome = .rotated (.ok (.transferred port))) :
    c.next e = ⟨new, { c.lease with retiredTokenIds := [c.token] }⟩ := by
  simp [Claim.next, Event.effect, hop, hout, Claim.apply]

/-- A claim that a recovery answers for has its key. -/
theorem recovered_key {result : RecoveryResult} (hw : s.table.WellFormed)
    (h : s.table.Holds port c) (hs : LiveStep port s e s')
    (hop : e.op = .recoverClaim recoveryId new peerIp)
    (hout : e.outcome = .recovered (.ok result)) (hport : result.port = port) :
    c.lease.recoveryId = some recoveryId := by
  have hx : c.lease.expired e.now = false := by simpa only [Claim.lapses, hop] using hs.2 c h
  have hr := h.reapExpired hx
  have ho := (hs.1.agree hw).1
  rw [hop, hout] at ho
  obtain ⟨r, hq, hout'⟩ := perform_recover (Prod.ext ho rfl)
  cases hout'
  -- the answer is about a lease on the port, and there is one
  have key : ∀ {k lease}, (s.table.reapExpired e.now).leases.lookup k = some lease →
      lease.recoveryId = some recoveryId → lease.port = port →
      c.lease.recoveryId = some recoveryId := by
    intro k lease hl hk hp
    obtain rfl : c = ⟨k, lease⟩ := hr.unique hw.reapExpired ⟨hl, hp⟩
    exact hk
  obtain ⟨old, lease, hre, he, -⟩ | ⟨-, ⟨e, he⟩ | ⟨lease, hl, hk, he⟩⟩ := recoverClaim_cases hq
  · cases he
    exact key hre.held hre.enrolled hport
  · cases he
  · cases he
    exact key hl hk hport

/-- **A transfer request can be repeated.** When a rotation has gone through, or a recovery was
answered, and its acknowledgement was lost, the same request is answered with the same port at any
later time while the claim lives and has not gone on to another token, whatever its host and others
have done since; and no live lease changes. -/
theorem retries (h₀ : Reachable s) (h : s.table.Holds port c) (hs : LiveStep port s e s')
    (ht : Trace (LiveStep port) s' es s'') :
    (∀ new, e.op = .rotateClaim c.token new →
      e.outcome = .rotated (.ok (.transferred port)) → (c.next e).recoveries es = 0 →
      ∀ now, (es.foldl Claim.next (c.next e)).lease.expired now = false →
        s''.table.RotationRepeats c.token new port now) ∧
      ∀ recoveryId new peerIp result, e.op = .recoverClaim recoveryId new peerIp →
        e.outcome = .recovered (.ok result) → result.port = port →
        (es.foldl Claim.next (c.next e)).token = new →
        ∀ peerIp now, (es.foldl Claim.next (c.next e)).lease.expired now = false →
          s''.table.RecoveryRepeats recoveryId new port peerIp now := by
  have hw := reachable_wellFormed h₀
  have hw₁ := hs.1.wellFormed hw
  have h₁ := hs.holds hw h
  obtain ⟨hw₂, h₂⟩ := follow hw₁ h₁ ht
  constructor
  · intro new hop hout hrec now hx
    have hnext := next_of_transferred hop hout
    have hrot : (c.next e).rotations es = 0 :=
      rotations_of_retired hw₁ h₁ ht (by rw [hnext]; exact List.cons_ne_nil _ _)
    have hmoves : (c.next e).moves es = 0 := by rw [Claim.moves_eq, hrot, hrec]
    obtain ⟨htoken, hlist⟩ := Claim.foldl_of_not_moved hmoves
    simp only [hnext] at htoken hlist
    have hold : c.token ∈ (es.foldl Claim.next (c.next e)).lease.retiredTokenIds := by
      rw [hnext, hlist]
      exact List.mem_singleton.mpr rfl
    have hne : c.token ≠ (es.foldl Claim.next (c.next e)).token := by
      intro he
      rw [he] at hold
      exact hw₂.keyNotRetired h₂.1 h₂.1 hold
    have hagain := h₂.rotateClaim_again hx hold hne
    rw [hnext, htoken] at hagain
    exact .of_table hagain
  · intro recoveryId new peerIp result hop hout hport htoken peerIp' now hx
    have hkey := recovered_key hw h hs hop hout hport
    have hagain : s''.table.recoverClaim recoveryId _ peerIp' now = _ :=
      h₂.recoverClaim_again hw₂ hx (Claim.recoveryId_foldl (Claim.recoveryId_next hkey))
    rw [htoken] at hagain
    exact .of_table hagain

/-- The host rotates or recovers to token 2 and hosts again, and the acknowledgement was lost. -/
theorem retries_after_reconnect :
    (∃ t : LeaseTable, t.RotationRepeats (.filled 1) (.filled 2) 10000 2600) ∧
      ∃ t : LeaseTable, t.RecoveryRepeats (.filled 100) (.filled 2) 10000 hostIp 2600 := by
  have hw := reachable_wellFormed hosted_reachable
  constructor
  · have hlive := hosted_run
      [(2000, .endSession (.filled 1) ⟨1⟩), (2001, .rotateClaim (.filled 1) (.filled 2)),
        (2500, .activateWithRecovery (.filled 2) none hostIp 10000)] rfl rfl
    cases hlive with
    | cons hend htail =>
      cases htail with
      | cons hrot ht =>
        have h := retries (hosted_reachable.next hend.1) (hend.holds hw hosted_holds) hrot ht
        exact ⟨_, h.1 (.filled 2) rfl rfl rfl 2600 rfl⟩
  · have hlive := hosted_run
      [(2001, .recoverClaim (.filled 100) (.filled 2) hostIp),
        (2500, .activateWithRecovery (.filled 2) none hostIp 10000)] rfl rfl
    cases hlive with
    | cons hrec ht =>
      have h := retries hosted_reachable hosted_holds hrec ht
      exact ⟨_, h.2 (.filled 100) (.filled 2) hostIp _ rfl rfl rfl rfl hostIp 2600 rfl⟩

end LeaseTable
end GameNet
