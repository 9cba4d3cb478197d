import GameNet.Claim

/-!
# GameNet.Locality

The operations of the lease table are atomic and local. An operation that fails, or that succeeds
without doing anything, leaves what dropping the expired leases leaves, and the session counter.
One that does something replaces one claim: `Replaces t t' port` says that `t'` stores another
claim on `port` than `t`, or the first one, and every other claim as `t` does.

A claim that moves is taken out under one key and stored under another, so the second key must be
nobody else's, and the claim on the port must be the one that is taken out; that is
`Replaces.of_lookup`.
-/

namespace GameNet
namespace LeaseTable

variable {t t' : LeaseTable} {k old new tokenId recoveryId : TokenId} {now : UInt64}
  {lease lease' : Lease} {peerIp : IpAddr} {port : UInt16}

/-- `t'` differs from `t` in the claim on `port` only. -/
structure Replaces (t t' : LeaseTable) (port : UInt16) : Prop where
  others : ∀ k lease, lease.port ≠ port →
    (t'.leases.lookup k = some lease ↔ t.leases.lookup k = some lease)
  stored : ∃ c, t'.Holds port c
  gone : ∀ c, t.Holds port c → ¬t'.Holds port c

/-- What an operation at `now` leaves of the table, for each operation and each of its results. -/
structure Atomic (t : LeaseTable) (now : UInt64) : Prop where
  candidatePorts : ∀ tokenId peerIp, (t.candidatePorts tokenId peerIp now).2 = t.reapExpired now
  activate : ∀ {tokenId presented peerIp port r t'},
    t.activateWithRecovery tokenId presented peerIp port now = (r, t') →
    match r with
    | .error _ => t' = t.reapExpired now
    | .ok _ => (t.reapExpired now).Replaces t' port
  endSession : ∀ {tokenId sessionId b t'}, t.endSession tokenId sessionId now = (b, t') →
    match b with
    | false => t' = t
    | true => ∃ lease, t.leases.lookup tokenId = some lease ∧ t.Replaces t' lease.port
  rotate : ∀ {old new r t'}, t.rotateClaim old new now = (r, t') →
    match r with
    | .error _ | .ok (.unchanged _) => t' = t.reapExpired now
    | .ok (.transferred port) =>
      (t.reapExpired now).Replaces t' port ∧
        ∃ lease deadline, (t.reapExpired now).leases.lookup old = some lease ∧
          lease.port = port ∧ lease.status = .grace deadline ∧ t'.leases.lookup old = none ∧
          t'.leases.lookup new =
            some { lease with retiredTokenIds := lease.retiredTokenIds ++ [old] }
  recover : ∀ {recoveryId new peerIp r t'},
    t.recoverClaim recoveryId new peerIp now = (r, t') →
    match r with
    | .error _ => t' = t.reapExpired now
    | .ok result =>
      if result.changed then (t.reapExpired now).Replaces t' result.port
      else t' = t.reapExpired now

/-- `t'` is `t` with `lease'` at `new` instead of what is at `old`. If that is the claim on the
port, and no other claim is at `new`, nothing else changes. -/
theorem Replaces.of_lookup
    (hl : ∀ k l, t'.leases.lookup k = some l ↔
      (k = new ∧ l = lease') ∨ (k ≠ new ∧ k ≠ old ∧ t.leases.lookup k = some l))
    (hport : ∀ k l, t.leases.lookup k = some l → (l.port = lease'.port ↔ k = old))
    (hnew : t.leases.lookup new = none ∨ new = old)
    (hne : t.leases.lookup new ≠ some lease') : t.Replaces t' lease'.port := by
  constructor
  · intro k l hp
    rw [hl]
    constructor
    · rintro (⟨-, rfl⟩ | ⟨-, -, h⟩)
      · exact absurd rfl hp
      · exact h
    · intro h
      have ho : k ≠ old := fun he => hp ((hport k l h).mpr he)
      refine .inr ⟨?_, ho, h⟩
      rintro rfl
      rcases hnew with hnone | heq
      · rw [h] at hnone; cases hnone
      · exact ho heq
  · exact ⟨⟨new, lease'⟩, (hl _ _).mpr (.inl ⟨rfl, rfl⟩), rfl⟩
  · rintro ⟨k, l⟩ ⟨h, hp⟩ ⟨h', -⟩
    have ho : k = old := (hport k l h).mp hp
    rcases (hl k l).mp h' with ⟨rfl, rfl⟩ | ⟨-, hno, -⟩
    · exact hne h
    · exact hno ho

/-- A claim is stored over what its key had. -/
theorem Replaces.insert {counter : UInt64}
    (hport : ∀ k' l, t.leases.lookup k' = some l → (l.port = lease'.port ↔ k' = k))
    (hne : t.leases.lookup k ≠ some lease') :
    t.Replaces ⟨t.leases.insert k lease', counter⟩ lease'.port := by
  refine of_lookup (fun k' l => ?_) hport (.inr rfl) hne
  rw [KeyedMap.lookup_insert]
  by_cases hk : k' = k
  · simp [hk, eq_comm]
  · simp [hk]

theorem WellFormed.port_iff (hw : t.WellFormed) (hl : t.leases.lookup k = some lease)
    (k' : TokenId) (l : Lease) (hl' : t.leases.lookup k' = some l) :
    l.port = lease.port ↔ k' = k := by
  constructor
  · exact hw.portUnique hl' hl
  · rintro rfl
    rw [hl] at hl'
    cases hl'; rfl

theorem Replaces.moveClaim (hw : t.WellFormed) (hl : t.leases.lookup old = some lease)
    (hn : t.leases.lookup new = none) (hp : lease'.port = lease.port) :
    t.Replaces (t.moveClaim old new lease') lease.port := by
  rw [← hp]
  refine .of_lookup (fun _ _ => lookup_moveClaim_eq_some) ?_ (.inl hn) (by simp [hn])
  rw [hp]
  exact hw.port_iff hl

/-! ## The operations -/

theorem Activates.replaces {presented : Option TokenId} {s : SessionId} (hw : t.WellFormed)
    (ha : t.Activates tokenId presented peerIp port s) :
    t.Replaces
      { leases := t.leases.insert tokenId
          (activeLease (t.leases.lookup tokenId) presented peerIp port s)
        nextSessionId := s.value } port := by
  obtain ⟨ports, ho, hm⟩ := ha.offered
  obtain ⟨hpool, hfree⟩ := offer_port hw ho hm
  show t.Replaces _ (activeLease (t.leases.lookup tokenId) presented peerIp port s).port
  refine .insert ?_ ?_
  · intro k l hl
    constructor
    · intro hp
      by_contra hk
      exact hfree k l hk hl hp.symm
    · rintro rfl
      exact (ha.port_eq hl).symm
  · -- what the token had before, if anything, is not active
    intro hl
    obtain ⟨-, ⟨lease, e, hl', hs, -⟩ | ⟨hl', -⟩⟩ := offer_eq_ok.mp ho
    · rw [hl] at hl'
      cases hl'
      cases hs
    · rw [hl] at hl'; cases hl'

theorem WellFormed.atomic (hw : t.WellFormed) (now : UInt64) : t.Atomic now := by
  have hwr : (t.reapExpired now).WellFormed := hw.reapExpired
  constructor
  · intro tokenId peerIp
    rfl
  · intro tokenId presented peerIp port r t' h
    obtain ⟨e, rfl, rfl⟩ | ⟨s, rfl, ha, rfl⟩ := activateWithRecovery_cases h
    · rfl
    · exact ha.replaces hwr
  · intro tokenId sessionId b t' h
    obtain ⟨rfl, rfl, -⟩ | ⟨lease, rfl, hl, hs, rfl⟩ := endSession_cases h
    · rfl
    · refine ⟨lease, hl, Replaces.insert ?_ ?_⟩
      · intro k l hk
        exact hw.port_iff hl k l hk
      · rw [hl]
        intro he
        rw [Option.some.inj he] at hs
        cases hs
  · intro old new r t' h
    obtain ⟨lease, hr, rfl, rfl⟩ | ⟨rfl, ⟨e, rfl⟩ | ⟨_, _, _, rfl⟩ | ⟨_, _, rfl⟩⟩ :=
      rotateClaim_cases h
    · obtain ⟨deadline, hs⟩ := hr.idle
      refine ⟨.moveClaim hwr hr.held hr.newUnused rfl, lease, deadline, hr.held, rfl, hs, ?_, ?_⟩
      · rw [Option.eq_none_iff_forall_ne_some]
        intro l hl
        rcases lookup_moveClaim_eq_some.mp hl with ⟨he, -⟩ | ⟨-, hne, -⟩
        · exact hr.distinct he
        · exact hne rfl
      · rw [hr.unrotated]
        exact lookup_moveClaim
    · rfl
    · rfl
    · rfl
  · intro recoveryId new peerIp r t' h
    obtain ⟨old, lease, hr, rfl, rfl⟩ | ⟨rfl, ⟨e, rfl⟩ | ⟨_, _, _, rfl⟩⟩ := recoverClaim_cases h
    · exact .moveClaim hwr hr.held hr.newUnused rfl
    · rfl
    · rfl

/-- **The operations are atomic and local.** In every reachable table an operation that fails or
does nothing leaves the table without its expired leases, and one that does something leaves every
claim but one as it was. -/
theorem reachable_atomic {s : RunState} (h : Reachable s) (now : UInt64) : s.table.Atomic now :=
  (reachable_wellFormed h).atomic now

/-- The table of one host. -/
theorem reachable_atomic_one_host : hosted.Atomic 2000 := reachable_atomic hosted_reachable 2000

end LeaseTable
end GameNet
