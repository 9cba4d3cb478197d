import GameNet.Claim

/-!
# GameNet.Recovery

The holder of a recovery key is never locked out. A claim enrolled with `r` keeps `r` whatever
happens to its token, no other claim gets `r`, and while the claim lives a recovery with `r`
moves it to a fresh token and has the token before that refused.
-/

namespace GameNet
namespace LeaseTable

variable {t : LeaseTable} {port : UInt16} {c : Claim} {now later : UInt64} {s s' : RunState}
  {e : Event} {es : List Event} {r new : TokenId} {peerIp : IpAddr}

/-- The claim on `port` is enrolled with `r`, and no other is. -/
structure Enrolled (t : LeaseTable) (port : UInt16) (r : TokenId) (c : Claim) : Prop where
  holds : t.Holds port c
  key : c.lease.recoveryId = some r
  sole : ∀ k lease, t.leases.lookup k = some lease → lease.recoveryId = some r → k = c.token

/-- A token the claim can be recovered with: neither a key nor retired. The source of the request
is charged for the claim or has room. -/
structure Eligible (t : LeaseTable) (c : Claim) (new : TokenId) (peerIp : IpAddr) : Prop where
  notKey : t.leases.lookup new = none
  notRetired : t.isRetired new = false
  admitted : t.Admits c.lease peerIp

/-- The recovery succeeds. From then on, as long as the claim lives, the token it had is refused
and the new token, from the same source, gets the port and no other. -/
structure Recovered (t t' : LeaseTable) (port : UInt16) (c : Claim) (r new : TokenId)
    (peerIp : IpAddr) (now : UInt64) : Prop where
  succeeds : t.recoverClaim r new peerIp now =
    (.ok { port := port, displaced := displacedSession c.token c.lease, changed := true }, t')
  keyed : t'.Holds port ⟨new, recoveredLease c.lease c.token peerIp now⟩
  refused : ∀ later ip, now ≤ later → later < now.saturatingAdd graceMs →
    ∃ e, (t'.candidatePorts c.token ip later).1 = .error e
  offered : ∀ later ip, now ≤ later → later < now.saturatingAdd graceMs →
    HostSource.ofIp ip = HostSource.ofIp peerIp →
    (t'.candidatePorts new ip later).1 = .ok [port]

/-- Nothing that happens to a claim takes its recovery key away. -/
theorem Claim.recoveryId_next (h : c.lease.recoveryId = some r) :
    (c.next e).lease.recoveryId = some r := by
  unfold Claim.next
  cases e.effect c.token c.lease.port with
  | reconnect presented peerIp sessionId => simp [Claim.apply, activeLease, h]
  | _ => exact h

theorem Claim.recoveryId_foldl (h : c.lease.recoveryId = some r) :
    (es.foldl Claim.next c).lease.recoveryId = some r := by
  induction es generalizing c with
  | nil => exact h
  | cons e es ih => exact ih (recoveryId_next h)

theorem Enrolled.of_holds (hw : t.WellFormed) (h : t.Holds port c)
    (hr : c.lease.recoveryId = some r) : t.Enrolled port r c :=
  ⟨h, hr, fun _ _ hl hr' => hw.recoveryUnique hl h.1 hr' hr⟩

/-- A recovery of a live claim with its key goes through. -/
theorem Enrolled.recovered (hw : t.WellFormed) (h : t.Enrolled port r c)
    (hx : c.lease.expired now = false) (he : (t.reapExpired now).Eligible c new peerIp) :
    ∃ t', Recovered t t' port c r new peerIp now := by
  have hwr : (t.reapExpired now).WellFormed := hw.reapExpired
  have hlive := h.holds.reapExpired hx
  have hne : c.token ≠ new := by
    rintro heq
    have := he.notKey
    rw [← heq, hlive.1] at this
    cases this
  have hok := recoverClaim_ok
    ⟨hlive.1, h.key, hne, he.notKey, he.notRetired, he.admitted⟩
    fun k l hl hr => h.sole k l (lookup_of_reapExpired hl) hr
  rw [hlive.2] at hok
  have hw' := hw.recoverClaim hok
  have hmoved : ((t.reapExpired now).moveClaim c.token new
      (recoveredLease c.lease c.token peerIp now)).Holds port
      ⟨new, recoveredLease c.lease c.token peerIp now⟩ := ⟨lookup_moveClaim, hlive.2⟩
  generalize (t.reapExpired now).moveClaim _ _ _ = t' at hok hw' hmoved
  have hnx : ∀ later, later < now.saturatingAdd graceMs →
      (recoveredLease c.lease c.token peerIp now).expired later = false := by
    intro later hlt
    simpa [recoveredLease, Lease.expired] using hlt
  refine ⟨t', hok, hmoved, ?_, ?_⟩
  · intro later ip _ hlt
    obtain ⟨before, hb⟩ := retire_eq c.lease.retiredTokenIds c.token
    have hmem : c.token ∈ retire c.lease.retiredTokenIds c.token := by rw [hb]; simp
    exact ⟨_, hmoved.refused (hnx later hlt) hmem ip⟩
  · intro later ip _ hlt hsrc
    have hsource : (recoveredLease c.lease c.token peerIp now).source =
        some (HostSource.ofIp ip) := by rw [hsrc]; rfl
    exact hmoved.offered hw' rfl (hnx later hlt) (.inl hsource)

/-- **A token thief cannot lock out the holder of the recovery key**: after any run in which the
claim does not expire it is still enrolled with `r`, it alone, and can be recovered with `r`. -/
theorem reachable_recoverable (h₀ : Reachable s) (h : s.table.Holds port c)
    (hr : c.lease.recoveryId = some r) (ht : Trace (LiveStep port) s es s') :
    ∃ c', s'.table.Enrolled port r c' ∧
      ∀ new peerIp now, c'.lease.expired now = false →
        (s'.table.reapExpired now).Eligible c' new peerIp →
        ∃ t', Recovered s'.table t' port c' r new peerIp now := by
  obtain ⟨hw', h'⟩ := follow (reachable_wellFormed h₀) h ht
  have he := Enrolled.of_holds hw' h' (Claim.recoveryId_foldl hr)
  exact ⟨_, he, fun new peerIp now hx hel => he.recovered hw' hx hel⟩

/-- A thief rotates token 1 to token 3 and hosts with it. -/
theorem reachable_recoverable_after_theft :
    ∃ t t' c, t.Enrolled 10000 (.filled 100) c ∧
      Recovered t t' 10000 c (.filled 100) (.filled 2) hostIp 2001 := by
  have hlive := hosted_run
    [(1500, .endSession (.filled 1) ⟨1⟩), (1600, .rotateClaim (.filled 1) (.filled 3)),
      (2000, .activateWithRecovery (.filled 3) none hostIp 10000)] rfl rfl
  obtain ⟨c, he, hrec⟩ := reachable_recoverable hosted_reachable hosted_holds rfl hlive
  obtain ⟨hw, hc⟩ := follow (reachable_wellFormed hosted_reachable) hosted_holds hlive
  obtain rfl := he.holds.unique hw hc
  obtain ⟨t', ht'⟩ := hrec (.filled 2) hostIp 2001 rfl ⟨rfl, rfl, .inl rfl⟩
  exact ⟨_, t', _, he, ht'⟩

end LeaseTable
end GameNet
