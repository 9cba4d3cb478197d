import GameNet.Claim

/-!
# GameNet.Quota

The host quota. `checkIpQuota` looks at a source only when a claim is about to be charged to it,
and skips the look when the claim is charged to it already. So what holds of a step is that it
raises no source's count above `maxTunnelsPerIp` or what it was (`Step.quota`); over a run from the
empty table no source ever has more.

* `sourceCount_charge`: the one lemma about a claim that is charged anew. It is stored over what is
  left of the table when its old entry is gone.
* `Event.fromCharged`, `Event.overQuota`: a request for a claim from the source it is charged to,
  and a request that is refused because of the quota.
-/

namespace GameNet

/-- The error is the one of `check_ip_quota`. -/
def LeaseError.isQuota : LeaseError → Bool
  | .tooManyTunnels _ => true
  | _ => false

namespace LeaseTable

variable {t t' : LeaseTable} {k old new tokenId recoveryId : TokenId} {now : UInt64}
  {lease lease' : Lease} {peerIp : IpAddr} {port : UInt16} {source : HostSource}

/-- The event is a request for a claim of `t` from the source the claim is charged to. -/
def Event.fromCharged (t : LeaseTable) (e : Event) : Prop :=
  match e.op with
  | .candidatePorts tokenId peerIp | .activateWithRecovery tokenId _ peerIp _ =>
    ∃ lease, t.leases.lookup tokenId = some lease ∧
      lease.source = some (HostSource.ofIp peerIp)
  | .recoverClaim recoveryId _ peerIp =>
    ∃ k lease, t.leases.lookup k = some lease ∧ lease.recoveryId = some recoveryId ∧
      lease.source = some (HostSource.ofIp peerIp)
  | _ => False

/-- The request is refused because of the quota. -/
def Event.overQuota (e : Event) : Bool :=
  match e.outcome with
  | .ports (.error error) | .activated (.error error) | .recovered (.error error) =>
    error.isQuota
  | _ => false

/-! ## Counting charges -/

theorem sourceCount_reapExpired_le :
    (t.reapExpired now).sourceCount source ≤ t.sourceCount source := by
  refine KeyedMap.countP_values_le ?_
  intro k lease hl hs
  exact ⟨lease, lookup_of_reapExpired hl, hs⟩

/-- Leases charged as the leases of `t` at their keys charge nothing more. -/
theorem sourceCount_le
    (h : ∀ k lease', t'.leases.lookup k = some lease' →
      ∃ lease, t.leases.lookup k = some lease ∧ lease.lastIp = lease'.lastIp) :
    t'.sourceCount source ≤ t.sourceCount source := by
  refine KeyedMap.countP_values_le ?_
  intro k lease' hl hs
  obtain ⟨lease, hl, hip⟩ := h k lease' hl
  refine ⟨lease, hl, ?_⟩
  simpa only [Lease.source, hip] using hs

/-- A claim that moves with its charge charges nothing more. -/
theorem sourceCount_moveClaim_le (hl : t.leases.lookup old = some lease)
    (hs : lease'.lastIp = lease.lastIp) :
    (t.moveClaim old new lease').sourceCount source ≤ t.sourceCount source := by
  have h₁ := KeyedMap.countP_values_insert (AList.erase old t.leases)
    (fun l => l.source == some source) new lease'
  have h₂ := KeyedMap.countP_values_erase_le (AList.erase old t.leases)
    (fun l => l.source == some source) new
  have h₃ := KeyedMap.countP_values_erase (p := fun l => l.source == some source) hl
  have hsource : lease'.source = lease.source := by simp [Lease.source, hs]
  simp only [hsource] at h₁
  simp only [sourceCount, moveClaim]
  omega

/-- A claim is stored at `k` over the other entries of `m`, which charge no more than `t` does, and
is charged to a source that had room or gives up a charge for it. -/
theorem sourceCount_charge {m : KeyedMap TokenId Lease} {counter : UInt64}
    (hm : ∀ source, (KeyedMap.values (m.erase k)).countP (fun l => l.source == some source) ≤
      t.sourceCount source)
    (hold : t.sourceCount (HostSource.ofIp peerIp) < maxTunnelsPerIp ∨
      (KeyedMap.values (m.erase k)).countP
        (fun l => l.source == some (HostSource.ofIp peerIp)) <
        t.sourceCount (HostSource.ofIp peerIp))
    (hs : lease'.lastIp = some peerIp) :
    sourceCount ⟨m.insert k lease', counter⟩ source ≤
      max maxTunnelsPerIp (t.sourceCount source) := by
  have h₁ := KeyedMap.countP_values_insert m (fun l => l.source == some source) k lease'
  have h₂ := hm source
  have hsource : lease'.source = some (HostSource.ofIp peerIp) := by simp [Lease.source, hs]
  simp only [sourceCount, maxTunnelsPerIp] at *
  by_cases he : HostSource.ofIp peerIp = source
  · subst he
    simp only [hsource, beq_self_eq_true, if_true] at h₁
    omega
  · simp only [hsource, beq_iff_eq, Option.some.injEq, he, if_false] at h₁
    omega

/-- A claim that is charged to `peerIp`'s source gives up that charge with its entry. -/
theorem countP_erase_lt (hl : t.leases.lookup k = some lease)
    (hs : lease.source = some (HostSource.ofIp peerIp)) :
    (KeyedMap.values (t.leases.erase k)).countP
      (fun l => l.source == some (HostSource.ofIp peerIp)) <
      t.sourceCount (HostSource.ofIp peerIp) := by
  have h := KeyedMap.countP_values_erase
    (p := fun l => l.source == some (HostSource.ofIp peerIp)) hl
  simp only [hs, beq_self_eq_true, if_true] at h
  simp only [sourceCount]
  omega

/-- An activation charges a source that had room, or that the claim was charged to. -/
theorem Activates.quota {presented : Option TokenId} {s : SessionId}
    (ha : t.Activates tokenId presented peerIp port s) (source : HostSource) :
    sourceCount
      { leases := t.leases.insert tokenId
          (activeLease (t.leases.lookup tokenId) presented peerIp port s)
        nextSessionId := s.value } source ≤ max maxTunnelsPerIp (t.sourceCount source) := by
  refine sourceCount_charge (fun source => KeyedMap.countP_values_erase_le _ _ _) ?_ rfl
  obtain ⟨ports, ho, -⟩ := ha.offered
  obtain ⟨-, ⟨lease, e, hl, -, hadm, -⟩ | ⟨-, hroom, -⟩⟩ := offer_eq_ok.mp ho
  · rcases hadm with hcharged | hroom
    · exact .inr (countP_erase_lt hl hcharged)
    · exact .inl hroom
  · exact .inl hroom

theorem Recovers.quota (hr : t.Recovers recoveryId old new peerIp lease) (now : UInt64)
    (source : HostSource) :
    (t.moveClaim old new (recoveredLease lease old peerIp now)).sourceCount source ≤
      max maxTunnelsPerIp (t.sourceCount source) := by
  have hle : ∀ p : Lease → Bool, (KeyedMap.values ((t.leases.erase old).erase new)).countP p ≤
      (KeyedMap.values (t.leases.erase old)).countP p :=
    fun p => KeyedMap.countP_values_erase_le _ _ _
  refine sourceCount_charge (fun source => ?_) ?_ rfl
  · exact Nat.le_trans (hle _) (KeyedMap.countP_values_erase_le _ _ _)
  · rcases hr.admitted with hcharged | hroom
    · exact .inr (Nat.lt_of_le_of_lt (hle _) (countP_erase_lt hr.held hcharged))
    · exact .inl hroom

/-! ## One operation -/

theorem perform_quota {op : Op} {outcome : Outcome} (hw : t.WellFormed)
    (ho : t.perform now op = (outcome, t')) :
    t'.sourceCount source ≤ max maxTunnelsPerIp (t.sourceCount source) := by
  have hreap : (t.reapExpired now).sourceCount source ≤ t.sourceCount source :=
    sourceCount_reapExpired_le
  cases op with
  | candidatePorts tokenId peerIp =>
    cases ho
    show (t.reapExpired now).sourceCount source ≤ _
    omega
  | reapExpired =>
    cases ho
    omega
  | activateWithRecovery tokenId presented peerIp port =>
    obtain ⟨r, hq, rfl⟩ := perform_activate ho
    obtain ⟨e, rfl, rfl⟩ | ⟨s, rfl, ha, rfl⟩ := activateWithRecovery_cases hq
    · omega
    · have := ha.quota source
      omega
  | endSession tokenId sessionId =>
    obtain ⟨b, hq, rfl⟩ := perform_endSession ho
    obtain ⟨rfl, rfl, _⟩ | ⟨lease, rfl, hl, -, rfl⟩ := endSession_cases hq
    · omega
    · refine Nat.le_trans (sourceCount_le fun k lease' hk => ?_) (Nat.le_max_right _ _)
      rw [KeyedMap.lookup_insert] at hk
      split at hk
      · subst k
        cases hk
        exact ⟨lease, hl, rfl⟩
      · exact ⟨lease', hk, rfl⟩
  | rotateClaim old new =>
    obtain ⟨r, hq, rfl⟩ := perform_rotate ho
    obtain ⟨lease, hr, -, rfl⟩ | ⟨rfl, -⟩ := rotateClaim_cases hq
    · have : (moveClaim _ old new { lease with retiredTokenIds := [old] }).sourceCount source ≤ _ :=
        sourceCount_moveClaim_le hr.held rfl
      omega
    · omega
  | recoverClaim recoveryId new peerIp =>
    obtain ⟨r, hq, rfl⟩ := perform_recover ho
    obtain ⟨old, lease, hr, -, rfl⟩ | ⟨rfl, -⟩ := recoverClaim_cases hq
    · have := hr.quota now source
      omega
    · omega
  | restart savedAt =>
    rw [perform_restart (hw.snapshot_valid savedAt)] at ho
    cases ho
    refine Nat.le_trans (sourceCount_le fun k lease' hk => ?_) (Nat.le_max_right _ _)
    obtain ⟨record, hm, rfl, -, rfl⟩ :=
      (lookup_load_new (hw.snapshot_valid savedAt).tokens).mp hk
    obtain ⟨k, lease, hl, rfl⟩ := mem_snapshot.mp hm
    exact ⟨lease, hl, rfl⟩

/-- The quota is no reason to refuse a claim to the source it is charged to. -/
theorem checkIpQuota_charged (hs : lease.source = some (HostSource.ofIp peerIp)) :
    t.checkIpQuota peerIp (lease.source == some (HostSource.ofIp peerIp)) = .ok () :=
  checkIpQuota_lease.mpr (.inl hs)

theorem offer_charged {e : LeaseError} (hl : t.leases.lookup tokenId = some lease)
    (hs : lease.source = some (HostSource.ofIp peerIp))
    (ho : t.offer tokenId peerIp = .error e) : e.isQuota = false := by
  simp only [offer, hl, checkIpQuota_charged hs] at ho
  split at ho
  · cases ho; rfl
  · split at ho <;> cases ho
    rfl

theorem activate_charged {presented : Option TokenId} {e : LeaseError}
    (hl : (t.reapExpired now).leases.lookup tokenId = some lease)
    (hs : lease.source = some (HostSource.ofIp peerIp))
    (ho : (t.activateWithRecovery tokenId presented peerIp port now).1 = .error e) :
    e.isQuota = false := by
  cases hoff : (t.reapExpired now).offer tokenId peerIp with
  | error e' =>
    simp only [activateWithRecovery, candidatePorts_eq, hoff] at ho
    cases ho
    exact offer_charged hl hs hoff
  | ok ports =>
    simp only [activateWithRecovery, candidatePorts_eq, hoff] at ho
    split at ho
    · cases ho; rfl
    · split at ho
      · cases ho; rfl
      · split at ho
        · cases ho; rfl
        · split at ho <;> cases ho
          rfl

theorem recover_charged {e : LeaseError} (hw : t.WellFormed)
    (hl : (t.reapExpired now).leases.lookup k = some lease)
    (hr : lease.recoveryId = some recoveryId)
    (hs : lease.source = some (HostSource.ofIp peerIp))
    (ho : (t.recoverClaim recoveryId new peerIp now).1 = .error e) :
    e.isQuota = false := by
  have hf : (t.reapExpired now).leases.find? (fun _ lease => lease.recoveryId == some recoveryId) =
      some (k, lease) :=
    KeyedMap.find?_of_unique hl (by simp [hr]) fun k' l' hl' hr' =>
      hw.reapExpired.recoveryUnique hl' hl (by simpa using hr') hr
  simp only [recoverClaim, hf, checkIpQuota_charged hs] at ho
  split at ho
  · cases ho
  · split at ho
    · cases ho; rfl
    · split at ho <;> cases ho
      rfl

theorem fromCharged_not_overQuota {op : Op} (hw : t.WellFormed)
    (hc : Event.fromCharged (t.reapExpired now) ⟨op, now, (t.perform now op).1⟩) :
    Event.overQuota ⟨op, now, (t.perform now op).1⟩ = false := by
  cases op with
  | candidatePorts tokenId peerIp =>
    obtain ⟨lease, hl, hs⟩ := hc
    cases ho : (t.reapExpired now).offer tokenId peerIp with
    | error e => simp [Event.overQuota, perform, candidatePorts_eq, ho, offer_charged hl hs ho]
    | ok ports => simp [Event.overQuota, perform, candidatePorts_eq, ho]
  | activateWithRecovery tokenId presented peerIp port =>
    obtain ⟨lease, hl, hs⟩ := hc
    cases ho : (t.activateWithRecovery tokenId presented peerIp port now).1 with
    | error e => simp [Event.overQuota, perform, ho, activate_charged hl hs ho]
    | ok s => simp [Event.overQuota, perform, ho]
  | recoverClaim recoveryId new peerIp =>
    obtain ⟨k, lease, hl, hr, hs⟩ := hc
    cases ho : (t.recoverClaim recoveryId new peerIp now).1 with
    | error e => simp [Event.overQuota, perform, ho, recover_charged hw hl hr hs ho]
    | ok result => simp [Event.overQuota, perform, ho]
  | endSession tokenId sessionId => exact hc.elim
  | rotateClaim old new => exact hc.elim
  | reapExpired => exact hc.elim
  | restart savedAt => exact hc.elim

/-! ## Runs -/

theorem Step.quota {s s' : RunState} {e : Event} (hw : s.table.WellFormed) (hs : Step s e s')
    (source : HostSource) :
    s'.table.sourceCount source ≤ max maxTunnelsPerIp (s.table.sourceCount source) := by
  obtain ⟨-, hsame, -, -⟩ := hs.agree hw
  rw [← hsame.sourceCount]
  exact perform_quota hw rfl

/-- The empty table. -/
def Fresh (s : RunState) : Prop := s.table = .new

theorem Fresh.initial {s : RunState} (h : Fresh s) : Initial s := .inl h

/-- From the empty table on, no source has more claims than the quota. -/
theorem reached_quota {s : RunState} (h : Trace.Reached Fresh Step s) :
    s.table.WellFormed ∧ s.table.sourceCount source ≤ maxTunnelsPerIp := by
  refine h.invariant (I := fun s => s.table.WellFormed ∧
    s.table.sourceCount source ≤ maxTunnelsPerIp) ?_ ?_
  · intro s hs
    refine ⟨hs.initial.wellFormed, ?_⟩
    rw [show s.table = .new from hs]
    exact Nat.zero_le _
  · rintro s e s' ⟨hw, hle⟩ hs
    have := hs.quota hw source
    exact ⟨hs.wellFormed hw, by omega⟩

/-- **No host source holds more claims than the quota.** This is so in every run from the empty
table; in a run from any restored table no operation raises a source above the quota or what it
had. And the quota never keeps a host from its own claim: a reconnect or a recovery from the source
that is charged for the claim is not refused for it. -/
theorem reachable_quota {s : RunState} (h : Reachable s) :
    (Trace.Reached Fresh Step s → ∀ source, s.table.sourceCount source ≤ maxTunnelsPerIp) ∧
      ∀ e s', Step s e s' →
        (∀ source, s'.table.sourceCount source ≤
          max maxTunnelsPerIp (s.table.sourceCount source)) ∧
        (e.fromCharged (s.table.reapExpired e.now) → e.overQuota = false) := by
  have hw := reachable_wellFormed h
  refine ⟨fun hf source => (reached_quota hf).2, fun e s' hs =>
    ⟨fun source => hs.quota hw source, ?_⟩⟩
  intro hc
  obtain ⟨op, now, outcome⟩ := e
  obtain ⟨ho, -⟩ := hs.agree hw
  obtain rfl : (s.table.perform now op).1 = outcome := ho
  exact fromCharged_not_overQuota hw hc

/-- Two hosts at one address, of which the first leaves. -/
def sharedAddress : List (UInt64 × Op) :=
  [(1000, .activateWithRecovery (.filled 1) (some (.filled 100)) hostIp 10000),
   (1001, .activateWithRecovery (.filled 2) none hostIp 10001),
   (2000, .endSession (.filled 1) ⟨1⟩)]

/-- The address has used up its quota: a third host there is refused, but the one that left may
come back. -/
theorem reachable_quota_reconnect :
    ∃ t, (RunState.run ⟨.new, 0⟩ sharedAddress).2 = ⟨t, 2000⟩ ∧
      t.sourceCount (.ofIp hostIp) = maxTunnelsPerIp ∧
      (∀ source, t.sourceCount source ≤ maxTunnelsPerIp) ∧
      Event.overQuota ⟨.candidatePorts (.filled 3) hostIp, 3000,
        (t.perform 3000 (.candidatePorts (.filled 3) hostIp)).1⟩ = true ∧
      Event.overQuota ⟨.activateWithRecovery (.filled 1) none hostIp 10000, 3000,
        (t.perform 3000 (.activateWithRecovery (.filled 1) none hostIp 10000)).1⟩ = false := by
  have ht : Trace Step ⟨.new, 0⟩ _ (RunState.run ⟨.new, 0⟩ sharedAddress).2 :=
    RunState.trace_run rfl
  have hfresh : Trace.Reached Fresh Step ⟨.new, 0⟩ := .of_init (show Fresh _ from rfl)
  have hback := Step.of_perform (RunState.run ⟨.new, 0⟩ sharedAddress).2.table 2000
    (.activateWithRecovery (.filled 1) none hostIp 10000) 3000 (by decide) (by decide)
  have hquota := reachable_quota ((reachable_new 0).trace ht)
  exact ⟨_, rfl, rfl, hquota.1 (hfresh.trace ht), rfl, (hquota.2 _ _ hback).2 ⟨_, rfl, rfl⟩⟩

end LeaseTable
end GameNet
