import GameNet.Lease

/-!
# GameNet.LeaseSpec

What each operation of the lease table can do, said once: one lemma per operation lists its
outcomes, the checks that passed for each and the table it leaves. Every later proof about the
table takes the operations apart with these lemmas and unfolds none of them.
-/

namespace GameNet

theorem mem_portPool {port : UInt16} : port ∈ portPool ↔ portStart ≤ port ∧ port ≤ portEnd := by
  simp only [portPool, List.mem_map, List.mem_range', UInt16.le_iff_toNat_le]
  constructor
  · rintro ⟨n, ⟨i, hi, rfl⟩, rfl⟩
    have hs : portStart.toNat = 10000 := rfl
    have he : portEnd.toNat = 10999 := rfl
    have hn : (UInt16.ofNat (portStart.toNat + 1 * i)).toNat = portStart.toNat + i := by
      show _ % 2 ^ 16 = _
      omega
    omega
  · rintro ⟨h₁, h₂⟩
    exact ⟨port.toNat, ⟨port.toNat - portStart.toNat, by omega, by omega⟩, UInt16.ofNat_toNat⟩

theorem length_portPool : portPool.length = 1000 := by
  simp only [portPool, List.length_map, List.length_range']; rfl

namespace Lease

theorem expired_eq_true {lease : Lease} {now : UInt64} :
    lease.expired now = true ↔ ∃ e, lease.status = .grace e ∧ e ≤ now := by
  unfold expired
  cases lease.status <;> simp

theorem expired_eq_false {lease : Lease} {now : UInt64} :
    lease.expired now = false ↔ ∀ e, lease.status = .grace e → now < e := by
  unfold expired
  cases lease.status with
  | active s => simp
  | grace e => simp

/-- Expired once, expired ever after. -/
theorem expired_mono {lease : Lease} {now later : UInt64} (h : now ≤ later)
    (he : lease.expired now = true) : lease.expired later = true := by
  obtain ⟨e, hs, hle⟩ := expired_eq_true.mp he
  exact expired_eq_true.mpr ⟨e, hs, by grind⟩

theorem not_expired_mono {lease : Lease} {now later : UInt64} (h : now ≤ later)
    (he : lease.expired later = false) : lease.expired now = false := by
  cases hn : lease.expired now with
  | false => rfl
  | true => rw [expired_mono h hn] at he; cases he

end Lease

namespace LeaseTable

variable {t t' : LeaseTable} {k old new tokenId recoveryId : TokenId} {now : UInt64}
  {lease : Lease} {peerIp : IpAddr} {port : UInt16}

theorem lookup_reapExpired : (t.reapExpired now).leases.lookup k = some lease ↔
    t.leases.lookup k = some lease ∧ lease.expired now = false := by
  simp [reapExpired, Option.filter_eq_some_iff]

theorem lookup_of_reapExpired (h : (t.reapExpired now).leases.lookup k = some lease) :
    t.leases.lookup k = some lease := (lookup_reapExpired.mp h).1

/-- Dropping the expired leases twice at one time drops them once. -/
@[simp] theorem reapExpired_reapExpired :
    (t.reapExpired now).reapExpired now = t.reapExpired now := by
  simp only [reapExpired, KeyedMap.retain_retain, Bool.and_self]

@[simp] theorem reapExpired_nextSessionId :
    (t.reapExpired now).nextSessionId = t.nextSessionId := rfl

theorem isRetired_eq_true : t.isRetired tokenId = true ↔
    ∃ k lease, t.leases.lookup k = some lease ∧ tokenId ∈ lease.retiredTokenIds := by
  simp only [isRetired, KeyedMap.any_values, List.contains_iff_mem]

theorem isRetired_eq_false : t.isRetired tokenId = false ↔
    ∀ k lease, t.leases.lookup k = some lease → tokenId ∉ lease.retiredTokenIds := by
  rw [isRetired, KeyedMap.any_values_eq_false]
  simp only [← Bool.not_eq_true, List.contains_iff_mem]

theorem checkIpQuota_eq_ok {b : Bool} : t.checkIpQuota peerIp b = .ok () ↔
    b = true ∨ t.sourceCount (HostSource.ofIp peerIp) < maxTunnelsPerIp := by
  simp only [checkIpQuota]
  split <;> simp_all

/-- The lease is already charged to the source of `peerIp`, or the source has room. -/
def Admits (t : LeaseTable) (lease : Lease) (peerIp : IpAddr) : Prop :=
  lease.source = some (HostSource.ofIp peerIp) ∨
    t.sourceCount (HostSource.ofIp peerIp) < maxTunnelsPerIp

theorem checkIpQuota_lease :
    t.checkIpQuota peerIp (lease.source == some (HostSource.ofIp peerIp)) = .ok () ↔
      t.Admits lease peerIp := by
  rw [checkIpQuota_eq_ok, Admits, beq_iff_eq]

/-- The port is held by some lease of the table. -/
def Occupied (t : LeaseTable) (port : UInt16) : Prop :=
  ∃ k lease, t.leases.lookup k = some lease ∧ lease.port = port

theorem mem_freePorts :
    port ∈ t.freePorts ↔ (portStart ≤ port ∧ port ≤ portEnd) ∧ ¬t.Occupied port := by
  simp only [freePorts, List.mem_filter, mem_portPool, Bool.not_eq_true', ← Bool.not_eq_true,
    List.contains_iff_mem, List.mem_map, KeyedMap.mem_values, Occupied]
  constructor
  · rintro ⟨hp, hn⟩
    exact ⟨hp, fun ⟨k, l, hl, he⟩ => hn ⟨l, ⟨k, hl⟩, he⟩⟩
  · rintro ⟨hp, hn⟩
    exact ⟨hp, fun ⟨l, ⟨k, hl⟩, he⟩ => hn ⟨k, l, hl, he⟩⟩

/-- An offer is made to the token's own grace lease, and is its port; or to a token that has no
lease, and is the free ports. -/
theorem offer_eq_ok {ports : List UInt16} : t.offer tokenId peerIp = .ok ports ↔
    t.isRetired tokenId = false ∧
      ((∃ lease e, t.leases.lookup tokenId = some lease ∧ lease.status = .grace e ∧
          t.Admits lease peerIp ∧ ports = [lease.port]) ∨
        (t.leases.lookup tokenId = none ∧
          t.sourceCount (HostSource.ofIp peerIp) < maxTunnelsPerIp ∧ t.freePorts ≠ [] ∧
          ports = t.freePorts)) := by
  unfold offer
  cases hr : t.isRetired tokenId with
  | true => simp
  | false =>
    simp only [Bool.false_eq_true, if_false, true_and]
    cases hl : t.leases.lookup tokenId with
    | some lease =>
      cases hs : lease.status with
      | active s => simp [hs]
      | grace e =>
        cases hq : t.checkIpQuota peerIp (lease.source == some (HostSource.ofIp peerIp)) with
        | error e =>
          have : ¬t.Admits lease peerIp := by rw [← checkIpQuota_lease, hq]; simp
          simp [hs, hq, this]
        | ok u =>
          have : t.Admits lease peerIp := by rw [← checkIpQuota_lease, hq]
          simp only [hs, hq, Option.some.injEq, reduceCtorEq, false_and, or_false,
            Except.ok.injEq]
          constructor
          · intro h; exact ⟨lease, e, rfl, hs, this, h.symm⟩
          · rintro ⟨_, _, rfl, _, _, h⟩; exact h.symm
    | none =>
      cases hq : t.checkIpQuota peerIp false with
      | error e =>
        have : ¬t.sourceCount (HostSource.ofIp peerIp) < maxTunnelsPerIp := by
          intro h
          rw [checkIpQuota_eq_ok.mpr (.inr h)] at hq; cases hq
        simp [this]
      | ok u =>
        have : t.sourceCount (HostSource.ofIp peerIp) < maxTunnelsPerIp := by
          simpa using checkIpQuota_eq_ok.mp hq
        cases hf : t.freePorts with
        | nil => simp
        | cons p ps =>
          simp only [List.isEmpty_cons, Bool.false_eq_true, if_false, this, ne_eq, reduceCtorEq,
            not_false_eq_true, Except.ok.injEq, false_and, exists_false, false_or, true_and]
          exact eq_comm

theorem offer_grace {e : UInt64} (hl : t.leases.lookup tokenId = some lease)
    (hs : lease.status = .grace e) (hr : t.isRetired tokenId = false)
    (ha : t.Admits lease peerIp) : t.offer tokenId peerIp = .ok [lease.port] :=
  offer_eq_ok.mpr ⟨hr, .inl ⟨lease, e, hl, hs, ha, rfl⟩⟩

theorem offer_retired (h : t.isRetired tokenId = true) :
    t.offer tokenId peerIp = .error .claimRotated := by
  simp [offer, h]

theorem candidatePorts_eq :
    t.candidatePorts tokenId peerIp now =
      ((t.reapExpired now).offer tokenId peerIp, t.reapExpired now) := rfl

theorem recoveryKeyOwned_eq_false {presented : Option TokenId} :
    t.recoveryKeyOwned tokenId presented = false ↔
      ∀ r, presented = some r → ∀ k lease, t.leases.lookup k = some lease → k ≠ tokenId →
        lease.recoveryId ≠ some r := by
  cases presented with
  | none => simp [recoveryKeyOwned]
  | some r =>
    simp [recoveryKeyOwned, List.any_eq_false, Sigma.forall, KeyedMap.mem_entries]

theorem activateWithRecovery_reapExpired {presented : Option TokenId} :
    (t.reapExpired now).activateWithRecovery tokenId presented peerIp port now =
      t.activateWithRecovery tokenId presented peerIp port now := by
  simp only [activateWithRecovery, candidatePorts_eq, reapExpired_reapExpired]

/-- The lease a successful activation stores. -/
def activeLease (existing : Option Lease) (presented : Option TokenId) (peerIp : IpAddr)
    (port : UInt16) (sessionId : SessionId) : Lease :=
  { port := port
    lastIp := some peerIp
    retiredTokenIds := (existing.map Lease.retiredTokenIds).getD []
    recoveryId := (existing.bind Lease.recoveryId).or presented
    status := .active sessionId }

/-- The checks a successful activation passed, on the reaped table `t`. -/
structure Activates (t : LeaseTable) (tokenId : TokenId) (presented : Option TokenId)
    (peerIp : IpAddr) (port : UInt16) (sessionId : SessionId) : Prop where
  offered : ∃ ports, t.offer tokenId peerIp = .ok ports ∧ port ∈ ports
  keyFree : t.recoveryKeyOwned tokenId presented = false
  keyMatches : recoveryKeyMismatch (t.leases.lookup tokenId) presented = false
  fresh : t.nextSessionId.checkedAdd 1 = some sessionId.value

theorem activateWithRecovery_cases {presented : Option TokenId} {r : Except LeaseError SessionId}
    (h : t.activateWithRecovery tokenId presented peerIp port now = (r, t')) :
    (∃ e, r = .error e ∧ t' = t.reapExpired now) ∨
      ∃ s, r = .ok s ∧ (t.reapExpired now).Activates tokenId presented peerIp port s ∧
        t' =
          { leases := (t.reapExpired now).leases.insert tokenId
              (activeLease ((t.reapExpired now).leases.lookup tokenId) presented peerIp port s)
            nextSessionId := s.value } := by
  simp only [activateWithRecovery, candidatePorts_eq] at h
  cases ho : (t.reapExpired now).offer tokenId peerIp with
  | error e => rw [ho] at h; cases h; exact .inl ⟨_, rfl, rfl⟩
  | ok ports =>
    simp only [ho] at h
    split at h
    · cases h; exact .inl ⟨_, rfl, rfl⟩
    · rename_i hp
      split at h
      · cases h; exact .inl ⟨_, rfl, rfl⟩
      · rename_i hk
        split at h
        · cases h; exact .inl ⟨_, rfl, rfl⟩
        · rename_i hm
          split at h
          · cases h; exact .inl ⟨_, rfl, rfl⟩
          · rename_i next hn
            cases h
            refine .inr ⟨⟨next⟩, rfl, ⟨⟨ports, ho, ?_⟩, ?_, ?_, hn⟩, rfl⟩
            · simpa using hp
            · simpa using hk
            · simpa using hm

theorem activateWithRecovery_error {presented : Option TokenId} {e : LeaseError}
    (h : (t.reapExpired now).offer tokenId peerIp = .error e) :
    t.activateWithRecovery tokenId presented peerIp port now = (.error e, t.reapExpired now) := by
  simp only [activateWithRecovery, candidatePorts_eq, h]

/-- An activation that passes the checks succeeds. -/
theorem activateWithRecovery_ok {presented : Option TokenId} {ports : List UInt16}
    (ho : (t.reapExpired now).offer tokenId peerIp = .ok ports) (hp : port ∈ ports)
    (hk : (t.reapExpired now).recoveryKeyOwned tokenId presented = false)
    (hm : recoveryKeyMismatch ((t.reapExpired now).leases.lookup tokenId) presented = false)
    (hn : t.nextSessionId ≠ UInt64.maxValue) :
    ∃ s, (t.activateWithRecovery tokenId presented peerIp port now).1 = .ok s := by
  obtain ⟨next, hnext⟩ := UInt64.checkedAdd_one hn
  have hp : ports.contains port = true := List.contains_iff_mem.mpr hp
  simp only [activateWithRecovery, candidatePorts_eq, ho, hp, hk, hm, reapExpired_nextSessionId,
    hnext]
  exact ⟨_, rfl⟩

theorem endSession_cases {sessionId : SessionId} {b : Bool}
    (h : t.endSession tokenId sessionId now = (b, t')) :
    (b = false ∧ t' = t ∧
        ∀ lease, t.leases.lookup tokenId = some lease → lease.status ≠ .active sessionId) ∨
      ∃ lease, b = true ∧ t.leases.lookup tokenId = some lease ∧
        lease.status = .active sessionId ∧
        t' =
          { t with
            leases := t.leases.insert tokenId
              { lease with status := .grace (now.saturatingAdd graceMs) } } := by
  simp only [endSession] at h
  split at h
  · rename_i hl
    cases h
    exact .inl ⟨rfl, rfl, by simp [hl]⟩
  · rename_i lease hl
    split at h
    · rename_i hs
      cases h
      exact .inr ⟨lease, rfl, hl, hs, rfl⟩
    · rename_i hs
      cases h
      exact .inl ⟨rfl, rfl, by simpa [hl] using hs⟩

/-- The checks a rotation that transfers the claim passed, on the reaped table `t`. -/
structure Rotates (t : LeaseTable) (old new : TokenId) (lease : Lease) : Prop where
  held : t.leases.lookup old = some lease
  idle : ∃ e, lease.status = .grace e
  unrotated : lease.retiredTokenIds = []
  distinct : old ≠ new
  newUnused : t.leases.lookup new = none
  newNotRetired : t.isRetired new = false
  oldNotRetired : t.isRetired old = false

theorem rotateClaim_cases {r : Except LeaseError RotationResult}
    (h : t.rotateClaim old new now = (r, t')) :
    (∃ lease, (t.reapExpired now).Rotates old new lease ∧ r = .ok (.transferred lease.port) ∧
        t' = (t.reapExpired now).moveClaim old new { lease with retiredTokenIds := [old] }) ∨
      (t' = t.reapExpired now ∧
        ((∃ e, r = .error e) ∨
          (∃ lease, (t.reapExpired now).leases.lookup new = some lease ∧
            old ∈ lease.retiredTokenIds ∧ r = .ok (.unchanged (some lease.port))) ∨
          ((t.reapExpired now).leases.lookup new = none ∧
            (t.reapExpired now).leases.lookup old = none ∧ r = .ok (.unchanged none)))) := by
  simp only [rotateClaim] at h
  split at h
  · cases h; exact .inr ⟨rfl, .inl ⟨_, rfl⟩⟩
  · rename_i hne
    split at h
    · rename_i lease hl
      split at h
      · rename_i hm
        cases h
        exact .inr ⟨rfl, .inr (.inl ⟨lease, hl, by simpa using hm, rfl⟩)⟩
      · cases h; exact .inr ⟨rfl, .inl ⟨_, rfl⟩⟩
    · rename_i hn
      split at h
      · cases h; exact .inr ⟨rfl, .inl ⟨_, rfl⟩⟩
      · rename_i hnr
        split at h
        · cases h; exact .inr ⟨rfl, .inl ⟨_, rfl⟩⟩
        · rename_i hor
          split at h
          · rename_i ho
            cases h; exact .inr ⟨rfl, .inr (.inr ⟨hn, ho, rfl⟩)⟩
          · rename_i lease ho
            split at h
            · cases h; exact .inr ⟨rfl, .inl ⟨_, rfl⟩⟩
            · rename_i e hs
              split at h
              · rename_i he
                cases h
                have hnil : lease.retiredTokenIds = [] := by simpa using he
                exact .inl ⟨lease, ⟨ho, ⟨e, hs⟩, hnil, hne, hn, by simpa using hnr,
                  by simpa using hor⟩, rfl, by rw [hnil]; rfl⟩
              · cases h; exact .inr ⟨rfl, .inl ⟨_, rfl⟩⟩

/-- A rotation that passes the checks moves the claim. -/
theorem rotateClaim_ok (h : (t.reapExpired now).Rotates old new lease) :
    t.rotateClaim old new now =
      (.ok (.transferred lease.port),
        (t.reapExpired now).moveClaim old new { lease with retiredTokenIds := [old] }) := by
  obtain ⟨e, hs⟩ := h.idle
  simp [rotateClaim, h.distinct, h.newUnused, h.newNotRetired, h.oldNotRetired, h.held, hs,
    h.unrotated]

/-- After a move the claim is at `new`, nothing is at `old`, and the rest is where it was. -/
theorem lookup_moveClaim_eq_some {lease' : Lease} :
    (t.moveClaim old new lease).leases.lookup k = some lease' ↔
      (k = new ∧ lease' = lease) ∨ (k ≠ new ∧ k ≠ old ∧ t.leases.lookup k = some lease') := by
  show AList.lookup k (AList.insert new lease (AList.erase old t.leases)) = _ ↔ _
  rw [KeyedMap.lookup_insert, KeyedMap.lookup_erase]
  by_cases hk : k = new
  · simp [hk, eq_comm]
  · rw [if_neg hk]
    by_cases ho : k = old
    · subst ho; simp [hk]
    · simp [hk, ho]

/-- The checks a recovery that moves the claim passed, on the reaped table `t`. -/
structure Recovers (t : LeaseTable) (recoveryId old new : TokenId) (peerIp : IpAddr)
    (lease : Lease) : Prop where
  held : t.leases.lookup old = some lease
  enrolled : lease.recoveryId = some recoveryId
  distinct : old ≠ new
  newUnused : t.leases.lookup new = none
  newNotRetired : t.isRetired new = false
  admitted : t.Admits lease peerIp

/-- The session a recovery of the claim of `old` displaces. -/
def displacedSession (old : TokenId) (lease : Lease) : Option (TokenId × SessionId) :=
  match lease.status with
  | .active sessionId => some (old, sessionId)
  | .grace _ => none

/-- The lease a recovery of the claim of `old` stores under the new token. -/
def recoveredLease (lease : Lease) (old : TokenId) (peerIp : IpAddr) (now : UInt64) : Lease :=
  { lease with
    status := .grace (now.saturatingAdd graceMs)
    lastIp := some peerIp
    retiredTokenIds := retire lease.retiredTokenIds old }

theorem recoverClaim_cases {r : Except LeaseError RecoveryResult}
    (h : t.recoverClaim recoveryId new peerIp now = (r, t')) :
    (∃ old lease, (t.reapExpired now).Recovers recoveryId old new peerIp lease ∧
        r = .ok
          { port := lease.port, displaced := displacedSession old lease, changed := true } ∧
        t' = (t.reapExpired now).moveClaim old new (recoveredLease lease old peerIp now)) ∨
      (t' = t.reapExpired now ∧
        ((∃ e, r = .error e) ∨
          ∃ lease, (t.reapExpired now).leases.lookup new = some lease ∧
            lease.recoveryId = some recoveryId ∧
            r = .ok { port := lease.port, displaced := none, changed := false })) := by
  simp only [recoverClaim] at h
  split at h
  · cases h; exact .inr ⟨rfl, .inl ⟨_, rfl⟩⟩
  · rename_i old lease hf
    obtain ⟨hl, hr⟩ := KeyedMap.find?_eq_some hf
    have hr : lease.recoveryId = some recoveryId := by simpa using hr
    split at h
    · rename_i he
      cases h
      exact .inr ⟨rfl, .inr ⟨lease, he ▸ hl, hr, rfl⟩⟩
    · rename_i hne
      split at h
      · cases h; exact .inr ⟨rfl, .inl ⟨_, rfl⟩⟩
      · rename_i hn
        split at h
        · cases h; exact .inr ⟨rfl, .inl ⟨_, rfl⟩⟩
        · rename_i hnr
          split at h
          · cases h; exact .inr ⟨rfl, .inl ⟨_, rfl⟩⟩
          · rename_i hq
            cases h
            exact .inl ⟨old, lease, ⟨hl, hr, hne, AList.lookup_eq_none.mpr hn,
              by simpa using hnr, checkIpQuota_lease.mp hq⟩, rfl, rfl⟩

/-- A recovery that passes the checks moves the claim. -/
theorem recoverClaim_ok (h : (t.reapExpired now).Recovers recoveryId old new peerIp lease)
    (hu : ∀ k lease', (t.reapExpired now).leases.lookup k = some lease' →
      lease'.recoveryId = some recoveryId → k = old) :
    t.recoverClaim recoveryId new peerIp now =
      (.ok { port := lease.port, displaced := displacedSession old lease, changed := true },
        (t.reapExpired now).moveClaim old new (recoveredLease lease old peerIp now)) := by
  have hf : (t.reapExpired now).leases.find? (fun _ lease => lease.recoveryId == some recoveryId) =
      some (old, lease) :=
    KeyedMap.find?_of_unique h.held (by simp [h.enrolled]) fun k l hl hr =>
      hu k l hl (by simpa using hr)
  have hn : new ∉ (t.reapExpired now).leases := AList.lookup_eq_none.mp h.newUnused
  have hq := checkIpQuota_lease.mpr h.admitted
  simp only [recoverClaim, hf, h.distinct, if_false, hn, h.newNotRetired, Bool.false_eq_true, hq]
  rfl

end LeaseTable
end GameNet
