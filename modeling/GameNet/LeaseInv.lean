import GameNet.LeaseSpec

/-!
# GameNet.LeaseInv

The representation invariant of the lease table, and that every operation keeps it.

Every mutation of the table is an insertion over a part of the table: a new host, a reconnect and
`endSession` insert at their own key; `rotateClaim` and `recoverClaim` insert at the new token
after the old entry is gone. `Fits t k lease` says what a lease inserted at `k` must satisfy
beside the other entries, and `WellFormed.insert` is the one lemma about insertion.
-/

namespace GameNet
namespace LeaseTable

/-- The representation invariant, over all stored leases, expired ones included. -/
structure WellFormed (t : LeaseTable) : Prop where
  portInPool : ∀ {k lease}, t.leases.lookup k = some lease →
    portStart ≤ lease.port ∧ lease.port ≤ portEnd
  portUnique : ∀ {k k' lease lease'}, t.leases.lookup k = some lease →
    t.leases.lookup k' = some lease' → lease.port = lease'.port → k = k'
  keyNotRetired : ∀ {k k' lease lease'}, t.leases.lookup k = some lease →
    t.leases.lookup k' = some lease' → k ∉ lease'.retiredTokenIds
  retiredNodup : ∀ {k lease}, t.leases.lookup k = some lease → lease.retiredTokenIds.Nodup
  retiredUnique : ∀ {k k' lease lease' x}, t.leases.lookup k = some lease →
    t.leases.lookup k' = some lease' → x ∈ lease.retiredTokenIds →
    x ∈ lease'.retiredTokenIds → k = k'
  recoveryUnique : ∀ {k k' lease lease' r}, t.leases.lookup k = some lease →
    t.leases.lookup k' = some lease' → lease.recoveryId = some r →
    lease'.recoveryId = some r → k = k'
  retiredBound : ∀ {k lease}, t.leases.lookup k = some lease →
    lease.retiredTokenIds.length ≤ maxRetiredIdentities
  sessionBound : ∀ {k lease s}, t.leases.lookup k = some lease → lease.status = .active s →
    s.value ≤ t.nextSessionId
  sessionUnique : ∀ {k k' lease lease' s}, t.leases.lookup k = some lease →
    t.leases.lookup k' = some lease' → lease.status = .active s →
    lease'.status = .active s → k = k'

/-- `lease` can be stored at `k` beside the entries `t` has at other keys. -/
structure Fits (t : LeaseTable) (k : TokenId) (lease : Lease) : Prop where
  portInPool : portStart ≤ lease.port ∧ lease.port ≤ portEnd
  portFree : ∀ {k' lease'}, k' ≠ k → t.leases.lookup k' = some lease' → lease.port ≠ lease'.port
  keyNotRetired : ∀ {k' lease'}, k' ≠ k → t.leases.lookup k' = some lease' →
    k ∉ lease'.retiredTokenIds
  keyNotOwnRetired : k ∉ lease.retiredTokenIds
  retiredNodup : lease.retiredTokenIds.Nodup
  retiredNotKey : ∀ {k' lease'}, k' ≠ k → t.leases.lookup k' = some lease' →
    k' ∉ lease.retiredTokenIds
  retiredFree : ∀ {k' lease' x}, k' ≠ k → t.leases.lookup k' = some lease' →
    x ∈ lease.retiredTokenIds → x ∉ lease'.retiredTokenIds
  recoveryFree : ∀ {k' lease' r}, k' ≠ k → t.leases.lookup k' = some lease' →
    lease.recoveryId = some r → lease'.recoveryId ≠ some r
  retiredBound : lease.retiredTokenIds.length ≤ maxRetiredIdentities
  sessionBound : ∀ {s}, lease.status = .active s → s.value ≤ t.nextSessionId
  sessionFree : ∀ {k' lease' s}, k' ≠ k → t.leases.lookup k' = some lease' →
    lease.status = .active s → lease'.status ≠ .active s

namespace WellFormed

variable {t t' : LeaseTable} {k old new : TokenId} {lease : Lease} {now : UInt64}

/-- A part of a well-formed table, with at least its session counter, is well formed. -/
theorem of_subset (h : t.WellFormed)
    (hs : ∀ {k lease}, t'.leases.lookup k = some lease → t.leases.lookup k = some lease)
    (hn : t.nextSessionId ≤ t'.nextSessionId) : t'.WellFormed where
  portInPool hl := h.portInPool (hs hl)
  portUnique hl hl' := h.portUnique (hs hl) (hs hl')
  keyNotRetired hl hl' := h.keyNotRetired (hs hl) (hs hl')
  retiredNodup hl := h.retiredNodup (hs hl)
  retiredUnique hl hl' := h.retiredUnique (hs hl) (hs hl')
  recoveryUnique hl hl' := h.recoveryUnique (hs hl) (hs hl')
  retiredBound hl := h.retiredBound (hs hl)
  sessionBound hl ha := UInt64.le_trans (h.sessionBound (hs hl) ha) hn
  sessionUnique hl hl' := h.sessionUnique (hs hl) (hs hl')

theorem same (h : t.WellFormed) (hs : KeyedMap.Same t.leases t'.leases)
    (hn : t.nextSessionId ≤ t'.nextSessionId) : t'.WellFormed :=
  h.of_subset (fun hl => by rw [hs]; exact hl) hn

theorem reapExpired (h : t.WellFormed) : (t.reapExpired now).WellFormed :=
  h.of_subset lookup_of_reapExpired UInt64.le_rfl

theorem erase (h : t.WellFormed) :
    WellFormed { t with leases := t.leases.erase k } :=
  h.of_subset KeyedMap.lookup_of_erase UInt64.le_rfl

theorem fits (h : t.WellFormed) (hl : t.leases.lookup k = some lease) : t.Fits k lease where
  portInPool := h.portInPool hl
  portFree hne hl' he := hne (h.portUnique hl hl' he).symm
  keyNotRetired _ hl' := h.keyNotRetired hl hl'
  keyNotOwnRetired := h.keyNotRetired hl hl
  retiredNodup := h.retiredNodup hl
  retiredNotKey _ hl' := h.keyNotRetired hl' hl
  retiredFree hne hl' hx hx' := hne (h.retiredUnique hl hl' hx hx').symm
  recoveryFree hne hl' hr hr' := hne (h.recoveryUnique hl hl' hr hr').symm
  retiredBound := h.retiredBound hl
  sessionBound := h.sessionBound hl
  sessionFree hne hl' hs hs' := hne (h.sessionUnique hl hl' hs hs').symm

theorem insert (h : t.WellFormed) (hf : t.Fits k lease) :
    WellFormed { t with leases := t.leases.insert k lease } := by
  -- an entry of the new table is the inserted one or an entry of `t` at another key
  have split : ∀ {k' lease'},
      AList.lookup k' (AList.insert k lease t.leases) = some lease' →
        (k' = k ∧ lease' = lease) ∨ (k' ≠ k ∧ t.leases.lookup k' = some lease') := by
    intro k' lease' hl
    rw [KeyedMap.lookup_insert] at hl
    split at hl
    · cases hl; exact .inl ⟨‹_›, rfl⟩
    · exact .inr ⟨‹_›, hl⟩
  constructor
  · intro k₁ l₁ h₁
    obtain ⟨rfl, rfl⟩ | ⟨_, g₁⟩ := split h₁
    · exact hf.portInPool
    · exact h.portInPool g₁
  · intro k₁ k₂ l₁ l₂ h₁ h₂ he
    obtain ⟨rfl, rfl⟩ | ⟨n₁, g₁⟩ := split h₁ <;> obtain ⟨rfl, rfl⟩ | ⟨n₂, g₂⟩ := split h₂
    · rfl
    · exact absurd he (hf.portFree n₂ g₂)
    · exact absurd he.symm (hf.portFree n₁ g₁)
    · exact h.portUnique g₁ g₂ he
  · intro k₁ k₂ l₁ l₂ h₁ h₂
    obtain ⟨rfl, rfl⟩ | ⟨n₁, g₁⟩ := split h₁ <;> obtain ⟨rfl, rfl⟩ | ⟨n₂, g₂⟩ := split h₂
    · exact hf.keyNotOwnRetired
    · exact hf.keyNotRetired n₂ g₂
    · exact hf.retiredNotKey n₁ g₁
    · exact h.keyNotRetired g₁ g₂
  · intro k₁ l₁ h₁
    obtain ⟨rfl, rfl⟩ | ⟨_, g₁⟩ := split h₁
    · exact hf.retiredNodup
    · exact h.retiredNodup g₁
  · intro k₁ k₂ l₁ l₂ x h₁ h₂ hx₁ hx₂
    obtain ⟨rfl, rfl⟩ | ⟨n₁, g₁⟩ := split h₁ <;> obtain ⟨rfl, rfl⟩ | ⟨n₂, g₂⟩ := split h₂
    · rfl
    · exact absurd hx₂ (hf.retiredFree n₂ g₂ hx₁)
    · exact absurd hx₁ (hf.retiredFree n₁ g₁ hx₂)
    · exact h.retiredUnique g₁ g₂ hx₁ hx₂
  · intro k₁ k₂ l₁ l₂ r h₁ h₂ hr₁ hr₂
    obtain ⟨rfl, rfl⟩ | ⟨n₁, g₁⟩ := split h₁ <;> obtain ⟨rfl, rfl⟩ | ⟨n₂, g₂⟩ := split h₂
    · rfl
    · exact absurd hr₂ (hf.recoveryFree n₂ g₂ hr₁)
    · exact absurd hr₁ (hf.recoveryFree n₁ g₁ hr₂)
    · exact h.recoveryUnique g₁ g₂ hr₁ hr₂
  · intro k₁ l₁ h₁
    obtain ⟨rfl, rfl⟩ | ⟨_, g₁⟩ := split h₁
    · exact hf.retiredBound
    · exact h.retiredBound g₁
  · intro k₁ l₁ s h₁ hs
    obtain ⟨rfl, rfl⟩ | ⟨_, g₁⟩ := split h₁
    · exact hf.sessionBound hs
    · exact h.sessionBound g₁ hs
  · intro k₁ k₂ l₁ l₂ s h₁ h₂ hs₁ hs₂
    obtain ⟨rfl, rfl⟩ | ⟨n₁, g₁⟩ := split h₁ <;> obtain ⟨rfl, rfl⟩ | ⟨n₂, g₂⟩ := split h₂
    · rfl
    · exact absurd hs₂ (hf.sessionFree n₂ g₂ hs₁)
    · exact absurd hs₁ (hf.sessionFree n₁ g₁ hs₂)
    · exact h.sessionUnique g₁ g₂ hs₁ hs₂

theorem isRetired_key (h : t.WellFormed) (hl : t.leases.lookup k = some lease) :
    t.isRetired k = false :=
  isRetired_eq_false.mpr fun _ _ hl' => h.keyNotRetired hl hl'

/-- A claim moves from `old` to a token that is neither a key nor retired; its new retired list
holds old entries and `old` only. -/
theorem moveClaim {lease' : Lease} (h : t.WellFormed) (hl : t.leases.lookup old = some lease)
    (hn : t.leases.lookup new = none) (hr : t.isRetired new = false)
    (hp : lease'.port = lease.port) (hrec : lease'.recoveryId = lease.recoveryId)
    (hnd : lease'.retiredTokenIds.Nodup)
    (hb : lease'.retiredTokenIds.length ≤ maxRetiredIdentities)
    (hsub : ∀ x ∈ lease'.retiredTokenIds, x = old ∨ x ∈ lease.retiredTokenIds)
    (hst : ∃ e, lease'.status = .grace e) : (t.moveClaim old new lease').WellFormed := by
  have hr := isRetired_eq_false.mp hr
  have hne : new ≠ old := by rintro rfl; rw [hn] at hl; cases hl
  have other : ∀ {k' l'}, AList.lookup k' (AList.erase old t.leases) = some l' →
      k' ≠ old ∧ t.leases.lookup k' = some l' := by
    intro k' l' hl'
    rw [KeyedMap.lookup_erase] at hl'
    split at hl'
    · cases hl'
    · exact ⟨‹_›, hl'⟩
  obtain ⟨e, hst⟩ := hst
  refine (h.erase (k := old)).insert
    { portInPool := by rw [hp]; exact h.portInPool hl
      portFree := ?_, keyNotRetired := ?_, keyNotOwnRetired := ?_, retiredNodup := hnd
      retiredNotKey := ?_, retiredFree := ?_, recoveryFree := ?_, retiredBound := hb
      sessionBound := by simp [hst], sessionFree := by simp [hst] }
  · intro k' l' _ hl'
    obtain ⟨hk, hl'⟩ := other hl'
    rw [hp]
    exact (h.fits hl).portFree hk hl'
  · intro k' l' _ hl'
    exact hr k' l' (other hl').2
  · intro hx
    obtain rfl | hx := hsub _ hx
    · exact hne rfl
    · exact hr old lease hl hx
  · intro k' l' _ hl' hx
    obtain ⟨hk, hk'⟩ := other hl'
    obtain he | hx := hsub _ hx
    · exact hk he
    · exact h.keyNotRetired hk' hl hx
  · intro k' l' x _ hl' hx hx'
    obtain ⟨hk, hk'⟩ := other hl'
    obtain he | hx := hsub _ hx
    · exact h.keyNotRetired hl hk' (he ▸ hx')
    · exact (h.fits hl).retiredFree hk hk' hx hx'
  · intro k' l' r _ hl' hr'
    obtain ⟨hk, hl'⟩ := other hl'
    exact (h.fits hl).recoveryFree hk hl' (hrec ▸ hr')

end WellFormed

/-! ## The operations -/

theorem wellFormed_new : new.WellFormed where
  portInPool h := by cases h
  portUnique h := by cases h
  keyNotRetired h := by cases h
  retiredNodup h := by cases h
  retiredUnique h := by cases h
  recoveryUnique h := by cases h
  retiredBound h := by cases h
  sessionBound h := by cases h
  sessionUnique h := by cases h

variable {t t' : LeaseTable} {k old new tokenId recoveryId : TokenId} {now : UInt64}
  {lease : Lease} {peerIp : IpAddr} {port : UInt16}

/-- The offered ports of a token are in the pool and held by no other token. -/
theorem offer_port {ports : List UInt16} (h : t.WellFormed)
    (ho : t.offer tokenId peerIp = .ok ports) (hp : port ∈ ports) :
    (portStart ≤ port ∧ port ≤ portEnd) ∧
      ∀ k lease, k ≠ tokenId → t.leases.lookup k = some lease → port ≠ lease.port := by
  obtain ⟨_, ⟨lease, e, hl, _, _, rfl⟩ | ⟨_, _, _, rfl⟩⟩ := offer_eq_ok.mp ho
  · cases List.mem_singleton.mp hp
    exact ⟨h.portInPool hl, fun k l hk hl' => (h.fits hl).portFree hk hl'⟩
  · obtain ⟨hr, hn⟩ := mem_freePorts.mp hp
    exact ⟨hr, fun k l _ hl he => hn ⟨k, l, hl, he.symm⟩⟩

/-- A reconnect keeps the port of the claim. -/
theorem Activates.port_eq {presented : Option TokenId} {s : SessionId}
    (ha : t.Activates tokenId presented peerIp port s)
    (hl : t.leases.lookup tokenId = some lease) : port = lease.port := by
  obtain ⟨ports, ho, hp⟩ := ha.offered
  obtain ⟨_, ⟨lease', e, hl', _, _, rfl⟩ | ⟨hn, _⟩⟩ := offer_eq_ok.mp ho
  · rw [hl] at hl'; cases hl'
    exact List.mem_singleton.mp hp
  · rw [hl] at hn; cases hn

theorem Activates.lt_session {presented : Option TokenId} {s : SessionId}
    (ha : t.Activates tokenId presented peerIp port s) : t.nextSessionId < s.value := by
  have := UInt64.checkedAdd_eq_some ha.fresh
  have h1 : (1 : UInt64).toNat = 1 := rfl
  rw [UInt64.lt_iff_toNat_lt]; omega

theorem WellFormed.activate {presented : Option TokenId} {s : SessionId} (h : t.WellFormed)
    (ha : t.Activates tokenId presented peerIp port s) :
    WellFormed
      { leases := t.leases.insert tokenId
          (activeLease (t.leases.lookup tokenId) presented peerIp port s)
        nextSessionId := s.value } := by
  obtain ⟨ports, ho, hp⟩ := ha.offered
  obtain ⟨hport, hfree⟩ := offer_port h ho hp
  have hnr := isRetired_eq_false.mp (offer_eq_ok.mp ho).1
  have hlt := ha.lt_session
  have hle : t.nextSessionId ≤ s.value := by grind
  have hw : WellFormed { t with nextSessionId := s.value } := h.of_subset (fun hl => hl) hle
  refine hw.insert
    { portInPool := hport
      portFree := fun hk hl => hfree _ _ hk hl
      keyNotRetired := fun _ hl => hnr _ _ hl
      keyNotOwnRetired := ?_, retiredNodup := ?_, retiredNotKey := ?_, retiredFree := ?_
      recoveryFree := ?_, retiredBound := ?_
      sessionBound := fun hs => by cases hs; exact UInt64.le_rfl
      sessionFree := ?_ }
  -- the retired list is the existing lease's, or empty
  · cases hl : t.leases.lookup tokenId with
    | none => simp [activeLease]
    | some lease => exact (h.fits hl).keyNotOwnRetired
  · cases hl : t.leases.lookup tokenId with
    | none => simp [activeLease]
    | some lease => exact (h.fits hl).retiredNodup
  · intro k' l' hk hl'
    cases hl : t.leases.lookup tokenId with
    | none => simp [activeLease]
    | some lease => exact (h.fits hl).retiredNotKey hk hl'
  · intro k' l' x hk hl'
    cases hl : t.leases.lookup tokenId with
    | none => simp [activeLease]
    | some lease => exact (h.fits hl).retiredFree hk hl'
  · -- the recovery key is the enrolled one, or the presented one, which nobody else has
    intro k' l' r hk hl' hr
    simp only [activeLease, Option.or_eq_some_iff, Option.bind_eq_some_iff] at hr
    obtain ⟨lease, hl, hr⟩ | ⟨_, hr⟩ := hr
    · exact (h.fits hl).recoveryFree hk hl' hr
    · exact recoveryKeyOwned_eq_false.mp ha.keyFree r hr k' l' hl' hk
  · cases hl : t.leases.lookup tokenId with
    | none => simp [activeLease]
    | some lease => exact (h.fits hl).retiredBound
  · intro k' l' s' _ hl' hs hs'
    cases hs
    have := h.sessionBound hl' hs'
    grind

theorem WellFormed.activateWithRecovery {presented : Option TokenId}
    {r : Except LeaseError SessionId} (h : t.WellFormed)
    (ho : t.activateWithRecovery tokenId presented peerIp port now = (r, t')) :
    t'.WellFormed := by
  obtain ⟨e, _, rfl⟩ | ⟨s, _, ha, rfl⟩ := activateWithRecovery_cases ho
  · exact h.reapExpired
  · exact h.reapExpired.activate ha

theorem WellFormed.endSession {sessionId : SessionId} {b : Bool} (h : t.WellFormed)
    (ho : t.endSession tokenId sessionId now = (b, t')) : t'.WellFormed := by
  obtain ⟨_, rfl, _⟩ | ⟨lease, _, hl, _, rfl⟩ := endSession_cases ho
  · exact h
  · have hf := h.fits hl
    exact h.insert
      { hf with
        portInPool := hf.portInPool, portFree := hf.portFree
        sessionBound := by simp, sessionFree := by simp }

theorem WellFormed.rotateClaim {r : Except LeaseError RotationResult} (h : t.WellFormed)
    (ho : t.rotateClaim old new now = (r, t')) : t'.WellFormed := by
  obtain ⟨lease, hr, _, rfl⟩ | ⟨rfl, _⟩ := rotateClaim_cases ho
  · exact h.reapExpired.moveClaim hr.held hr.newUnused hr.newNotRetired rfl rfl
      (List.nodup_singleton old) (Nat.le_of_ble_eq_true rfl)
      (fun x hx => .inl (List.mem_singleton.mp hx)) hr.idle
  · exact h.reapExpired

/-- The retired token is the last of the list: the cap drops only the first. -/
theorem retire_eq (retired : List TokenId) (old : TokenId) :
    ∃ before, retire retired old = before ++ [old] := by
  simp only [retire]
  split
  · rename_i hover
    cases retired with
    | nil => simp [maxRetiredIdentities] at hover
    | cons y rest => exact ⟨rest, rfl⟩
  · exact ⟨retired, rfl⟩

theorem mem_retire {retired : List TokenId} {x : TokenId} (h : x ∈ retire retired old) :
    x = old ∨ x ∈ retired := by
  have h : x ∈ retired ++ [old] := by
    simp only [retire] at h
    split at h
    · exact List.mem_of_mem_tail h
    · exact h
  rw [List.mem_append, List.mem_singleton] at h
  exact h.symm

theorem nodup_retire {retired : List TokenId} (h : retired.Nodup) (ho : old ∉ retired) :
    (retire retired old).Nodup := by
  have h' : (retired ++ [old]).Nodup := by
    rw [List.nodup_append]
    exact ⟨h, List.nodup_singleton _, fun x hx y hy => by
      rw [List.mem_singleton.mp hy]; rintro rfl; exact ho hx⟩
  simp only [retire]
  split
  · exact h'.sublist (List.tail_sublist _)
  · exact h'

theorem length_retire {retired : List TokenId} (h : retired.length ≤ maxRetiredIdentities) :
    (retire retired old).length ≤ maxRetiredIdentities := by
  simp only [retire]
  split
  · simp; omega
  · omega

theorem WellFormed.recoverClaim {r : Except LeaseError RecoveryResult} (h : t.WellFormed)
    (ho : t.recoverClaim recoveryId new peerIp now = (r, t')) : t'.WellFormed := by
  obtain ⟨old, lease, hr, _, rfl⟩ | ⟨rfl, _⟩ := recoverClaim_cases ho
  · have hw : (t.reapExpired now).WellFormed := h.reapExpired
    exact hw.moveClaim hr.held hr.newUnused hr.newNotRetired rfl rfl
      (nodup_retire (hw.retiredNodup hr.held) (hw.keyNotRetired hr.held hr.held))
      (length_retire (hw.retiredBound hr.held)) (fun x hx => mem_retire hx) ⟨_, rfl⟩
  · exact h.reapExpired

end LeaseTable
end GameNet
