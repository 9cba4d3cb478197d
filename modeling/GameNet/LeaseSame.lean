import GameNet.LeaseRestore

/-!
# GameNet.LeaseSame

The iteration order of the hash map does not show. `Same t t'` says that two tables hold the same
leases in any order; every operation on them gives the same answer and leaves tables that are
again the `Same`.

Only an activation looks at the session counter too. Only `recoverClaim` looks for the first entry
of some kind: it takes a well-formed table, where at most one entry has the recovery key.
-/

namespace GameNet
namespace LeaseTable

/-- The same leases in any iteration order. -/
structure Same (t t' : LeaseTable) : Prop where
  leases : KeyedMap.Same t.leases t'.leases

/-- The same answer, and tables that are the same. -/
structure Agree {α : Type} (x y : α × LeaseTable) : Prop where
  answer : x.1 = y.1
  table : x.2.Same y.2

variable {t t' t'' : LeaseTable} {now : UInt64} {tokenId old new : TokenId} {peerIp : IpAddr}

namespace Same

theorem refl (t : LeaseTable) : t.Same t := ⟨.refl _⟩

theorem symm (h : t.Same t') : t'.Same t := ⟨h.leases.symm⟩

theorem trans (h : t.Same t') (h' : t'.Same t'') : t.Same t'' := ⟨h.leases.trans h'.leases⟩

theorem wellFormed (h : t.Same t') (hn : t.nextSessionId = t'.nextSessionId)
    (hw : t.WellFormed) : t'.WellFormed :=
  hw.same h.leases (by rw [hn]; exact UInt64.le_rfl)

theorem reapExpired (h : t.Same t') (now : UInt64) :
    (t.reapExpired now).Same (t'.reapExpired now) := ⟨h.leases.retain _⟩

theorem isRetired (h : t.Same t') (tokenId : TokenId) :
    t.isRetired tokenId = t'.isRetired tokenId := h.leases.any_values _

theorem sourceCount (h : t.Same t') (source : HostSource) :
    t.sourceCount source = t'.sourceCount source := h.leases.countP_values _

theorem checkIpQuota (h : t.Same t') (peerIp : IpAddr) (b : Bool) :
    t.checkIpQuota peerIp b = t'.checkIpQuota peerIp b := by
  simp only [LeaseTable.checkIpQuota, h.sourceCount]

theorem admits (h : t.Same t') {lease : Lease} (ha : t.Admits lease peerIp) :
    t'.Admits lease peerIp := by
  simpa only [Admits, h.sourceCount] using ha

theorem occupied (h : t.Same t') {port : UInt16} (ho : t.Occupied port) : t'.Occupied port := by
  obtain ⟨k, lease, hl, hp⟩ := ho
  exact ⟨k, lease, by rw [← h.leases]; exact hl, hp⟩

theorem freePorts (h : t.Same t') : t.freePorts = t'.freePorts := by
  unfold LeaseTable.freePorts
  apply List.filter_congr
  intro port _
  have hm := (h.leases.values.map Lease.port).mem_iff (a := port)
  simp only [← List.contains_iff_mem, ← Bool.eq_iff_iff] at hm
  rw [hm]

theorem offer (h : t.Same t') (tokenId : TokenId) (peerIp : IpAddr) :
    t.offer tokenId peerIp = t'.offer tokenId peerIp := by
  simp only [LeaseTable.offer, h.isRetired, h.leases tokenId, h.checkIpQuota, h.freePorts]

theorem recoveryKeyOwned (h : t.Same t') (tokenId : TokenId) (presented : Option TokenId) :
    t.recoveryKeyOwned tokenId presented = t'.recoveryKeyOwned tokenId presented := by
  cases presented with
  | none => rfl
  | some r => exact h.leases.perm.any_eq

theorem insert (h : t.Same t') (k : TokenId) (lease : Lease) (n n' : UInt64) :
    Same ⟨t.leases.insert k lease, n⟩ ⟨t'.leases.insert k lease, n'⟩ := ⟨h.leases.insert _ _⟩

theorem moveClaim (h : t.Same t') (old new : TokenId) (lease : Lease) :
    (t.moveClaim old new lease).Same (t'.moveClaim old new lease) :=
  ⟨(h.leases.erase _).insert _ _⟩

/-! ## The operations -/

theorem candidatePorts (h : t.Same t') :
    Agree (t.candidatePorts tokenId peerIp now) (t'.candidatePorts tokenId peerIp now) :=
  ⟨(h.reapExpired now).offer _ _, h.reapExpired now⟩

theorem activateWithRecovery (h : t.Same t') (hn : t.nextSessionId = t'.nextSessionId)
    {presented : Option TokenId} {port : UInt16} :
    Agree (t.activateWithRecovery tokenId presented peerIp port now)
      (t'.activateWithRecovery tokenId presented peerIp port now) := by
  have hr := h.reapExpired now
  simp only [LeaseTable.activateWithRecovery, candidatePorts_eq, hr.offer]
  split
  · rename_i heq
    obtain ⟨h₁, rfl⟩ := Prod.mk.inj heq
    simp only [h₁]
    exact ⟨rfl, hr⟩
  · rename_i heq
    obtain ⟨h₁, rfl⟩ := Prod.mk.inj heq
    simp only [h₁, hr.recoveryKeyOwned, hr.leases tokenId, reapExpired_nextSessionId, hn]
    split
    · exact ⟨rfl, hr⟩
    · split
      · exact ⟨rfl, hr⟩
      · split
        · exact ⟨rfl, hr⟩
        · split
          · exact ⟨rfl, hr⟩
          · exact ⟨rfl, hr.insert _ _ _ _⟩

theorem endSession (h : t.Same t') {sessionId : SessionId} :
    Agree (t.endSession tokenId sessionId now) (t'.endSession tokenId sessionId now) := by
  simp only [LeaseTable.endSession, h.leases tokenId]
  split
  · exact ⟨rfl, h⟩
  · split
    · exact ⟨rfl, h.insert _ _ _ _⟩
    · exact ⟨rfl, h⟩

theorem rotateClaim (h : t.Same t') :
    Agree (t.rotateClaim old new now) (t'.rotateClaim old new now) := by
  have hr := h.reapExpired now
  simp only [LeaseTable.rotateClaim, hr.leases new, hr.leases old, hr.isRetired]
  repeat' split
  all_goals first | exact ⟨rfl, hr⟩ | exact ⟨rfl, hr.moveClaim _ _ _⟩

/-- A well-formed table has at most one claim to recover with a key. -/
theorem findRecovery (h : t.Same t') (hw : t.WellFormed) (recoveryId : TokenId) :
    t.leases.find? (fun _ lease => lease.recoveryId == some recoveryId) =
      t'.leases.find? fun _ lease => lease.recoveryId == some recoveryId := by
  cases hf : t.leases.find? fun _ lease => lease.recoveryId == some recoveryId with
  | none =>
    symm
    rw [KeyedMap.find?_eq_none] at hf ⊢
    intro k lease hl
    exact hf k lease (by rw [h.leases]; exact hl)
  | some e =>
    obtain ⟨k, lease⟩ := e
    obtain ⟨hl, hr⟩ := KeyedMap.find?_eq_some hf
    have hl₂ : t'.leases.lookup k = some lease := by rw [← h.leases]; exact hl
    refine (KeyedMap.find?_of_unique hl₂ hr fun k' lease' hl' hr' => ?_).symm
    rw [← h.leases] at hl'
    exact hw.recoveryUnique hl' hl (by simpa using hr') (by simpa using hr)

theorem recoverClaim (h : t.Same t') (hw : t.WellFormed) {recoveryId : TokenId} :
    Agree (t.recoverClaim recoveryId new peerIp now)
      (t'.recoverClaim recoveryId new peerIp now) := by
  have hr := h.reapExpired now
  have hf := hr.findRecovery hw.reapExpired recoveryId
  have hmem : new ∈ (t.reapExpired now).leases ↔ new ∈ (t'.reapExpired now).leases :=
    hr.leases.mem new
  simp only [LeaseTable.recoverClaim, hf, hmem, hr.isRetired, hr.checkIpQuota]
  repeat' split
  all_goals first | exact ⟨rfl, hr⟩ | exact ⟨rfl, hr.moveClaim _ _ _⟩

theorem snapshot (h : t.Same t') (savedAt : UInt64) :
    (t.snapshot savedAt).Perm (t'.snapshot savedAt) := h.leases.perm.map _

end Same

/-- The records may come in any order. -/
theorem Valid.perm {records records' : List LeaseRecord} (h : Valid records)
    (hp : records.Perm records') : Valid records' where
  length := hp.length_eq ▸ h.length
  recordOk record hm := h.recordOk record (hp.mem_iff.mpr hm)
  ports := (hp.flatMap_right _).nodup_iff.mp h.ports
  tokens := (hp.flatMap_right _).nodup_iff.mp h.tokens
  retired := (hp.flatMap_right _).nodup_iff.mp h.retired
  recoveryIds := (hp.flatMap_right _).nodup_iff.mp h.recoveryIds
  disjoint r hr r' hr' := h.disjoint r (hp.mem_iff.mpr hr) r' (hp.mem_iff.mpr hr')

theorem Same.load {records records' : List LeaseRecord} (hv : Valid records)
    (hp : records.Perm records') :
    (LeaseTable.load now LeaseTable.new records).Same
      (LeaseTable.load now LeaseTable.new records') := by
  refine ⟨fun k => Option.ext fun lease => ?_⟩
  rw [lookup_load_new hv.tokens, lookup_load_new (hv.perm hp).tokens]
  simp only [hp.mem_iff]

end LeaseTable
end GameNet
