import GameNet.LeaseOrigin

/-!
# GameNet.KeyRing

The tokens of machines that share a recovery key, as the lease table sees them. `Respects` says
that the machines' claims are enrolled with their key, and that a token that is to be the new one of
a request is free for that. Every operation that is `Fair` to the machines keeps it: one that
names their tokens as they do, and retires none that they still want to move to.
-/

namespace GameNet

/-- The fingerprints of the tokens of machines that share a recovery key: all of them, those that
are to be the new token of a request, and those of the latter that are in no file yet. -/
structure KeyRing where
  recoveryId : TokenId
  held : TokenId → Prop
  waiting : TokenId → Prop
  drawn : TokenId → Prop

namespace LeaseTable

/-- The machines' claims are enrolled with their key, and a waiting token can be used. -/
structure Respects (ring : KeyRing) (t : LeaseTable) : Prop where
  enrolled : ∀ {k lease}, t.leases.lookup k = some lease → ring.held k →
    lease.recoveryId = some ring.recoveryId
  notRetired : ∀ {k lease x}, t.leases.lookup k = some lease → x ∈ lease.retiredTokenIds →
    ¬ring.waiting x
  notKey : ∀ {k}, ring.drawn k → t.leases.lookup k = none

/-- An operation that names the machines' tokens only as the machines do, and retires none of the
waiting tokens. -/
def Fair (ring : KeyRing) (t : LeaseTable) (now : UInt64) : Op → Prop
  | .activateWithRecovery tokenId recoveryId _ _ => ¬ring.drawn tokenId ∧
    (ring.held tokenId → recoveryId = some ring.recoveryId)
  | .rotateClaim old new => ¬ring.drawn new ∧ ¬ring.waiting old ∧ (ring.held new → ring.held old)
  | .recoverClaim recoveryId new peerIp => ¬ring.drawn new ∧
    (ring.held new → recoveryId = ring.recoveryId) ∧
    ∀ old lease, (t.reapExpired now).Recovers recoveryId old new peerIp lease → ¬ring.waiting old
  | _ => True

namespace Respects

variable {ring ring' : KeyRing} {t t' : LeaseTable} {k old new : TokenId} {lease lease' : Lease}
  {now : UInt64} {op : Op} {outcome : Outcome}

theorem of_subset (h : t.Respects ring)
    (hs : ∀ {k lease}, t'.leases.lookup k = some lease → t.leases.lookup k = some lease) :
    t'.Respects ring where
  enrolled hl := h.enrolled (hs hl)
  notRetired hl := h.notRetired (hs hl)
  notKey {k} hk := by
    cases hl : t'.leases.lookup k with
    | none => rfl
    | some lease =>
      have hn := hs hl
      rw [h.notKey hk] at hn
      cases hn

theorem reapExpired (h : t.Respects ring) : (t.reapExpired now).Respects ring :=
  h.of_subset lookup_of_reapExpired

theorem enrolled_origin (h : t.Respects ring) (hf : t.Fair ring now op)
    (ho : t.Origin now op k lease) (hk : ring.held k) :
    lease.recoveryId = some ring.recoveryId := by
  cases ho with
  | kept hl => exact h.enrolled hl hk
  | opened => exact hf.2 hk
  | reopened hl => simp [activeLease, h.reapExpired.enrolled hl hk]
  | ended hl | restored hl =>
    have hkey := h.enrolled hl hk
    exact hkey
  | rotated hr =>
    have hkey := h.reapExpired.enrolled hr.held (hf.2.2 hk)
    exact hkey
  | recovered hr =>
    rw [← hf.2.1 hk]
    exact hr.enrolled

theorem notRetired_origin {x : TokenId} (h : t.Respects ring) (hf : t.Fair ring now op)
    (ho : t.Origin now op k lease) (hx : x ∈ lease.retiredTokenIds) : ¬ring.waiting x := by
  cases ho with
  | kept hl => exact h.notRetired hl hx
  | opened => cases hx
  | reopened hl => exact h.reapExpired.notRetired hl hx
  | ended hl => exact h.notRetired hl hx
  | rotated hr =>
    rw [List.mem_singleton.mp hx]
    exact hf.2.1
  | recovered hr =>
    rcases mem_retire hx with rfl | hx
    · exact hf.2.2 _ _ hr
    · exact h.reapExpired.notRetired hr.held hx
  | restored hl => exact h.notRetired hl hx

theorem notDrawn_origin (h : t.Respects ring) (hf : t.Fair ring now op)
    (ho : t.Origin now op k lease) : ¬ring.drawn k := by
  have hstored : ∀ {lease}, t.leases.lookup k = some lease → ¬ring.drawn k := by
    intro lease hl hd
    rw [h.notKey hd] at hl
    cases hl
  cases ho with
  | kept hl => exact hstored hl
  | opened => exact hf.1
  | reopened => exact hf.1
  | ended hl => exact hstored hl
  | rotated => exact hf.1
  | recovered => exact hf.1
  | restored hl => exact hstored hl

/-- A fair operation keeps it. -/
theorem perform (hw : t.WellFormed) (h : t.Respects ring) (hf : t.Fair ring now op)
    (ho : t.perform now op = (outcome, t')) : t'.Respects ring where
  enrolled hl := h.enrolled_origin hf (perform_origin hw ho hl)
  notRetired hl := h.notRetired_origin hf (perform_origin hw ho hl)
  notKey {k} hk := by
    cases hl : t'.leases.lookup k with
    | none => rfl
    | some lease => exact absurd hk (h.notDrawn_origin hf (perform_origin hw ho hl))

/-- A token that stops being held does no harm, and one that is new is not in the table. -/
theorem mono (h : t.Respects ring) (hr : ring'.recoveryId = ring.recoveryId)
    (hheld : ∀ {k}, ring'.held k → ring.held k ∨ t.leases.lookup k = none)
    (hwaiting : ∀ {k}, ring'.waiting k → ring.waiting k ∨ t.isRetired k = false)
    (hdrawn : ∀ {k}, ring'.drawn k → ring.drawn k ∨ t.leases.lookup k = none) :
    t.Respects ring' where
  enrolled hl hk := by
    rw [hr]
    rcases hheld hk with hk | hn
    · exact h.enrolled hl hk
    · rw [hl] at hn
      cases hn
  notRetired hl hx hk := by
    rcases hwaiting hk with hk | hn
    · exact h.notRetired hl hx hk
    · exact isRetired_eq_false.mp hn _ _ hl hx
  notKey hk := by
    rcases hdrawn hk with hk | hn
    · exact h.notKey hk
    · exact hn

/-- A recovery with the key and a waiting token, or with one that is not in the table, is
accepted. -/
theorem recovers (hw : t.WellFormed) (h : t.Respects ring) {peerIp : IpAddr}
    (hl : t.leases.lookup k = some lease) (hkey : lease.recoveryId = some ring.recoveryId)
    (hx : lease.expired now = false) (ha : (t.reapExpired now).Admits lease peerIp)
    (hnew : ring.held new ∨ t.leases.lookup new = none) (hr : t.isRetired new = false) :
    ∃ result, (t.recoverClaim ring.recoveryId new peerIp now).1 = .ok result := by
  have hlive := lookup_reapExpired.mpr ⟨hl, hx⟩
  have hsole : ∀ k' lease', (t.reapExpired now).leases.lookup k' = some lease' →
      lease'.recoveryId = some ring.recoveryId → k' = k := fun k' lease' hl' hk' =>
    hw.recoveryUnique (lookup_of_reapExpired hl') hl hk' hkey
  by_cases he : k = new
  · -- the claim has the token already
    subst he
    have hf : (t.reapExpired now).leases.find?
        (fun _ lease => lease.recoveryId == some ring.recoveryId) = some (k, lease) :=
      KeyedMap.find?_of_unique hlive (by simp [hkey]) fun k' l' hl' hk' =>
        hsole k' l' hl' (by simpa using hk')
    refine ⟨{ port := lease.port, displaced := none, changed := false }, ?_⟩
    simp only [recoverClaim, hf, if_true]
  · have hnone : (t.reapExpired now).leases.lookup new = none := by
      cases hl' : (t.reapExpired now).leases.lookup new with
      | none => rfl
      | some lease' =>
        rcases hnew with hnew | hn
        · exact absurd (hsole _ _ hl' (h.reapExpired.enrolled hl' hnew)).symm he
        · rw [lookup_of_reapExpired hl'] at hn
          cases hn
    have hr' : (t.reapExpired now).isRetired new = false :=
      isRetired_eq_false.mpr fun _ _ hl' =>
        isRetired_eq_false.mp hr _ _ (lookup_of_reapExpired hl')
    exact ⟨_, congrArg Prod.fst (recoverClaim_ok ⟨hlive, hkey, he, hnone, hr', ha⟩ hsole)⟩

end Respects

theorem Same.recovers {t t' : LeaseTable} {recoveryId old new : TokenId} {peerIp : IpAddr}
    {lease : Lease} (h : t.Same t') (hr : t.Recovers recoveryId old new peerIp lease) :
    t'.Recovers recoveryId old new peerIp lease where
  held := by rw [← h.leases]; exact hr.held
  enrolled := hr.enrolled
  distinct := hr.distinct
  newUnused := by rw [← h.leases]; exact hr.newUnused
  newNotRetired := by rw [← h.isRetired]; exact hr.newNotRetired
  admitted := h.admits hr.admitted

end LeaseTable

end GameNet
