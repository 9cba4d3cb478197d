import GameNet.LeaseRun

/-!
# GameNet.LeaseOrigin

Where the leases of a table come from: after an operation a lease is one that was there, or the
operation has opened, ended, moved or restored it. An invariant about single leases is kept by
every operation when it is kept in each of these cases.
-/

namespace GameNet
namespace LeaseTable

/-- How the operation at `now` came to leave `lease` at `k`. -/
inductive Origin (t : LeaseTable) (now : UInt64) : Op → TokenId → Lease → Prop where
  | kept {op : Op} {k : TokenId} {lease : Lease} : t.leases.lookup k = some lease →
      Origin t now op k lease
  | opened {k : TokenId} {presented : Option TokenId} {peerIp : IpAddr} {port : UInt16}
      {s : SessionId} : (t.reapExpired now).leases.lookup k = none →
      Origin t now (.activateWithRecovery k presented peerIp port) k
        (activeLease none presented peerIp port s)
  | reopened {k : TokenId} {lease : Lease} {presented : Option TokenId} {peerIp : IpAddr}
      {port : UInt16} {s : SessionId} : (t.reapExpired now).leases.lookup k = some lease →
      Origin t now (.activateWithRecovery k presented peerIp port) k
        (activeLease (some lease) presented peerIp port s)
  | ended {k : TokenId} {lease : Lease} {s : SessionId} : t.leases.lookup k = some lease →
      lease.status = .active s →
      Origin t now (.endSession k s) k { lease with status := .grace (now.saturatingAdd graceMs) }
  | rotated {old new : TokenId} {lease : Lease} : (t.reapExpired now).Rotates old new lease →
      Origin t now (.rotateClaim old new) new { lease with retiredTokenIds := [old] }
  | recovered {recoveryId old new : TokenId} {peerIp : IpAddr} {lease : Lease} :
      (t.reapExpired now).Recovers recoveryId old new peerIp lease →
      Origin t now (.recoverClaim recoveryId new peerIp) new (recoveredLease lease old peerIp now)
  | restored {k : TokenId} {lease : Lease} {savedAt : UInt64} : t.leases.lookup k = some lease →
      now < lease.savedDeadline savedAt →
      Origin t now (.restart savedAt) k
        { lease with status := .grace (lease.savedDeadline savedAt) }

variable {t t' : LeaseTable} {now : UInt64} {op : Op} {outcome : Outcome} {k : TokenId}
  {lease : Lease}

theorem Origin.of_reapExpired (h : (t.reapExpired now).leases.lookup k = some lease) :
    Origin t now op k lease := .kept (lookup_of_reapExpired h)

theorem perform_origin (hw : t.WellFormed) (ho : t.perform now op = (outcome, t'))
    (hl : t'.leases.lookup k = some lease) : Origin t now op k lease := by
  cases op with
  | candidatePorts tokenId peerIp =>
    cases ho
    exact .of_reapExpired hl
  | reapExpired =>
    cases ho
    exact .of_reapExpired hl
  | activateWithRecovery tokenId presented peerIp port =>
    obtain ⟨r, hq, -⟩ := perform_activate ho
    obtain ⟨_, -, rfl⟩ | ⟨s, -, -, rfl⟩ := activateWithRecovery_cases hq
    · exact .of_reapExpired hl
    · rw [KeyedMap.lookup_insert] at hl
      split at hl
      · rename_i hk
        subst hk
        cases hl
        cases he : (t.reapExpired now).leases.lookup k with
        | none => exact .opened he
        | some lease => exact .reopened he
      · exact .of_reapExpired hl
  | endSession tokenId sessionId =>
    obtain ⟨b, hq, -⟩ := perform_endSession ho
    obtain ⟨-, rfl, -⟩ | ⟨lease, -, he, hs, rfl⟩ := endSession_cases hq
    · exact .kept hl
    · rw [KeyedMap.lookup_insert] at hl
      split at hl
      · rename_i hk
        subst hk
        cases hl
        exact .ended he hs
      · exact .kept hl
  | rotateClaim old new =>
    obtain ⟨r, hq, -⟩ := perform_rotate ho
    obtain ⟨lease, hr, -, rfl⟩ | ⟨rfl, -⟩ := rotateClaim_cases hq
    · rcases lookup_moveClaim_eq_some.mp hl with ⟨rfl, rfl⟩ | ⟨-, -, hl⟩
      · exact .rotated hr
      · exact .of_reapExpired hl
    · exact .of_reapExpired hl
  | recoverClaim recoveryId new peerIp =>
    obtain ⟨r, hq, -⟩ := perform_recover ho
    obtain ⟨old, lease, hr, -, rfl⟩ | ⟨rfl, -⟩ := recoverClaim_cases hq
    · rcases lookup_moveClaim_eq_some.mp hl with ⟨rfl, rfl⟩ | ⟨-, -, hl⟩
      · exact .recovered hr
      · exact .of_reapExpired hl
    · exact .of_reapExpired hl
  | restart savedAt =>
    have hv := hw.snapshot_valid savedAt
    rw [perform_restart hv] at ho
    cases ho
    obtain ⟨record, hr, rfl, hlt, rfl⟩ := (lookup_load_new hv.tokens).mp hl
    obtain ⟨k, lease, he, rfl⟩ := mem_snapshot.mp hr
    exact .restored he hlt

end LeaseTable
end GameNet
