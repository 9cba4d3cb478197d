import GameNet.Claim

/-!
# GameNet.Restart

A restart of the relay is transparent: restoring a snapshot taken at `savedAt` gives, at any later
time, the table in which every active session was ended at `savedAt` and the expired leases were
dropped (`reachable_restart`). Only the session counter starts over, and no operation but an
activation looks at it, so the answers from then on are the same.
-/

namespace GameNet

/-- The session of an active lease. -/
def Lease.session (lease : Lease) : Option SessionId :=
  match lease.status with
  | .active sessionId => some sessionId
  | .grace _ => none

/-- The lease of `k` after the sessions of the list ended at `now`. -/
def Lease.leave (sessions : List (TokenId × SessionId)) (now : UInt64) (k : TokenId)
    (lease : Lease) : Lease :=
  match lease.status with
  | .active sessionId =>
    if (k, sessionId) ∈ sessions then { lease with status := .grace (now.saturatingAdd graceMs) }
    else lease
  | .grace _ => lease

theorem Lease.session_eq_some {lease : Lease} {s : SessionId} :
    lease.session = some s ↔ lease.status = .active s := by
  unfold Lease.session
  cases lease.status <;> simp

namespace LeaseTable

/-- The active sessions, in iteration order. -/
def activeSessions (t : LeaseTable) : List (TokenId × SessionId) :=
  t.leases.entries.filterMap fun e => e.2.session.map fun sessionId => (e.1, sessionId)

/-- End the sessions of the list, in order. -/
def endSessions (t : LeaseTable) (sessions : List (TokenId × SessionId)) (now : UInt64) :
    LeaseTable :=
  sessions.foldl (fun t e => (t.endSession e.1 e.2 now).2) t

variable {t t' : LeaseTable} {now savedAt : UInt64} {k : TokenId} {lease : Lease}
  {sessions : List (TokenId × SessionId)} {records : List LeaseRecord} {op : Op}

theorem mem_activeSessions {s : SessionId} :
    (k, s) ∈ t.activeSessions ↔ ∃ lease, t.leases.lookup k = some lease ∧
      lease.status = .active s := by
  simp only [activeSessions, List.mem_filterMap, Option.map_eq_some_iff, Prod.mk.injEq,
    Sigma.exists, KeyedMap.mem_entries, Lease.session_eq_some]
  constructor
  · rintro ⟨k, lease, hl, s, hs, rfl, rfl⟩
    exact ⟨lease, hl, hs⟩
  · rintro ⟨lease, hl, hs⟩
    exact ⟨k, lease, hl, s, hs, rfl, rfl⟩

theorem lookup_endSession {sessionId : SessionId} (k' : TokenId) :
    (t.endSession k sessionId now).2.leases.lookup k' =
      (t.leases.lookup k').map (Lease.leave [(k, sessionId)] now k') := by
  obtain ⟨_, ht, hn⟩ | ⟨lease, _, hl, hs, ht⟩ :=
    endSession_cases (Prod.mk.eta (p := t.endSession k sessionId now)).symm
  · rw [ht]
    cases hk : t.leases.lookup k' with
    | none => rfl
    | some lease =>
      simp only [Option.map_some, Lease.leave]
      split
      · rename_i s hs
        rw [if_neg]
        simp only [List.mem_singleton, Prod.mk.injEq]
        rintro ⟨rfl, rfl⟩
        exact hn lease hk hs
      · rfl
  · rw [ht]
    simp only [KeyedMap.lookup_insert]
    split
    · rename_i heq
      subst heq
      rw [hl]
      simp [Lease.leave, hs]
    · rename_i hne
      cases hk : t.leases.lookup k' with
      | none => rfl
      | some l =>
        simp only [Option.map_some, Lease.leave, List.mem_singleton, Prod.mk.injEq, hne, false_and,
          if_false]
        split <;> rfl

theorem leave_cons {x : TokenId × SessionId} :
    (Lease.leave [x] now k lease).leave sessions now k = lease.leave (x :: sessions) now k := by
  simp only [Lease.leave]
  cases hs : lease.status with
  | grace e => simp [hs]
  | active s =>
    by_cases hx : (k, s) = x
    · subst hx; simp
    · simp [hs, hx]

/-- Ending sessions ends each of them once, whatever their order. -/
theorem lookup_endSessions : (t.endSessions sessions now).leases.lookup k =
    (t.leases.lookup k).map (Lease.leave sessions now k) := by
  induction sessions generalizing t with
  | nil =>
    have : Lease.leave [] now k = id := by
      funext lease
      simp only [Lease.leave, List.not_mem_nil, if_false, id]
      split <;> rfl
    simp [endSessions, this]
  | cons x rest ih =>
    show (endSessions _ rest now).leases.lookup k = _
    rw [ih, lookup_endSession, Option.map_map]
    exact congrArg (fun f => Option.map f (t.leases.lookup k)) (funext fun _ => leave_cons)

/-- When all active sessions end, every lease waits until its saved deadline. -/
theorem leave_activeSessions (hl : t.leases.lookup k = some lease)
    (hp : sessions.Perm t.activeSessions) :
    lease.leave sessions now k = { lease with status := .grace (lease.savedDeadline now) } := by
  obtain ⟨port, lastIp, retired, recoveryId, status⟩ := lease
  cases status with
  | grace e => rfl
  | active s =>
    have hm : (k, s) ∈ sessions := hp.mem_iff.mpr (mem_activeSessions.mpr ⟨_, hl, rfl⟩)
    simp [Lease.leave, Lease.savedDeadline, hm]

/-- The restored leases are those of the table whose sessions all ended at the save. -/
theorem load_same (hv : Valid records) (hr : records.Perm (t.snapshot savedAt))
    (hp : sessions.Perm t.activeSessions) :
    (load now new records).Same ((t.endSessions sessions savedAt).reapExpired now) := by
  refine ⟨fun k => Option.ext fun lease => ?_⟩
  rw [lookup_load_new hv.tokens, lookup_reapExpired, lookup_endSessions, Option.map_eq_some_iff]
  constructor
  · rintro ⟨record, hm, rfl, hlt, rfl⟩
    obtain ⟨k, lease, hl, rfl⟩ := mem_snapshot.mp (hr.mem_iff.mp hm)
    refine ⟨⟨lease, hl, leave_activeSessions hl hp⟩, ?_⟩
    exact Lease.expired_eq_false.mpr fun e he => by cases he; exact hlt
  · rintro ⟨⟨lease, hl, rfl⟩, hx⟩
    rw [leave_activeSessions hl hp] at hx ⊢
    exact ⟨recordOf savedAt k lease, hr.mem_iff.mpr (mem_snapshot.mpr ⟨k, lease, hl, rfl⟩), rfl,
      Lease.expired_eq_false.mp hx _ rfl, rfl⟩

/-- Tables with the same leases answer alike until a session is opened. -/
theorem Same.run {ops : List (UInt64 × Op)} (h : t.Same t') (hw : t.WellFormed)
    (ho : ∀ x ∈ ops, x.2.activates = false) (clock clock' : UInt64) :
    (RunState.run ⟨t, clock⟩ ops).1 = (RunState.run ⟨t', clock'⟩ ops).1 := by
  induction ops generalizing t t' clock clock' with
  | nil => rfl
  | cons x rest ih =>
    obtain ⟨now, op⟩ := x
    rw [List.forall_mem_cons] at ho
    have ha := h.perform hw op (by simp [ho.1]) now
    have hrest := ih ha.table (hw.perform rfl) ho.2 now now
    simp only [RunState.run, ha.answer, hrest]

/-- **A restart is the end of all sessions at the last save.** Whatever order the snapshot lists
the leases in, it is restored, to the map that ending every active session at `savedAt` and
dropping what is expired at `now` leaves; the session counter starts over. Every later sequence of
operations that opens no session gets the same answers on both. -/
theorem reachable_restart {s : RunState} (h : Reachable s) (savedAt now : UInt64)
    (records : List LeaseRecord) (hr : records.Perm (s.table.snapshot savedAt))
    (sessions : List (TokenId × SessionId)) (hp : sessions.Perm s.table.activeSessions) :
    ∃ restored, restore records now = .ok restored ∧ restored.nextSessionId = 0 ∧
      restored.Same ((s.table.endSessions sessions savedAt).reapExpired now) ∧
      ∀ ops : List (UInt64 × Op), (∀ x ∈ ops, x.2.activates = false) →
        (RunState.run ⟨restored, now⟩ ops).1 =
          (RunState.run ⟨(s.table.endSessions sessions savedAt).reapExpired now, now⟩ ops).1 := by
  have hv := ((reachable_wellFormed h).snapshot_valid savedAt).perm hr.symm
  have hsame : (load now new records).Same _ := load_same hv hr hp
  have hres := restore_eq_ok.mpr ⟨hv, (rfl : load now new records = _)⟩
  exact ⟨_, hres, load_nextSessionId, hsame, fun ops ho =>
    hsame.run (restore_wellFormed hres) ho _ _⟩

/-- The host of a single claim is connected when the relay saves at 2000 and restarts at 2500. -/
theorem reachable_restart_one_host :
    ∃ restored, restore (hosted.snapshot 2000) 2500 = .ok restored ∧ restored.nextSessionId = 0 ∧
      restored.Same ((hosted.endSessions [(.filled 1, ⟨1⟩)] 2000).reapExpired 2500) ∧
      ∀ ops : List (UInt64 × Op), (∀ x ∈ ops, x.2.activates = false) →
        (RunState.run ⟨restored, 2500⟩ ops).1 =
          (RunState.run ⟨(hosted.endSessions [(.filled 1, ⟨1⟩)] 2000).reapExpired 2500, 2500⟩
            ops).1 :=
  reachable_restart hosted_reachable 2000 2500 _ (.refl _) _ (.refl _)

end LeaseTable
end GameNet
