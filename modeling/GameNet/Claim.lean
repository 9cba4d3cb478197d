import GameNet.LeaseRun

/-!
# GameNet.Claim

One claim followed through a run by its port. What an event does to a claim can be read off the
event alone: `Claim.next` is the claim's life cycle (reconnect, end of a session, rotation,
recovery, restart) and nothing else changes it. `LiveStep p` is a step of the table in which the
claim on port `p` does not expire, and `follow` is the refinement: along a run of live steps the
table holds at `p` exactly what folding `Claim.next` over the events gives.
-/

namespace GameNet
namespace LeaseTable

structure Claim where
  token : TokenId
  lease : Lease

/-- The table stores the claim `c`, on port `p`. -/
def Holds (t : LeaseTable) (p : UInt16) (c : Claim) : Prop :=
  t.leases.lookup c.token = some c.lease ∧ c.lease.port = p

/-- What an event can do to a claim. -/
inductive Effect where
  | nothing
  | reconnect (presented : Option TokenId) (peerIp : IpAddr) (sessionId : SessionId)
  | leave (now : UInt64)
  | rotate (new : TokenId)
  | recover (new : TokenId) (peerIp : IpAddr) (now : UInt64)
  | restart (savedAt : UInt64)

/-- What the event does to the claim of `token` on `port`. -/
def Event.effect (token : TokenId) (port : UInt16) (e : Event) : Effect :=
  match e.op, e.outcome with
  | .activateWithRecovery tokenId presented peerIp _, .activated (.ok sessionId) =>
    if tokenId = token then .reconnect presented peerIp sessionId else .nothing
  | .endSession tokenId _, .ended true => if tokenId = token then .leave e.now else .nothing
  | .rotateClaim old new, .rotated (.ok (.transferred _)) =>
    if old = token then .rotate new else .nothing
  | .recoverClaim _ new peerIp, .recovered (.ok result) =>
    if result.changed ∧ result.port = port then .recover new peerIp e.now else .nothing
  | .restart savedAt, .restarted (.ok ()) => .restart savedAt
  | _, _ => .nothing

def Claim.apply (c : Claim) : Effect → Claim
  | .nothing => c
  | .reconnect presented peerIp sessionId =>
    ⟨c.token, activeLease (some c.lease) presented peerIp c.lease.port sessionId⟩
  | .leave now => ⟨c.token, { c.lease with status := .grace (now.saturatingAdd graceMs) }⟩
  | .rotate new => ⟨new, { c.lease with retiredTokenIds := [c.token] }⟩
  | .recover new peerIp now => ⟨new, recoveredLease c.lease c.token peerIp now⟩
  | .restart savedAt =>
    ⟨c.token, { c.lease with status := .grace (c.lease.savedDeadline savedAt) }⟩

def Claim.next (c : Claim) (e : Event) : Claim := c.apply (e.effect c.token c.lease.port)

/-- The event finds the claim expired and drops it. `endSession` looks at no deadline, and a
restart at the one that was saved. -/
def Claim.lapses (c : Claim) (e : Event) : Bool :=
  match e.op with
  | .endSession _ _ => false
  | .restart savedAt => decide (c.lease.savedDeadline savedAt ≤ e.now)
  | _ => c.lease.expired e.now

/-- A step in which the claim on port `p`, if there is one, does not expire. -/
def LiveStep (p : UInt16) (s : RunState) (e : Event) (s' : RunState) : Prop :=
  Step s e s' ∧ ∀ c, s.table.Holds p c → c.lapses e = false

variable {t t' : LeaseTable} {p : UInt16} {c c' : Claim} {now : UInt64} {k new : TokenId}
  {lease : Lease} {s s' : RunState} {e : Event} {es : List Event}

theorem Event.effect_eq_rotate {token : TokenId} (h : e.effect token p = .rotate new) :
    e.op = .rotateClaim token new ∧ ∃ q, e.outcome = .rotated (.ok (.transferred q)) := by
  unfold Event.effect at h
  split at h
  case h_3 old _ q hop hout =>
    split at h
    · rename_i heq
      cases h
      exact ⟨heq ▸ hop, q, hout⟩
    · cases h
  case h_5 => cases h
  case h_6 => cases h
  all_goals split at h <;> cases h

theorem Holds.unique (hw : t.WellFormed) (h : t.Holds p c) (h' : t.Holds p c') : c = c' := by
  obtain ⟨k, l⟩ := c
  obtain ⟨k', l'⟩ := c'
  obtain ⟨hl, rfl⟩ := h
  obtain ⟨hl', hp⟩ := h'
  obtain rfl := hw.portUnique hl hl' hp.symm
  rw [hl] at hl'
  cases hl'; rfl

theorem Holds.reapExpired (h : t.Holds p c) (hx : c.lease.expired now = false) :
    (t.reapExpired now).Holds p c := ⟨lookup_reapExpired.mpr ⟨h.1, hx⟩, h.2⟩

/-- A token that a live claim lists as retired is refused. -/
theorem Holds.refused {x : TokenId} (h : t.Holds p c) (hx : c.lease.expired now = false)
    (hm : x ∈ c.lease.retiredTokenIds) (peerIp : IpAddr) :
    (t.reapExpired now).offer x peerIp = .error .claimRotated :=
  offer_retired (isRetired_eq_true.mpr ⟨_, _, (h.reapExpired hx).1, hm⟩)

/-- The token of a live claim nobody hosts gets its port, from a source it is charged to or one
with room. -/
theorem Holds.offered {peerIp : IpAddr} {deadline : UInt64} (hw : t.WellFormed) (h : t.Holds p c)
    (hs : c.lease.status = .grace deadline) (hx : c.lease.expired now = false)
    (ha : (t.reapExpired now).Admits c.lease peerIp) :
    (t.reapExpired now).offer c.token peerIp = .ok [p] := by
  have hr := h.reapExpired hx
  rw [← hr.2]
  exact offer_grace hr.1 hs (hw.reapExpired.isRetired_key hr.1) ha

/-- An insertion at another key leaves the claim alone. -/
theorem Holds.insert_ne {nextSessionId : UInt64} (h : t.Holds p c) (hne : c.token ≠ k) :
    Holds { leases := t.leases.insert k lease, nextSessionId := nextSessionId } p c := by
  refine ⟨?_, h.2⟩
  rw [KeyedMap.lookup_insert, if_neg hne]
  exact h.1

theorem Holds.moveClaim_ne {old : TokenId} (h : t.Holds p c) (ho : c.token ≠ old)
    (hn : t.leases.lookup new = none) : (t.moveClaim old new lease).Holds p c := by
  have hne : c.token ≠ new := by
    rintro rfl
    rw [h.1] at hn; cases hn
  refine ⟨?_, h.2⟩
  show AList.lookup c.token (AList.insert new lease (AList.erase old t.leases)) = _
  rw [KeyedMap.lookup_insert, if_neg hne, KeyedMap.lookup_erase, if_neg ho]
  exact h.1

theorem lookup_moveClaim {old : TokenId} :
    (t.moveClaim old new lease).leases.lookup new = some lease :=
  AList.lookup_insert _

/-! ## One operation -/

/-- The life cycle is what the table does to a claim that does not expire. -/
theorem Holds.perform {op : Op} {outcome : Outcome} (hw : t.WellFormed) (h : t.Holds p c)
    (hx : c.lapses ⟨op, now, outcome⟩ = false) (ho : t.perform now op = (outcome, t')) :
    t'.Holds p (c.next ⟨op, now, outcome⟩) := by
  have hwr : (t.reapExpired now).WellFormed := hw.reapExpired
  cases op with
  | candidatePorts tokenId peerIp =>
    cases ho
    exact h.reapExpired hx
  | reapExpired =>
    cases ho
    exact h.reapExpired hx
  | activateWithRecovery tokenId presented peerIp port =>
    have hr := h.reapExpired hx
    obtain ⟨r, hq, rfl⟩ := perform_activate ho
    obtain ⟨e, rfl, rfl⟩ | ⟨s, rfl, ha, rfl⟩ := activateWithRecovery_cases hq
    · exact hr
    · simp only [Claim.next, Event.effect]
      split
      · rename_i heq
        subst heq
        rw [hr.1, ha.port_eq hr.1]
        exact ⟨AList.lookup_insert _, hr.2⟩
      · exact hr.insert_ne (Ne.symm ‹_›)
  | endSession tokenId sessionId =>
    obtain ⟨b, hq, rfl⟩ := perform_endSession ho
    obtain ⟨rfl, rfl, _⟩ | ⟨lease, rfl, hl, _, rfl⟩ := endSession_cases hq
    · exact h
    · simp only [Claim.next, Event.effect]
      split
      · rename_i heq
        subst heq
        rw [h.1] at hl
        cases hl
        exact ⟨AList.lookup_insert _, h.2⟩
      · exact h.insert_ne (Ne.symm ‹_›)
  | rotateClaim old new =>
    have hr := h.reapExpired hx
    obtain ⟨r, hq, rfl⟩ := perform_rotate ho
    obtain ⟨lease, hro, rfl, rfl⟩ | ⟨rfl, hb⟩ := rotateClaim_cases hq
    · simp only [Claim.next, Event.effect]
      split
      · rename_i heq
        subst heq
        have hl := hro.held
        rw [hr.1] at hl
        cases hl
        exact ⟨lookup_moveClaim, hr.2⟩
      · exact hr.moveClaim_ne (Ne.symm ‹_›) hro.newUnused
    · obtain ⟨e, rfl⟩ | ⟨_, _, _, rfl⟩ | ⟨_, _, rfl⟩ := hb <;> exact hr
  | recoverClaim recoveryId new peerIp =>
    have hr := h.reapExpired hx
    obtain ⟨r, hq, rfl⟩ := perform_recover ho
    obtain ⟨old, lease, hre, rfl, rfl⟩ | ⟨rfl, hb⟩ := recoverClaim_cases hq
    · simp only [Claim.next, Event.effect, true_and]
      split
      · rename_i hport
        obtain rfl := hwr.portUnique hre.held hr.1 hport
        have hl := hre.held
        rw [hr.1] at hl
        cases hl
        exact ⟨lookup_moveClaim, hr.2⟩
      · rename_i hport
        refine hr.moveClaim_ne ?_ hre.newUnused
        rintro rfl
        have hl := hre.held
        rw [hr.1] at hl
        cases hl
        exact hport rfl
    · obtain ⟨e, rfl⟩ | ⟨_, _, _, rfl⟩ := hb
      · exact hr
      · simp only [Claim.next, Event.effect, Bool.false_eq_true, false_and, if_false]
        exact hr
  | restart savedAt =>
    rw [perform_restart (hw.snapshot_valid savedAt)] at ho
    cases ho
    refine ⟨(lookup_load_new (hw.snapshot_valid savedAt).tokens).mpr
      ⟨recordOf savedAt c.token c.lease, mem_snapshot.mpr ⟨_, _, h.1, rfl⟩, rfl, ?_, rfl⟩, h.2⟩
    simp only [Claim.lapses, decide_eq_false_iff_not] at hx
    show now < c.lease.savedDeadline savedAt
    grind

/-! ## Runs -/

theorem LiveStep.holds (hw : s.table.WellFormed) (h : s.table.Holds p c)
    (hs : LiveStep p s e s') : s'.table.Holds p (c.next e) := by
  obtain ⟨⟨hsame, hn, _, _, hp⟩, hx⟩ := hs
  exact Holds.perform (hsame.wellFormed hn hw) ⟨by rw [← hsame.leases]; exact h.1, h.2⟩ (hx c h) hp

/-- **A claim that does not expire is what its life cycle makes it.** -/
theorem follow (hw : s.table.WellFormed) (h : s.table.Holds p c)
    (ht : Trace (LiveStep p) s es s') :
    s'.table.WellFormed ∧ s'.table.Holds p (es.foldl Claim.next c) := by
  refine ht.track (R := fun s c => s.table.WellFormed ∧ s.table.Holds p c) ?_ ⟨hw, h⟩
  rintro s e s' c ⟨hw, h⟩ hs
  exact ⟨hs.1.wellFormed hw, hs.holds hw h⟩

/-- The claim, followed through the events, never expires. -/
def Claim.survives (c : Claim) : List Event → Bool
  | [] => true
  | e :: es => !c.lapses e && (c.next e).survives es

/-- A run is live for `p` when its claim survives the events. -/
theorem live_of_survives (hw : s.table.WellFormed) (h : s.table.Holds p c)
    (ht : Trace Step s es s') (hc : c.survives es = true) : Trace (LiveStep p) s es s' := by
  induction ht generalizing c with
  | refl => exact .refl
  | cons hs _ ih =>
    simp only [Claim.survives, Bool.and_eq_true, Bool.not_eq_true'] at hc
    have hl : LiveStep p _ _ _ := ⟨hs, fun c' h' => by rw [← h.unique hw h']; exact hc.1⟩
    exact .cons hl (ih (hs.wellFormed hw) (hl.holds hw h) hc.2)

/-! ## A host

Token 1 hosts on port 10000 and enrolls recovery key 100. -/

def hostIp : IpAddr := .v4 ⟨.replicate 4 10⟩

def hosted : LeaseTable :=
  (LeaseTable.new.activateWithRecovery (.filled 1) (some (.filled 100)) hostIp 10000 1000).2

def hostedClaim : Claim := ⟨.filled 1, activeLease none (some (.filled 100)) hostIp 10000 ⟨1⟩⟩

theorem hosted_reachable : Reachable ⟨hosted, 1000⟩ :=
  (reachable_new 0).next (Step.of_perform .new 0
    (.activateWithRecovery (.filled 1) (some (.filled 100)) hostIp 10000) 1000 (by decide)
    (by decide))

theorem hosted_holds : hosted.Holds 10000 hostedClaim := ⟨rfl, rfl⟩

/-- Operations on the host's table through which its claim survives. -/
theorem hosted_run (ops : List (UInt64 × Op)) (ht : Timely 1000 ops = true)
    (hs : hostedClaim.survives (RunState.run ⟨hosted, 1000⟩ ops).1 = true) :
    Trace (LiveStep 10000) ⟨hosted, 1000⟩ (RunState.run ⟨hosted, 1000⟩ ops).1
      (RunState.run ⟨hosted, 1000⟩ ops).2 :=
  live_of_survives (reachable_wellFormed hosted_reachable) hosted_holds
    (RunState.trace_run ht) hs

end LeaseTable
end GameNet
