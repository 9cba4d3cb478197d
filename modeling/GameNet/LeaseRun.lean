import GameNet.Lib.Trace
import GameNet.LeaseSame

/-!
# GameNet.LeaseRun

Runs of the lease table: any sequence of its operations at nondecreasing times, restarts
included, from the empty table or a restored one. An `Event` is an operation with its time and
what it returned.

Before each operation the hash map may present its entries in any order, so a step first
replaces the table by one that is the `Same`. The main result is that every reachable table
is well formed.
-/

namespace GameNet
namespace LeaseTable

inductive Op where
  | candidatePorts (tokenId : TokenId) (peerIp : IpAddr)
  | activateWithRecovery (tokenId : TokenId) (recoveryId : Option TokenId) (peerIp : IpAddr)
      (port : UInt16)
  | endSession (tokenId : TokenId) (sessionId : SessionId)
  | rotateClaim (old new : TokenId)
  | recoverClaim (recoveryId new : TokenId) (peerIp : IpAddr)
  | reapExpired
  /-- A snapshot taken at `savedAt`, restored at the time of the event. -/
  | restart (savedAt : UInt64)

inductive Outcome where
  | ports (r : Except LeaseError (List UInt16))
  | activated (r : Except LeaseError SessionId)
  | ended (b : Bool)
  | rotated (r : Except LeaseError RotationResult)
  | recovered (r : Except LeaseError RecoveryResult)
  | reaped
  | restarted (r : Except LeaseError Unit)

structure Event where
  op : Op
  now : UInt64
  outcome : Outcome

def perform (t : LeaseTable) (now : UInt64) : Op → Outcome × LeaseTable
  | .candidatePorts tokenId peerIp =>
    let r := t.candidatePorts tokenId peerIp now
    (.ports r.1, r.2)
  | .activateWithRecovery tokenId recoveryId peerIp port =>
    let r := t.activateWithRecovery tokenId recoveryId peerIp port now
    (.activated r.1, r.2)
  | .endSession tokenId sessionId =>
    let r := t.endSession tokenId sessionId now
    (.ended r.1, r.2)
  | .rotateClaim old new =>
    let r := t.rotateClaim old new now
    (.rotated r.1, r.2)
  | .recoverClaim recoveryId new peerIp =>
    let r := t.recoverClaim recoveryId new peerIp now
    (.recovered r.1, r.2)
  | .reapExpired => (.reaped, t.reapExpired now)
  | .restart savedAt =>
    match restore (t.snapshot savedAt) now with
    | .error e => (.restarted (.error e), t)
    | .ok restored => (.restarted (.ok ()), restored)

/-! What an event of each kind says about the operation behind it. -/

section perform

variable {t t' : LeaseTable} {now : UInt64} {outcome : Outcome}

theorem perform_activate {tokenId : TokenId} {recoveryId : Option TokenId} {peerIp : IpAddr}
    {port : UInt16}
    (h : t.perform now (.activateWithRecovery tokenId recoveryId peerIp port) = (outcome, t')) :
    ∃ r, t.activateWithRecovery tokenId recoveryId peerIp port now = (r, t') ∧
      outcome = .activated r := by
  cases h; exact ⟨_, rfl, rfl⟩

theorem perform_endSession {tokenId : TokenId} {sessionId : SessionId}
    (h : t.perform now (.endSession tokenId sessionId) = (outcome, t')) :
    ∃ b, t.endSession tokenId sessionId now = (b, t') ∧ outcome = .ended b := by
  cases h; exact ⟨_, rfl, rfl⟩

theorem perform_rotate {old new : TokenId}
    (h : t.perform now (.rotateClaim old new) = (outcome, t')) :
    ∃ r, t.rotateClaim old new now = (r, t') ∧ outcome = .rotated r := by
  cases h; exact ⟨_, rfl, rfl⟩

theorem perform_recover {recoveryId new : TokenId} {peerIp : IpAddr}
    (h : t.perform now (.recoverClaim recoveryId new peerIp) = (outcome, t')) :
    ∃ r, t.recoverClaim recoveryId new peerIp now = (r, t') ∧ outcome = .recovered r := by
  cases h; exact ⟨_, rfl, rfl⟩

end perform

/-- When an operation begins: a restart begins with its snapshot. -/
def Op.start (now : UInt64) : Op → UInt64
  | .restart savedAt => savedAt
  | _ => now

structure RunState where
  table : LeaseTable
  clock : UInt64

inductive Step : RunState → Event → RunState → Prop where
  | mk {s : RunState} {t t' : LeaseTable} {op : Op} {now : UInt64} {outcome : Outcome} :
      s.table.Same t → s.table.nextSessionId = t.nextSessionId →
      s.clock ≤ op.start now → op.start now ≤ now → t.perform now op = (outcome, t') →
      Step s ⟨op, now, outcome⟩ ⟨t', now⟩

/-- The step that performs `op` on the table as it is. -/
theorem Step.of_perform (t : LeaseTable) (clock : UInt64) (op : Op) (now : UInt64)
    (hs : clock ≤ op.start now) (hn : op.start now ≤ now) :
    Step ⟨t, clock⟩ ⟨op, now, (t.perform now op).1⟩ ⟨(t.perform now op).2, now⟩ :=
  .mk (.refl _) rfl hs hn rfl

/-- Perform the operations in order, each at its time. -/
def RunState.run (s : RunState) : List (UInt64 × Op) → List Event × RunState
  | [] => ([], s)
  | (now, op) :: rest =>
    let r := s.table.perform now op
    let tail := RunState.run ⟨r.2, now⟩ rest
    (⟨op, now, r.1⟩ :: tail.1, tail.2)

/-- The times of the operations do not decrease. -/
def Timely : UInt64 → List (UInt64 × Op) → Bool
  | _, [] => true
  | clock, (now, op) :: rest =>
    decide (clock ≤ op.start now) && decide (op.start now ≤ now) && Timely now rest

theorem RunState.trace_run {s : RunState} {ops : List (UInt64 × Op)}
    (h : Timely s.clock ops = true) : Trace Step s (s.run ops).1 (s.run ops).2 := by
  induction ops generalizing s with
  | nil => exact .refl
  | cons x rest ih =>
    obtain ⟨now, op⟩ := x
    simp only [Timely, Bool.and_eq_true, decide_eq_true_eq] at h
    exact .cons (.of_perform s.table s.clock op now h.1.1 h.1.2) (ih h.2)

/-- The empty table at any time, or a table restored from any records. -/
def Initial (s : RunState) : Prop :=
  s.table = new ∨ ∃ records, restore records s.clock = .ok s.table

abbrev Reachable : RunState → Prop := Trace.Reached Initial Step

theorem reachable_new (clock : UInt64) : Reachable ⟨new, clock⟩ := .of_init (.inl rfl)

theorem WellFormed.perform {t t' : LeaseTable} {now : UInt64} {op : Op} {outcome : Outcome}
    (h : t.WellFormed) (ho : t.perform now op = (outcome, t')) : t'.WellFormed := by
  obtain rfl : (t.perform now op).2 = t' := by rw [ho]
  cases op with
  | candidatePorts tokenId peerIp => exact h.reapExpired
  | activateWithRecovery tokenId recoveryId peerIp port => exact h.activateWithRecovery rfl
  | endSession tokenId sessionId => exact h.endSession rfl
  | rotateClaim old new => exact h.rotateClaim rfl
  | recoverClaim recoveryId new peerIp => exact h.recoverClaim rfl
  | reapExpired => exact h.reapExpired
  | restart savedAt =>
    simp only [LeaseTable.perform]
    split
    · exact h
    · exact restore_wellFormed ‹_›

theorem perform_restart {t : LeaseTable} {now savedAt : UInt64}
    (h : Valid (t.snapshot savedAt)) : t.perform now (.restart savedAt) =
      (.restarted (.ok ()), load now new (t.snapshot savedAt)) := by
  have hres := restore_eq_ok.mpr ⟨h, (rfl : load now new _ = _)⟩
  simp only [LeaseTable.perform, hres]

/-- The operation opens a session. -/
def Op.activates : Op → Bool
  | .activateWithRecovery _ _ _ _ => true
  | _ => false

/-- What an operation returns and leaves does not depend on the iteration order, nor on the
session counter unless it opens a session. -/
theorem Same.perform {t t' : LeaseTable} (h : t.Same t') (hw : t.WellFormed) (op : Op)
    (hn : op.activates = true → t.nextSessionId = t'.nextSessionId) (now : UInt64) :
    Agree (t.perform now op) (t'.perform now op) := by
  cases op with
  | candidatePorts tokenId peerIp =>
    have ha : Agree (t.candidatePorts tokenId peerIp now) _ := h.candidatePorts
    exact ⟨congrArg Outcome.ports ha.answer, ha.table⟩
  | activateWithRecovery tokenId recoveryId peerIp port =>
    have ha : Agree (t.activateWithRecovery tokenId recoveryId peerIp port now) _ :=
      h.activateWithRecovery (hn rfl)
    exact ⟨congrArg Outcome.activated ha.answer, ha.table⟩
  | endSession tokenId sessionId =>
    have ha : Agree (t.endSession tokenId sessionId now) _ := h.endSession
    exact ⟨congrArg Outcome.ended ha.answer, ha.table⟩
  | rotateClaim old new =>
    have ha : Agree (t.rotateClaim old new now) _ := h.rotateClaim
    exact ⟨congrArg Outcome.rotated ha.answer, ha.table⟩
  | recoverClaim recoveryId new peerIp =>
    have ha : Agree (t.recoverClaim recoveryId new peerIp now) _ := h.recoverClaim hw
    exact ⟨congrArg Outcome.recovered ha.answer, ha.table⟩
  | reapExpired => exact ⟨rfl, h.reapExpired now⟩
  | restart savedAt =>
    have hv := hw.snapshot_valid savedAt
    have hs := h.snapshot savedAt
    rw [perform_restart hv, perform_restart (hv.perm hs)]
    exact ⟨rfl, .load hv hs⟩

/-- A step is the operation performed on the table, up to the iteration order. -/
theorem Step.agree {s s' : RunState} {e : Event} (hw : s.table.WellFormed) (h : Step s e s') :
    (s.table.perform e.now e.op).1 = e.outcome ∧
      (s.table.perform e.now e.op).2.Same s'.table ∧ s.clock ≤ e.now ∧ s'.clock = e.now := by
  obtain @⟨t, t', op, now, outcome, hsame, hc, hs, hn, hp⟩ := h
  have ha := hsame.perform hw op (fun _ => hc) now
  rw [hp] at ha
  exact ⟨ha.answer, ha.table, UInt64.le_trans hs hn, rfl⟩

theorem Initial.wellFormed {s : RunState} (h : Initial s) : s.table.WellFormed := by
  obtain h | ⟨records, h⟩ := h
  · rw [h]; exact wellFormed_new
  · exact restore_wellFormed h

theorem Step.wellFormed {s s' : RunState} {e : Event} (h : s.table.WellFormed)
    (hs : Step s e s') : s'.table.WellFormed := by
  obtain ⟨hsame, hc, _, _, hp⟩ := hs
  exact (hsame.wellFormed hc h).perform hp

/-- **The representation invariant holds of every reachable table**: ports in the pool and
distinct, retired ids distinct and never keys, recovery keys distinct, retired lists bounded,
active sessions distinct and issued. -/
theorem reachable_wellFormed {s : RunState} (h : Reachable s) : s.table.WellFormed :=
  Trace.Reached.invariant (I := fun s => s.table.WellFormed) (fun _ => Initial.wellFormed)
    (fun _ _ _ => Step.wellFormed) h

/-- Two hosts enrol; one recovers its claim to a new token, the other leaves and rotates. -/
def twoHosts : List (UInt64 × Op) :=
  [(1000, .activateWithRecovery (.filled 1) (some (.filled 100)) (.v4 ⟨.replicate 4 10⟩) 10000),
   (1001, .activateWithRecovery (.filled 2) (some (.filled 200)) (.v4 ⟨.replicate 4 20⟩) 10001),
   (2000, .recoverClaim (.filled 100) (.filled 3) (.v4 ⟨.replicate 4 30⟩)),
   (2001, .endSession (.filled 2) ⟨2⟩),
   (3000, .rotateClaim (.filled 2) (.filled 4))]

/-- Both claims have moved, each with its port, its recovery key and the token it left. -/
theorem reachable_wellFormed_two_hosts :
    ∃ t : LeaseTable, (RunState.run ⟨new, 0⟩ twoHosts).2 = ⟨t, 3000⟩ ∧
      t.leases.lookup (.filled 3) = some ⟨10000, some (.v4 ⟨.replicate 4 30⟩), [.filled 1],
        some (.filled 100), .grace 302000⟩ ∧
      t.leases.lookup (.filled 4) = some ⟨10001, some (.v4 ⟨.replicate 4 20⟩), [.filled 2],
        some (.filled 200), .grace 302001⟩ ∧
      t.WellFormed := by
  have hr : Reachable (RunState.run ⟨new, 0⟩ twoHosts).2 :=
    (reachable_new 0).trace (RunState.trace_run rfl)
  exact ⟨_, rfl, rfl, rfl, reachable_wellFormed hr⟩

end LeaseTable
end GameNet
