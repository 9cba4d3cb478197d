import GameNet.Claim

/-!
# GameNet.PortLife

Exclusivity of a port through the whole life of a claim. `Life` is the abstract claim on a port:
the token that holds it now and whether a host is connected or since when it is not. A life ends
`graceMs` after the host left, at the first operation that drops expired leases.

The concrete claim is followed by `Claim.next`; `Phase.Of` relates the two, and the guarantee
of a port (`PortGuarantee`) is read off the lease.
-/

namespace GameNet
namespace LeaseTable

/-- A host is connected, or none is since the given time. -/
inductive Phase where
  | active
  | grace (since : UInt64)

structure Life where
  token : TokenId
  phase : Phase

/-- The reconnect window is over. -/
def Phase.overAt (now : UInt64) : Phase → Bool
  | .active => false
  | .grace since => decide (since.toNat + graceMs.toNat ≤ now.toNat)

/-- The phase a restart resumes in, after a save at `savedAt`. -/
def Phase.saved (savedAt : UInt64) : Phase → Phase
  | .active => .grace savedAt
  | .grace since => .grace since

/-- `since ≤ u64::MAX - GRACE_MS` -/
def Phase.Bounded : Phase → Prop
  | .active => True
  | .grace since => since.toNat + graceMs.toNat < 2 ^ 64

/-- A rotation moves the life to another token and leaves its phase alone. -/
def Life.apply (l : Life) : Effect → Life
  | .nothing => l
  | .reconnect _ _ _ => { l with phase := .active }
  | .leave now => { l with phase := .grace now }
  | .rotate new => { l with token := new }
  | .recover new _ now => ⟨new, .grace now⟩
  | .restart savedAt => { l with phase := l.phase.saved savedAt }

def Life.next (port : UInt16) (l : Life) (e : Event) : Life := l.apply (e.effect l.token port)

/-- The operation drops expired leases, and the reconnect window is over. -/
def Life.lapses (l : Life) (e : Event) : Bool :=
  match e.op with
  | .endSession _ _ => false
  | .restart savedAt => (l.phase.saved savedAt).overAt e.now
  | _ => l.phase.overAt e.now

/-- The events leave the claim alive: none of them lapses it. -/
def Life.Follows (port : UInt16) : Life → List Event → Prop
  | _, [] => True
  | l, e :: es =>
    l.lapses e = false ∧ (l.next port e).phase.Bounded ∧ (l.next port e).Follows port es

/-- The event hands `port` to `tokenId`, as a candidate or by activation. -/
def Event.Grants (e : Event) (tokenId : TokenId) (port : UInt16) : Prop :=
  match e.op, e.outcome with
  | .candidatePorts k _, .ports (.ok ports) => k = tokenId ∧ port ∈ ports
  | .activateWithRecovery k _ _ q, .activated (.ok _) => k = tokenId ∧ q = port
  | _, _ => False

/-- A token without a lease that is not retired, from a source with room. -/
structure Newcomer (t : LeaseTable) (tokenId : TokenId) (peerIp : IpAddr) : Prop where
  noLease : t.leases.lookup tokenId = none
  notRetired : t.isRetired tokenId = false
  room : t.sourceCount (HostSource.ofIp peerIp) < maxTunnelsPerIp

/-- What the relay guarantees about the claim on `port` in a step. -/
structure PortGuarantee (port : UInt16) (l : Life) (s : RunState) (e : Event) (s' : RunState) :
    Prop where
  othersRefused : l.phase.overAt e.now = false → ∀ k, k ≠ l.token → ¬e.Grants k port
  ownerOnly : l.phase.overAt e.now = false → ∀ q, e.Grants l.token q → q = port
  ownerOffered : ∀ since peerIp lease, l.phase = .grace since → l.phase.overAt e.now = false →
    e.op = .candidatePorts l.token peerIp → s.table.leases.lookup l.token = some lease →
    (s.table.reapExpired e.now).Admits lease peerIp → e.outcome = .ports (.ok [port])
  released : l.lapses e = true →
    (∀ k peerIp, e.op = .candidatePorts k peerIp → (s.table.reapExpired e.now).Newcomer k peerIp →
      e.Grants k port) ∧
    (∀ k presented peerIp, e.op = .activateWithRecovery k presented peerIp port →
      (s.table.reapExpired e.now).Newcomer k peerIp →
      (s.table.reapExpired e.now).recoveryKeyOwned k presented = false →
      s.table.nextSessionId ≠ UInt64.maxValue → e.Grants k port) ∧
    ((∀ k presented peerIp, e.op ≠ .activateWithRecovery k presented peerIp port) →
      ∀ k peerIp later, (s'.table.reapExpired later).Newcomer k peerIp →
        ∃ ports, (s'.table.candidatePorts k peerIp later).1 = .ok ports ∧ port ∈ ports)

/-! ## The life and the lease -/

/-- The lease is in this phase. -/
def Phase.Of (lease : Lease) : Phase → Prop
  | .active => ∃ s, lease.status = .active s
  | .grace since =>
    since.toNat + graceMs.toNat < 2 ^ 64 ∧ lease.status = .grace (since.saturatingAdd graceMs)

/-- The table is well formed and holds the claim on `port` whose life is `l`. -/
def Life.Tracks (port : UInt16) (l : Life) (t : LeaseTable) : Prop :=
  t.WellFormed ∧ ∃ c, t.Holds port c ∧ c.token = l.token ∧ l.phase.Of c.lease

variable {t t' : LeaseTable} {port : UInt16} {l : Life} {c : Claim} {now savedAt : UInt64}
  {s s' : RunState} {e : Event} {es : List Event} {φ : Phase} {lease : Lease}
  {k : TokenId} {peerIp : IpAddr}

theorem toNat_saturatingAdd_grace {since : UInt64} (h : since.toNat + graceMs.toNat < 2 ^ 64) :
    (since.saturatingAdd graceMs).toNat = since.toNat + graceMs.toNat := by
  rw [UInt64.toNat_saturatingAdd]; omega

theorem Phase.Of.expired (h : φ.Of lease) : lease.expired now = φ.overAt now := by
  cases φ with
  | active =>
    obtain ⟨s, hs⟩ := h
    simp [Lease.expired, Phase.overAt, hs]
  | grace since =>
    obtain ⟨hb, hs⟩ := h
    simp only [Lease.expired, Phase.overAt, hs, UInt64.le_iff_toNat_le,
      toNat_saturatingAdd_grace hb]

/-- The saved deadline is over when the saved phase is; conversely if the phase is bounded. -/
theorem Phase.Of.savedDeadline_le (h : φ.Of lease)
    (hb : (φ.saved savedAt).Bounded ∨ (φ.saved savedAt).overAt now = true) :
    decide (lease.savedDeadline savedAt ≤ now) = (φ.saved savedAt).overAt now := by
  have hnow := now.toNat_lt
  cases φ with
  | active =>
    obtain ⟨s, hs⟩ := h
    simp only [Phase.saved, Phase.Bounded, Phase.overAt, decide_eq_true_eq] at hb
    have hb : savedAt.toNat + graceMs.toNat < 2 ^ 64 := by omega
    simp only [Lease.savedDeadline, hs, Phase.saved, Phase.overAt, UInt64.le_iff_toNat_le,
      toNat_saturatingAdd_grace hb]
  | grace since =>
    obtain ⟨hb, hs⟩ := h
    simp only [Lease.savedDeadline, hs, Phase.saved, Phase.overAt, UInt64.le_iff_toNat_le,
      toNat_saturatingAdd_grace hb]

theorem Phase.Of.saved (h : φ.Of lease) (hb : (φ.saved savedAt).Bounded) :
    (φ.saved savedAt).Of { lease with status := .grace (lease.savedDeadline savedAt) } := by
  cases φ with
  | active =>
    obtain ⟨s, hs⟩ := h
    exact ⟨hb, by simp only [Lease.savedDeadline, hs]⟩
  | grace since => exact ⟨h.1, by simp only [Lease.savedDeadline, h.2]⟩

/-- The two descriptions of the claim expire together. -/
theorem Life.lapses_eq (hp : l.phase.Of c.lease)
    (hb : ∀ savedAt, e.op = .restart savedAt →
      (l.phase.saved savedAt).Bounded ∨ (l.phase.saved savedAt).overAt e.now = true) :
    c.lapses e = l.lapses e := by
  obtain ⟨op, now, outcome⟩ := e
  cases op with
  | endSession tokenId sessionId => rfl
  | restart savedAt => exact hp.savedDeadline_le (hb savedAt rfl)
  | candidatePorts tokenId peerIp => exact hp.expired
  | activateWithRecovery tokenId recoveryId peerIp port => exact hp.expired
  | rotateClaim old new => exact hp.expired
  | recoverClaim recoveryId new peerIp => exact hp.expired
  | reapExpired => exact hp.expired

/-- One event moves the life as it moves the claim. -/
theorem Life.next_of (hport : c.lease.port = port) (ht : c.token = l.token)
    (hp : l.phase.Of c.lease) (hb : (l.next port e).phase.Bounded) :
    (c.next e).token = (l.next port e).token ∧
      (l.next port e).phase.Of (c.next e).lease := by
  simp only [Claim.next, Life.next, ht, hport] at hb ⊢
  generalize e.effect l.token port = effect at hb ⊢
  cases effect with
  | nothing => exact ⟨ht, hp⟩
  | reconnect presented peerIp sessionId => exact ⟨ht, sessionId, rfl⟩
  | leave now => exact ⟨ht, hb, rfl⟩
  | rotate new => exact ⟨rfl, hp⟩
  | recover new peerIp now => exact ⟨rfl, hb, rfl⟩
  | restart savedAt => exact ⟨ht, hp.saved hb⟩

/-- A step that does not lapse the claim keeps track of its life. -/
theorem Life.Tracks.step (h : l.Tracks port s.table) (hs : Step s e s')
    (hl : l.lapses e = false) (hb : (l.next port e).phase.Bounded) :
    (l.next port e).Tracks port s'.table := by
  obtain ⟨hw, c, hc, ht, hp⟩ := h
  have hx : c.lapses e = false := by
    rw [Life.lapses_eq hp, hl]
    -- a restart of a well-formed table succeeds, so the next phase is the saved one
    intro savedAt hop
    left
    have ho := (hs.agree hw).1
    rw [hop, perform_restart (hw.snapshot_valid savedAt)] at ho
    simpa only [Life.next, Life.apply, Event.effect, hop, ← ho] using hb
  have hlive : LiveStep port s e s' := ⟨hs, fun c' hc' => by rw [← hc.unique hw hc']; exact hx⟩
  exact ⟨hs.wellFormed hw, c.next e, hlive.holds hw hc, Life.next_of hc.2 ht hp hb⟩

theorem Life.Tracks.follow (h : l.Tracks port s.table) (hs : Trace Step s es s')
    (hf : l.Follows port es) : (es.foldl (Life.next port) l).Tracks port s'.table := by
  induction hs generalizing l with
  | refl => exact h
  | cons hs _ ih =>
    obtain ⟨hl, hb, hf⟩ := hf
    exact ih (h.step hs hl hb) hf

/-- A successful activation begins a life. -/
theorem Life.Tracks.begin {presented : Option TokenId} {sessionId : SessionId}
    (hw : s.table.WellFormed)
    (hs : Step s ⟨.activateWithRecovery k presented peerIp port, now, .activated (.ok sessionId)⟩
      s') : Life.Tracks port ⟨k, .active⟩ s'.table := by
  refine ⟨hs.wellFormed hw, ?_⟩
  obtain ⟨_, _, _, _, hp⟩ := hs
  obtain ⟨r, hq, hr⟩ := perform_activate hp
  cases hr
  obtain ⟨_, h, _⟩ | ⟨s, h, ha, rfl⟩ := activateWithRecovery_cases hq
  · cases h
  · exact ⟨⟨k, _⟩, ⟨AList.lookup_insert _, rfl⟩, rfl, s, rfl⟩

/-! ## What the table offers -/

/-- The token of the claim is offered its port only. -/
theorem Holds.offer {ports : List UInt16} (h : t.Holds port c)
    (ho : t.offer c.token peerIp = .ok ports) : ports = [port] := by
  obtain ⟨_, ⟨lease, e, hl, _, _, rfl⟩ | ⟨hl, _⟩⟩ := offer_eq_ok.mp ho
  · rw [h.1] at hl
    cases hl
    rw [h.2]
  · rw [h.1] at hl; cases hl

/-- No other token is offered the port. -/
theorem Holds.offer_ne {ports : List UInt16} (hw : t.WellFormed) (h : t.Holds port c)
    (hk : k ≠ c.token) (ho : t.offer k peerIp = .ok ports) : port ∉ ports := by
  intro hm
  exact (offer_port hw ho hm).2 _ _ hk.symm h.1 h.2.symm

/-- An event hands a port out only by an offer the reaped table makes. -/
theorem Event.Grants.offer {outcome : Outcome} {op : Op}
    (h : Event.Grants ⟨op, now, outcome⟩ k port) (ho : (t.perform now op).1 = outcome) :
    ∃ peerIp ports, (t.reapExpired now).offer k peerIp = .ok ports ∧ port ∈ ports := by
  subst ho
  cases op with
  | candidatePorts tokenId peerIp =>
    simp only [Event.Grants, LeaseTable.perform, candidatePorts_eq] at h
    cases ho : (t.reapExpired now).offer tokenId peerIp with
    | error e => simp [ho] at h
    | ok ports =>
      simp only [ho] at h
      obtain ⟨rfl, hm⟩ := h
      exact ⟨peerIp, ports, ho, hm⟩
  | activateWithRecovery tokenId presented peerIp q =>
    simp only [Event.Grants, LeaseTable.perform] at h
    obtain ⟨e, hr, _⟩ | ⟨s, hr, ha, _⟩ :=
      activateWithRecovery_cases (Prod.mk.eta (p := t.activateWithRecovery tokenId presented peerIp
        q now)).symm
    · simp [hr] at h
    · simp only [hr] at h
      obtain ⟨rfl, rfl⟩ := h
      obtain ⟨ports, ho, hm⟩ := ha.offered
      exact ⟨peerIp, ports, ho, hm⟩
  | endSession tokenId sessionId => cases h
  | rotateClaim old new => cases h
  | recoverClaim recoveryId new peerIp => cases h
  | reapExpired => cases h
  | restart savedAt => simp [Event.Grants] at h

/-- A free port of the pool is offered to every newcomer. -/
theorem Newcomer.offer (h : t.Newcomer k peerIp) (hpool : portStart ≤ port ∧ port ≤ portEnd)
    (hf : ¬t.Occupied port) :
    ∃ ports, t.offer k peerIp = .ok ports ∧ port ∈ ports := by
  have hm : port ∈ t.freePorts := mem_freePorts.mpr ⟨hpool, hf⟩
  refine ⟨t.freePorts, offer_eq_ok.mpr ⟨h.notRetired, .inr ⟨h.noLease, h.room, ?_, rfl⟩⟩, hm⟩
  exact List.ne_nil_of_mem hm

theorem not_occupied_reapExpired (h : ¬t.Occupied port) : ¬(t.reapExpired now).Occupied port :=
  fun ⟨k, lease, hl, hp⟩ => h ⟨k, lease, lookup_of_reapExpired hl, hp⟩

/-- A claim that expires gives its port back when the expired leases are dropped. -/
theorem Holds.freed (hw : t.WellFormed) (h : t.Holds port c) (hx : c.lease.expired now = true) :
    ¬(t.reapExpired now).Occupied port := by
  rintro ⟨k, lease, hl, hp⟩
  obtain ⟨hl, he⟩ := lookup_reapExpired.mp hl
  obtain rfl : c = ⟨k, lease⟩ := h.unique hw ⟨hl, hp⟩
  rw [hx] at he; cases he

/-- A moved claim occupies the port it had. -/
theorem occupied_moveClaim {old new : TokenId} {lease' : Lease}
    (h : (t.moveClaim old new lease').Occupied port) (hl : t.leases.lookup old = some lease)
    (hp : lease'.port = lease.port) : t.Occupied port := by
  obtain ⟨k, l, hk, rfl⟩ := h
  have hk : AList.lookup k (AList.insert new lease' (AList.erase old t.leases)) = some l := hk
  rw [KeyedMap.lookup_insert] at hk
  split at hk
  · cases hk
    exact ⟨old, lease, hl, hp.symm⟩
  · rw [KeyedMap.lookup_erase] at hk
    split at hk
    · cases hk
    · exact ⟨k, l, hk, rfl⟩

/-- After the operation that lapses the claim its port is free, unless that operation took it. -/
theorem Holds.freed_perform {op : Op} {outcome : Outcome} (hw : t.WellFormed)
    (h : t.Holds port c) (hx : c.lapses ⟨op, now, outcome⟩ = true)
    (hne : ∀ k presented peerIp, op ≠ .activateWithRecovery k presented peerIp port)
    (ho : t.perform now op = (outcome, t')) : ¬t'.Occupied port := by
  cases op with
  | candidatePorts tokenId peerIp =>
    cases ho
    exact h.freed hw hx
  | reapExpired =>
    cases ho
    exact h.freed hw hx
  | endSession tokenId sessionId => cases hx
  | activateWithRecovery tokenId presented peerIp q =>
    have hf : ¬(t.reapExpired now).Occupied port := h.freed hw hx
    obtain ⟨r, hq, rfl⟩ := perform_activate ho
    obtain ⟨e, rfl, rfl⟩ | ⟨s, rfl, ha, rfl⟩ := activateWithRecovery_cases hq
    · exact hf
    · rintro ⟨k, lease, hl, hp⟩
      rw [KeyedMap.lookup_insert] at hl
      split at hl
      · cases hl
        exact hne tokenId presented peerIp (by rw [← hp]; rfl)
      · exact hf ⟨k, lease, hl, hp⟩
  | rotateClaim old new =>
    have hf : ¬(t.reapExpired now).Occupied port := h.freed hw hx
    obtain ⟨r, hq, rfl⟩ := perform_rotate ho
    obtain ⟨lease, hr, _, rfl⟩ | ⟨rfl, _⟩ := rotateClaim_cases hq
    · exact fun hocc => hf (occupied_moveClaim hocc hr.held rfl)
    · exact hf
  | recoverClaim recoveryId new peerIp =>
    have hf : ¬(t.reapExpired now).Occupied port := h.freed hw hx
    obtain ⟨r, hq, rfl⟩ := perform_recover ho
    obtain ⟨old, lease, hr, _, rfl⟩ | ⟨rfl, _⟩ := recoverClaim_cases hq
    · exact fun hocc => hf (occupied_moveClaim hocc hr.held rfl)
    · exact hf
  | restart savedAt =>
    rw [perform_restart (hw.snapshot_valid savedAt)] at ho
    cases ho
    rintro ⟨k, lease, hl, hp⟩
    obtain ⟨record, hm, rfl, hlt, rfl⟩ :=
      (lookup_load_new (hw.snapshot_valid savedAt).tokens).mp hl
    obtain ⟨k, lease, hk, rfl⟩ := mem_snapshot.mp hm
    obtain rfl : c = ⟨k, lease⟩ := h.unique hw ⟨hk, hp⟩
    have hle : lease.savedDeadline savedAt ≤ now := by
      simpa only [Claim.lapses, decide_eq_true_eq] using hx
    have hlt : now < lease.savedDeadline savedAt := hlt
    grind

/-! ## The guarantee -/

/-- A port whose claim is tracked is guarded in every step. -/
theorem Life.Tracks.guarantee (h : l.Tracks port s.table) (hs : Step s e s') :
    PortGuarantee port l s e s' := by
  obtain ⟨hw, c, hc, ht, hp⟩ := h
  obtain ⟨ho, hsame, _, _⟩ := hs.agree hw
  have hwr : (s.table.reapExpired e.now).WellFormed := hw.reapExpired
  have live : l.phase.overAt e.now = false → (s.table.reapExpired e.now).Holds port c :=
    fun hover => hc.reapExpired (hp.expired.trans hover)
  constructor
  · intro hover k hk hg
    obtain ⟨peerIp, ports, hoffer, hm⟩ := hg.offer ho
    exact (live hover).offer_ne hwr (ht ▸ hk) hoffer hm
  · intro hover q hg
    obtain ⟨peerIp, ports, hoffer, hm⟩ := hg.offer ho
    obtain rfl := (live hover).offer (ht ▸ hoffer)
    exact List.mem_singleton.mp hm
  · intro since peerIp lease hgrace hover hop hl hadm
    rw [← ht, hc.1] at hl
    cases hl
    have hx : c.lease.expired e.now = false := hp.expired.trans hover
    rw [hgrace] at hp
    have hoff := hc.offered hw hp.2 hx hadm
    rw [← ho, hop, ← ht]
    simp only [LeaseTable.perform, candidatePorts_eq, hoff]
  · intro hlapse
    have hx : c.lapses e = true := by
      rw [Life.lapses_eq hp, hlapse]
      intro savedAt hop
      right
      simpa only [Life.lapses, hop] using hlapse
    have hpool := hc.2 ▸ hw.portInPool hc.1
    refine ⟨?_, ?_, ?_⟩
    · intro k peerIp hop hnew
      have hfree : ¬(s.table.reapExpired e.now).Occupied port := by
        refine hc.freed hw ?_
        simpa only [Claim.lapses, hop] using hx
      obtain ⟨ports, hoffer, hm⟩ := hnew.offer hpool hfree
      simp only [Event.Grants, ← ho, hop, LeaseTable.perform, candidatePorts_eq, hoffer]
      exact ⟨trivial, hm⟩
    · intro k presented peerIp hop hnew hkey hmax
      have hfree : ¬(s.table.reapExpired e.now).Occupied port := by
        refine hc.freed hw ?_
        simpa only [Claim.lapses, hop] using hx
      obtain ⟨ports, hoffer, hm⟩ := hnew.offer hpool hfree
      have hmatch : recoveryKeyMismatch ((s.table.reapExpired e.now).leases.lookup k) presented =
          false := by rw [hnew.noLease]; rfl
      obtain ⟨sessionId, hact⟩ := activateWithRecovery_ok hoffer hm hkey hmatch hmax
      simp only [Event.Grants, ← ho, hop, LeaseTable.perform, hact]
      exact ⟨trivial, trivial⟩
    · intro hne k peerIp later hnew
      have hfree : ¬s'.table.Occupied port := fun hocc =>
        hc.freed_perform hw hx hne (Prod.ext ho rfl) (hsame.symm.occupied hocc)
      exact hnew.offer hpool (not_occupied_reapExpired hfree)

/-- **A port belongs to its claim for the claim's whole life**: from the activation on, through
any run that does not lapse the claim, no other token gets the port, the claim's token gets this
port and no other, and the operation that finds the reconnect window over frees it. -/
theorem reachable_portGuarantee {tokenId : TokenId} {presented : Option TokenId}
    {peerIp : IpAddr} {port : UInt16} {sessionId : SessionId} {now : UInt64}
    {s₀ s₁ s₂ s₃ : RunState} {es : List Event} {e : Event} (h₀ : Reachable s₀)
    (h₁ : Step s₀
      ⟨.activateWithRecovery tokenId presented peerIp port, now, .activated (.ok sessionId)⟩ s₁)
    (h₂ : Trace Step s₁ es s₂) (hf : Life.Follows port ⟨tokenId, .active⟩ es)
    (h₃ : Step s₂ e s₃) :
    PortGuarantee port (es.foldl (Life.next port) ⟨tokenId, .active⟩) s₂ e s₃ :=
  ((Life.Tracks.begin (reachable_wellFormed h₀) h₁).follow h₂ hf).guarantee h₃

/-- A host leaves at 2000 and comes back in the last millisecond of its reconnect window. -/
theorem reachable_portGuarantee_last_ms :
    ∃ s₂ s₃, PortGuarantee 10000 ⟨.filled 1, .grace 2000⟩ s₂
      ⟨.candidatePorts (.filled 1) hostIp, 301999, .ports (.ok [10000])⟩ s₃ := by
  have h₁ := Step.of_perform new 0
    (.activateWithRecovery (.filled 1) (some (.filled 100)) hostIp 10000) 1000 (by decide)
    (by decide)
  have h₂ := Step.of_perform hosted 1000 (.endSession (.filled 1) ⟨1⟩) 2000 (by decide) (by decide)
  have h₃ := Step.of_perform (hosted.perform 2000 (.endSession (.filled 1) ⟨1⟩)).2 2000
    (.candidatePorts (.filled 1) hostIp) 301999 (by decide) (by decide)
  have hb : (2000 : UInt64).toNat + graceMs.toNat < 2 ^ 64 := by decide
  exact ⟨_, _, reachable_portGuarantee (reachable_new 0) h₁ (.single h₂) ⟨rfl, hb, trivial⟩ h₃⟩

end LeaseTable
end GameNet
