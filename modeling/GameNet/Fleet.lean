import GameNet.KeyRing
import GameNet.Machine
import GameNet.Registration

/-!
# GameNet.Fleet

Any number of machines that hold one recovery secret, each with its own identity files, and the
relay's lease table, which other clients use too. A machine runs one command at a time; the relay
serves the request that a machine has sent, at any later time or never, and its reply may be lost.

A token goes from the random generator to `identity.bin.pending`, to the relay as the new token of a
claim, and to `identity.bin`. While it is pending the relay can come to list it as retired, when a
recovery of another machine moves the claim on; in runs in which none does (`SparingStep`), every
token that is pending or drawn stays usable (`Sound`).
-/

namespace GameNet

/-- The operation that serves a request from `peerIp`. A registration gets no further than its
candidates when none of them can be bound. -/
def Request.Performs (sha256 : Bytes32 → Bytes32) (peerIp : IpAddr) :
    Request → LeaseTable.Op → Prop
  | .register token recoveryId, op =>
    op = .candidatePorts (.fromToken sha256 token) peerIp ∨
      ∃ port, op = .activateWithRecovery (.fromToken sha256 token) (some ⟨recoveryId⟩) peerIp port
  | .rotate old new, op => op = .rotateClaim (.fromToken sha256 old) (.fromToken sha256 new)
  | .recover secret new, op =>
    op = .recoverClaim (.fromToken sha256 secret) (.fromToken sha256 new) peerIp

/-- The reply to a request that was served. When no port could be bound it is an error too. -/
def Replies : LeaseTable.Op → LeaseTable.Outcome → ControlMessage → Prop
  | .activateWithRecovery _ _ _ port, .activated (.ok _), reply => reply = .tunnelReady port
  | _, .rotated (.ok result), reply => reply = .identityRotated result.port
  | _, .recovered (.ok result), reply => reply = .identityRecovered result.port
  | _, .activated (.error e), reply => reply = .error e.message
  | _, .rotated (.error e), reply => reply = .error e.message
  | _, .recovered (.error e), reply => reply = .error e.message
  | _, .ports (.error e), reply => reply = .error e.message
  | _, _, reply => ∃ text, reply = .error text

structure Fleet where
  machines : Nat → Machine
  table : LeaseTable
  clock : UInt64

namespace Fleet

inductive Event where
  | moved (i : Nat) (e : Machine.Event)
  | served (i : Nat) (e : LeaseTable.Event)
  /-- Another client's request, or the relay's own doing. -/
  | other (e : LeaseTable.Event)

/-- Some machine holds a token of this fingerprint in one of the slots. -/
def Holds (sha256 : Bytes32 → Bytes32) (s : Fleet) (slots : Machine.Slot → Prop) (k : TokenId) :
    Prop :=
  ∃ i slot token, slots slot ∧ (s.machines i).Holds slot token ∧ .fromToken sha256 token = k

/-- A random token collides with none that a machine holds or the relay knows. -/
structure Fresh (sha256 : Bytes32 → Bytes32) (s : Fleet) (token : TunnelToken) : Prop where
  notHeld : ¬s.Holds sha256 (fun _ => True) (.fromToken sha256 token)
  notKey : s.table.leases.lookup (.fromToken sha256 token) = none
  notRetired : s.table.isRetired (.fromToken sha256 token) = false

/-- Other clients have neither the machines' tokens nor their recovery secret. -/
def Foreign (sha256 : Bytes32 → Bytes32) (secret : TunnelToken) (s : Fleet) :
    LeaseTable.Op → Prop
  | .activateWithRecovery tokenId _ _ _ => ¬s.Holds sha256 (fun _ => True) tokenId
  | .rotateClaim old new =>
    ¬s.Holds sha256 (fun _ => True) old ∧ ¬s.Holds sha256 (fun _ => True) new
  | .recoverClaim recoveryId new _ =>
    recoveryId ≠ .fromToken sha256 secret ∧ ¬s.Holds sha256 (fun _ => True) new
  | _ => True

inductive Step (sha256 : Bytes32 → Bytes32) (secret : TunnelToken) :
    Fleet → Event → Fleet → Prop where
  | move {s : Fleet} {i : Nat} {e : Machine.Event} {m : Machine} :
      Machine.Step sha256 (s.Fresh sha256) secret (s.machines i) e m →
      Step sha256 secret s (.moved i e) { s with machines := Function.update s.machines i m }
  | serve {s : Fleet} {i : Nat} {message : ControlMessage} {request : Request} {peerIp : IpAddr}
      {e : LeaseTable.Event} {table : LeaseTable} {reply : Option ControlMessage} :
      (s.machines i).inFlight = some message → Request.ofMessage message = some request →
      request.Performs sha256 peerIp e.op →
      LeaseTable.Step ⟨s.table, s.clock⟩ e ⟨table, e.now⟩ →
      (∀ m ∈ reply, Replies e.op e.outcome m) →
      Step sha256 secret s (.served i e)
        { machines := Function.update s.machines i ((s.machines i).answered reply)
          table := table
          clock := e.now }
  | other {s : Fleet} {e : LeaseTable.Event} {table : LeaseTable} : s.Foreign sha256 secret e.op →
      LeaseTable.Step ⟨s.table, s.clock⟩ e ⟨table, e.now⟩ →
      Step sha256 secret s (.other e) { s with table := table, clock := e.now }

/-- An empty table, and machines that hold the secret, each with tokens of its own or none. -/
structure Initial (sha256 : Bytes32 → Bytes32) (secret : TunnelToken) (s : Fleet) : Prop where
  table : s.table = .new
  idle : ∀ i, (s.machines i).running = none ∧ (s.machines i).inFlight = none
  recovery : ∀ i, (s.machines i).files.Has .recovery secret
  apart : ∀ {i j a b x y}, (s.machines i).Holds a x → (s.machines j).Holds b y →
    TokenId.fromToken sha256 x = .fromToken sha256 y → i = j ∧ a = b

/-- A recovery that goes through moves no claim away from a token that a machine has pending. -/
def Spares (sha256 : Bytes32 → Bytes32) (s : Fleet) (e : Event) : Prop :=
  ∀ i recoveryId new peerIp now outcome,
    e = .served i ⟨.recoverClaim recoveryId new peerIp, now, outcome⟩ →
    ∀ old lease, (s.table.reapExpired now).Recovers recoveryId old new peerIp lease →
      ¬s.Holds sha256 (· = .pending) old

def SparingStep (sha256 : Bytes32 → Bytes32) (secret : TunnelToken) (s : Fleet) (e : Event)
    (s' : Fleet) : Prop :=
  Step sha256 secret s e s' ∧ s.Spares sha256 e

/-- The tokens of the machines. The pending and the drawn ones are to be the new token of a
request. -/
def ring (sha256 : Bytes32 → Bytes32) (secret : TunnelToken) (s : Fleet) : KeyRing where
  recoveryId := .fromToken sha256 secret
  held := s.Holds sha256 fun _ => True
  waiting := s.Holds sha256 (· ≠ .identity)
  drawn := s.Holds sha256 (· = .drawn)

structure Sound (sha256 : Bytes32 → Bytes32) (secret : TunnelToken) (s : Fleet) : Prop where
  machines : ∀ i, (s.machines i).Sound sha256 secret
  apart : ∀ {i j a b x y}, (s.machines i).Holds a x → (s.machines j).Holds b y →
    TokenId.fromToken sha256 x = .fromToken sha256 y → i = j ∧ a = b
  wellFormed : s.table.WellFormed
  respects : s.table.Respects (s.ring sha256 secret)

variable {sha256 : Bytes32 → Bytes32} {secret token : TunnelToken} {s s' : Fleet} {e : Event}
  {i : Nat} {k : TokenId} {slots slots' : Machine.Slot → Prop}

theorem Holds.mono (hs : ∀ slot, slots slot → slots' slot) (h : s.Holds sha256 slots k) :
    s.Holds sha256 slots' k := by
  obtain ⟨i, slot, token, hslot, hh, rfl⟩ := h
  exact ⟨i, slot, token, hs slot hslot, hh, rfl⟩

theorem Holds.all (h : s.Holds sha256 slots k) : s.Holds sha256 (fun _ => True) k :=
  h.mono fun _ _ => trivial

theorem Holds.congr (hs : ∀ {i slot token}, (s'.machines i).Holds slot token →
    (s.machines i).Holds slot token) (h : s'.Holds sha256 slots k) : s.Holds sha256 slots k := by
  obtain ⟨i, slot, token, hslot, hh, rfl⟩ := h
  exact ⟨i, slot, token, hslot, hs hh, rfl⟩

/-- The fingerprint of a token that is in one slot is not that of a token in another one. -/
theorem Sound.not_holds (h : s.Sound sha256 secret) (slot : Machine.Slot)
    (hh : (s.machines i).Holds slot token) (hn : ¬slots slot) :
    ¬s.Holds sha256 slots (.fromToken sha256 token) := by
  rintro ⟨j, slot', token', hslot, hh', he⟩
  obtain ⟨-, rfl⟩ := h.apart hh' hh he
  exact hn hslot

/-! ## Steps of a machine -/

section move

variable {m : Machine} {before : Machine.Slot → Machine.Slot}

theorem Holds.of_move (hc : Machine.Comes (s.Fresh sha256) (s.machines i) m before)
    (hslots : ∀ slot, slots slot → slots (before slot))
    (h : Holds sha256 { s with machines := Function.update s.machines i m } slots k) :
    s.Holds sha256 slots k ∨ (s.table.leases.lookup k = none ∧ s.table.isRetired k = false) := by
  obtain ⟨j, slot, token, hslot, hh, rfl⟩ := h
  simp only [Function.update_apply] at hh
  split at hh
  · rcases hc.origin hh with ⟨-, hfresh⟩ | hh
    · exact .inr ⟨hfresh.notKey, hfresh.notRetired⟩
    · exact .inl ⟨i, before slot, token, hslots slot hslot, hh, rfl⟩
  · exact .inl ⟨j, slot, token, hslot, hh, rfl⟩

theorem Sound.move {event : Machine.Event} (h : s.Sound sha256 secret)
    (hs : Machine.Step sha256 (s.Fresh sha256) secret (s.machines i) event m) :
    Sound sha256 secret { s with machines := Function.update s.machines i m } := by
  obtain ⟨before, hc⟩ := ((h.machines i).changes hs).comes
  -- a token of the machine that moved is fresh, or none of another machine's tokens
  have hother : ∀ {j a b x y}, j ≠ i → m.Holds a x → (s.machines j).Holds b y →
      TokenId.fromToken sha256 x ≠ .fromToken sha256 y := by
    intro j a b x y hj hx hy he
    rcases hc.origin hx with ⟨-, hfresh⟩ | hx
    · exact hfresh.notHeld ⟨j, b, y, trivial, hy, he.symm⟩
    · exact hj (h.apart hx hy he).1.symm
  constructor
  · intro j
    simp only [Function.update_apply]
    split
    · exact (h.machines i).step hs
    · exact h.machines j
  · intro j l a b x y hx hy he
    simp only [Function.update_apply] at hx hy
    split at hx
    · split at hy
      · have hm : m.Apart sha256 := hc.apart (fun hx hy he => (h.apart hx hy he).2)
          fun hfresh hy he => hfresh.notHeld ⟨i, _, _, trivial, hy, he.symm⟩
        exact ⟨‹j = i›.trans ‹l = i›.symm, hm hx hy he⟩
      · exact absurd he (hother ‹_› hx hy)
    · split at hy
      · exact absurd he.symm (hother ‹_› hy hx)
      · exact h.apart hx hy he
  · exact h.wellFormed
  · refine h.respects.mono rfl ?_ ?_ ?_
    · intro k hk
      exact (Holds.of_move hc (fun _ _ => trivial) hk).imp_right And.left
    · intro k hk
      exact (Holds.of_move hc (fun _ hne he => hne (hc.identity he)) hk).imp_right And.right
    · intro k hk
      refine (Holds.of_move hc ?_ hk).imp_right And.left
      rintro slot rfl
      exact hc.drawn

end move

/-! ## Steps of the relay -/

/-- What a machine asks for is fair, when it spares the pending tokens. -/
theorem Sound.fair {message : ControlMessage} {request : Request} {peerIp : IpAddr}
    {op : LeaseTable.Op} {now : UInt64} (h : s.Sound sha256 secret)
    (hin : (s.machines i).inFlight = some message) (hr : Request.ofMessage message = some request)
    (hp : request.Performs sha256 peerIp op)
    (hs : ∀ recoveryId new peerIp, op = .recoverClaim recoveryId new peerIp →
      ∀ old lease, (s.table.reapExpired now).Recovers recoveryId old new peerIp lease →
        ¬s.Holds sha256 (· = .pending) old) :
    s.table.Fair (s.ring sha256 secret) now op := by
  have hasked := (h.machines i).asked hin
  cases message with
  | register protocol localPort token recoveryId =>
    obtain ⟨hidentity, rfl⟩ := hasked
    simp only [Request.ofMessage] at hr
    split at hr
    · cases hr
    · cases hr
      rcases hp with rfl | ⟨port, rfl⟩
      · trivial
      · exact ⟨h.not_holds .identity hidentity nofun, fun _ => rfl⟩
  | rotateIdentity old new =>
    obtain ⟨hold, hnew⟩ := hasked
    cases hr
    obtain rfl := hp
    refine ⟨h.not_holds .pending hnew nofun,
      h.not_holds .identity hold fun hne => hne rfl, fun _ => ?_⟩
    exact ⟨i, .identity, old, trivial, hold, rfl⟩
  | recoverIdentity recoverySecret new =>
    obtain ⟨rfl, hnew⟩ := hasked
    cases hr
    obtain rfl := hp
    refine ⟨h.not_holds .pending hnew nofun, fun _ => rfl, ?_⟩
    rintro old lease hrec ⟨j, slot, token, hslot, hh, he⟩
    cases slot with
    | identity => exact hslot rfl
    | pending => exact hs _ _ _ rfl old lease hrec ⟨j, .pending, token, rfl, hh, he⟩
    | drawn =>
      have hkeep : (s.table.reapExpired now).Respects (s.ring sha256 recoverySecret) :=
        h.respects.reapExpired
      have hnone := hkeep.notKey ⟨j, .drawn, token, rfl, hh, he⟩
      rw [hrec.held] at hnone
      cases hnone
  | _ => cases hr

theorem Sound.fair_foreign {op : LeaseTable.Op} {now : UInt64} (h : s.Sound sha256 secret)
    (hf : s.Foreign sha256 secret op) : s.table.Fair (s.ring sha256 secret) now op := by
  cases op with
  | activateWithRecovery tokenId recoveryId peerIp port =>
    exact ⟨fun hd => hf (Holds.all hd), fun hh => absurd hh hf⟩
  | rotateClaim old new =>
    exact ⟨fun hd => hf.2 (Holds.all hd), fun hw => hf.1 (Holds.all hw), fun hh => absurd hh hf.2⟩
  | recoverClaim recoveryId new peerIp =>
    refine ⟨fun hd => hf.2 (Holds.all hd), fun hh => absurd hh hf.2, ?_⟩
    intro old lease hr hw
    have hkey := h.respects.reapExpired.enrolled hr.held (Holds.all hw)
    rw [hr.enrolled] at hkey
    exact hf.1 (Option.some.inj hkey)
  | _ => trivial

theorem fair_same {ring : KeyRing} {t t' : LeaseTable} {now : UInt64} {op : LeaseTable.Op}
    (h : t.Same t') (hf : t.Fair ring now op) : t'.Fair ring now op := by
  cases op with
  | recoverClaim recoveryId new peerIp =>
    refine ⟨hf.1, hf.2.1, fun old lease hr => hf.2.2 old lease ?_⟩
    exact (h.symm.reapExpired now).recovers hr
  | _ => exact hf

/-- A fair operation, on the table in any iteration order. -/
theorem respects_step {ring : KeyRing} {t t' : LeaseTable} {clock : UInt64}
    {event : LeaseTable.Event} (hw : t.WellFormed) (h : t.Respects ring)
    (hf : t.Fair ring event.now event.op)
    (hs : LeaseTable.Step ⟨t, clock⟩ event ⟨t', event.now⟩) :
    t'.WellFormed ∧ t'.Respects ring := by
  obtain ⟨hsame, hn, -, -, hp⟩ := hs
  have hw := hsame.wellFormed hn hw
  refine ⟨hw.perform hp, LeaseTable.Respects.perform hw (h.of_subset ?_) (fair_same hsame hf) hp⟩
  intro k lease hl
  rw [hsame.leases]
  exact hl

theorem Sound.step (h : s.Sound sha256 secret) (hs : SparingStep sha256 secret s e s') :
    s'.Sound sha256 secret := by
  obtain ⟨hstep, hspare⟩ := hs
  cases hstep with
  | move hs => exact h.move hs
  | @serve i message request peerIp event table reply hin hr hp hs _ =>
    have hf : s.table.Fair (s.ring sha256 secret) event.now event.op := by
      refine h.fair hin hr hp ?_
      intro recoveryId new peerIp hop
      exact hspare i recoveryId new peerIp event.now event.outcome (by rw [← hop])
    obtain ⟨hw, hrespects⟩ := respects_step h.wellFormed h.respects hf hs
    -- a machine that gets a reply has the tokens it had
    have hsame : ∀ {j slot token}, (Function.update s.machines i
        ((s.machines i).answered reply) j).Holds slot token → (s.machines j).Holds slot token := by
      intro j slot token hh
      simp only [Function.update_apply] at hh
      split at hh
      · rename_i hj
        subst hj
        cases slot <;> exact hh
      · exact hh
    refine ⟨?_, fun hx hy he => h.apart (hsame hx) (hsame hy) he, hw, ?_⟩
    · intro j
      simp only [Function.update_apply]
      split
      · exact (h.machines i).answered
      · exact h.machines j
    · exact hrespects.mono rfl (fun hk => .inl (Holds.congr hsame hk))
        (fun hk => .inl (Holds.congr hsame hk)) (fun hk => .inl (Holds.congr hsame hk))
  | @other event table hf hs =>
    obtain ⟨hw, hrespects⟩ := respects_step h.wellFormed h.respects (h.fair_foreign hf) hs
    exact ⟨h.machines, h.apart, hw, hrespects⟩

theorem Initial.sound (h : s.Initial sha256 secret) : s.Sound sha256 secret := by
  refine ⟨fun i => ?_, h.apart, ?_, ?_⟩
  · obtain ⟨hrunning, hin⟩ := h.idle i
    constructor
    · exact h.recovery i
    all_goals simp [hrunning, hin]
  · rw [h.table]
    exact LeaseTable.wellFormed_new
  · rw [h.table]
    exact ⟨fun hl => (by cases hl), fun hl => (by cases hl), fun _ => rfl⟩

end Fleet
end GameNet
