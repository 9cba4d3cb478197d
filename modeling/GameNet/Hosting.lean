import GameNet.WindDown
import Mathlib.Logic.Function.Iterate

/-!
# GameNet.Hosting

`gamenet host` (`crates/cli/src/main.rs`): the local port that it tunnels, and the loop that keeps a
tunnel up. A tunnel that is lost is replaced after a delay, which doubles with every attempt that
fails. The relay's ends of old tunnels go on beside the loop.
-/

namespace GameNet

/-! ## The local port -/

structure GamePreset where
  name : String
  protocol : Protocol
  defaultPort : UInt16
deriving DecidableEq

def presets : List GamePreset :=
  [ ⟨"minecraft", .tcp, 25565⟩,
    ⟨"bedrock", .udp, 19132⟩,
    ⟨"valheim", .udp, 2456⟩,
    ⟨"terraria", .tcp, 7777⟩,
    ⟨"factorio", .udp, 34197⟩ ]

/-- `str::eq_ignore_ascii_case` -/
def eqIgnoreAsciiCase (a b : String) : Bool :=
  a.toList.map Char.toLower == b.toList.map Char.toLower

def findPreset (name : String) : Option GamePreset :=
  presets.find? fun preset => eqIgnoreAsciiCase preset.name name

inductive LocalPortError where
  | unknownGame (name : String)
  | requiresUdp (preset : GamePreset)
  | unspecified
  | zero
deriving DecidableEq

def LocalPortError.message : LocalPortError → String
  | .unknownGame name => "Unknown game '" ++ name ++ "'. Try minecraft, terraria, or --port <PORT>"
  | .requiresUdp preset => preset.name ++ " requires UDP, which GameNet does not support yet"
  | .unspecified => "Specify a TCP game or --port <PORT>"
  | .zero => "Local port must be nonzero"

def localPortFor (game : Option String) (port : Option UInt16) : Except LocalPortError UInt16 := do
  let preset ← match game with
    | some name =>
      match findPreset name with
      | some preset => pure (some preset)
      | none => throw (.unknownGame name)
    | none => pure none
  if let some preset := preset then
    if preset.protocol ≠ .tcp then throw (.requiresUdp preset)
  match port.or (preset.map GamePreset.defaultPort) with
  | none => throw .unspecified
  | some localPort => if localPort = 0 then throw .zero else pure localPort

theorem nonzero_eq_ok {port localPort : UInt16} :
    (if port = 0 then throw .zero else pure port : Except LocalPortError UInt16) = .ok localPort ↔
      localPort ≠ 0 ∧ port = localPort := by
  by_cases hp : port = 0
  · rw [if_pos hp, hp]
    constructor
    · intro h
      cases h
    · rintro ⟨hne, rfl⟩
      exact absurd rfl hne
  · rw [if_neg hp]
    constructor
    · intro h
      cases h
      exact ⟨hp, rfl⟩
    · rintro ⟨-, rfl⟩
      rfl

/-- A game must be one of the presets, and one over TCP, whether its port is used or not. -/
theorem localPortFor_eq_ok {game : Option String} {port : Option UInt16} {localPort : UInt16} :
    localPortFor game port = .ok localPort ↔ localPort ≠ 0 ∧
      match game with
      | none => port = some localPort
      | some name => ∃ preset, findPreset name = some preset ∧ preset.protocol = .tcp ∧
          port.getD preset.defaultPort = localPort := by
  cases game with
  | none =>
    cases port with
    | none =>
      have herror : localPortFor none none = .error .unspecified := rfl
      simp [herror]
    | some port => simp [localPortFor, nonzero_eq_ok]
  | some name =>
    cases hpreset : findPreset name with
    | none =>
      have herror : localPortFor (some name) port = .error (.unknownGame name) := by
        simp only [localPortFor, hpreset]
        rfl
      simp [herror, hpreset]
    | some preset =>
      by_cases hprotocol : preset.protocol = .tcp
      · simp [localPortFor, hpreset, hprotocol, nonzero_eq_ok]
      · have herror : localPortFor (some name) port = .error (.requiresUdp preset) := by
          simp [localPortFor, hpreset, hprotocol]
          rfl
        simp [herror, hpreset, hprotocol]

example : localPortFor (some "Terraria") none = .ok 7777 := by decide +kernel

/-! ## The delay -/

/-- `std::time::Duration` -/
structure Duration where
  nanos : Nat
deriving DecidableEq

namespace Duration

def fromSecs (n : Nat) : Duration := ⟨n * 10 ^ 9⟩

/-- A product is at most `Duration::MAX`. -/
def saturatingMul (d : Duration) (n : Nat) : Duration := ⟨min (d.nanos * n) (2 ^ 64 * 10 ^ 9 - 1)⟩

/-- `Ord::min` -/
def least (d d' : Duration) : Duration := ⟨min d.nanos d'.nanos⟩

end Duration

def nextRetryDelay (delay : Duration) : Duration := (delay.saturatingMul 2).least (.fromSecs 15)

theorem nextRetryDelay_fromSecs (n : Nat) :
    nextRetryDelay (.fromSecs (min (2 ^ n) 15)) = .fromSecs (min (2 ^ (n + 1)) 15) := by
  have hpow : 2 ^ (n + 1) = 2 ^ n * 2 := pow_succ 2 n
  simp only [nextRetryDelay, Duration.least, Duration.saturatingMul, Duration.fromSecs, hpow,
    Duration.mk.injEq]
  omega

/-! ## The loop -/

inductive HostPhase where
  /-- At the first `connect`. -/
  | starting
  | running
  | sleeping
  | connecting
  | exited
deriving DecidableEq

structure Host where
  localPort : UInt16
  phase : HostPhase
  delay : Duration
  /-- The tunnels that the relay had for the process, the last one first. -/
  tunnels : List TunnelPair

/-- The event ends `connect`. -/
def TunnelPair.Event.connects : TunnelPair.Event → Bool
  | .ready _ | .connectFailed => true
  | _ => false

namespace Host

def start (localPort : UInt16) : Host := ⟨localPort, .starting, .fromSecs 1, []⟩

/-- `connect` has failed: the first failure ends the process. -/
def fail (s : Host) : Host :=
  if s.phase = .starting then { s with phase := .exited }
  else { s with phase := .sleeping, delay := nextRetryDelay s.delay }

inductive Event where
  | registered (publicPort : UInt16)
  | connected (publicPort : UInt16)
  | failed
  | ran
  | slept (delay : Duration)
  -- a step of a tunnel that came after `i` others
  | tunnel (i : Nat) (e : TunnelPair.Event)

inductive Step : Host → Event → Host → Prop where
  | registered {s : Host} {publicPort : UInt16} (h : s.phase = .starting ∨ s.phase = .connecting)
      (ho : ∀ p ∈ s.tunnels, p.agent.phase = .ended) :
      Step s (.registered publicPort)
        { s with tunnels := .start s.localPort publicPort :: s.tunnels }
  | connected {s : Host} {p p' : TunnelPair} {rest : List TunnelPair} {publicPort : UInt16}
      (h : s.phase = .starting ∨ s.phase = .connecting) (ht : s.tunnels = p :: rest)
      (hs : TunnelPair.Step p (.ready publicPort) p') :
      Step s (.connected publicPort)
        { s with phase := .running, delay := .fromSecs 1, tunnels := p' :: rest }
  -- the attempt fails before the relay has registered the host, or leaves a tunnel behind there
  | failed {s : Host} (h : s.phase = .starting ∨ s.phase = .connecting)
      (ho : ∀ p ∈ s.tunnels, p.agent.phase = .ended) : Step s .failed s.fail
  | abandoned {s : Host} {p p' : TunnelPair} {rest : List TunnelPair}
      (h : s.phase = .starting ∨ s.phase = .connecting) (ht : s.tunnels = p :: rest)
      (hs : TunnelPair.Step p .connectFailed p') :
      Step s .failed { s.fail with tunnels := p' :: rest }
  | ran {s : Host} {p : TunnelPair} {rest : List TunnelPair} (h : s.phase = .running)
      (ht : s.tunnels = p :: rest) (hp : p.agent.phase = .ended) :
      Step s .ran { s with phase := .sleeping }
  | slept {s : Host} (h : s.phase = .sleeping) :
      Step s (.slept s.delay) { s with phase := .connecting }
  | tunnel {s : Host} {p p' : TunnelPair} {e : TunnelPair.Event} (before after : List TunnelPair)
      (ht : s.tunnels = before ++ p :: after) (he : e.connects = false)
      (hs : TunnelPair.Step p e p') :
      Step s (.tunnel after.length e) { s with tunnels := before ++ p' :: after }

/-! ## The tunnels -/

end Host

section

variable {p p' : TunnelPair} {e : TunnelPair.Event} {es : List TunnelPair.Event}

/-- Only `connect` gets the agent out of it, and an agent that has ended stays so. -/
theorem TunnelPair.Step.agent_phase (he : e.connects = false) (hs : TunnelPair.Step p e p') :
    (p'.agent.phase = .connecting ↔ p.agent.phase = .connecting) ∧
      (p.agent.phase = .ended → p'.agent.phase = .ended) := by
  cases hs with
  | ready | connectFailed => cases he
  | accepted hp | left hp | returned hp =>
    simp [AgentTunnel.spawnPlayer, AgentTunnel.finish, hp]
  | _ => exact ⟨.rfl, id⟩

theorem TunnelPair.Step.localPort (hs : TunnelPair.Step p e p') :
    p'.agent.localPort = p.agent.localPort := by
  cases hs <;> rfl

/-- What the agent does in each phase of the host. -/
def HostPhase.Fits : HostPhase → AgentPhase → Prop
  | .starting, a | .connecting, a => a = .connecting ∨ a = .ended
  | .running, a => a ≠ .connecting
  | .sleeping, a | .exited, a => a = .ended

theorem HostPhase.Fits.step {phase : HostPhase} (h : phase.Fits p.agent.phase)
    (he : e.connects = false) (hs : TunnelPair.Step p e p') : phase.Fits p'.agent.phase := by
  obtain ⟨hconnecting, hover⟩ := hs.agent_phase he
  cases phase with
  | starting | connecting => exact h.imp hconnecting.mpr hover
  | running => exact fun hc => h (hconnecting.mp hc)
  | sleeping | exited => exact hover h

end

namespace Host

/-- Every tunnel is in a run of its own from its start, and the agents of all but the last one have
ended. -/
structure Sound (s : Host) : Prop where
  tunnels : ∀ p ∈ s.tunnels, ∃ publicPort es,
    Trace TunnelPair.Step (.start s.localPort publicPort) es p
  old : ∀ p ∈ s.tunnels.tail, p.agent.phase = .ended
  last : ∀ p rest, s.tunnels = p :: rest → s.phase.Fits p.agent.phase
  running : s.phase = .running → s.tunnels ≠ []

variable {s s' : Host} {e : Event} {es : List Event}

theorem Sound.next {p p' : TunnelPair} {rest : List TunnelPair} {e : TunnelPair.Event}
    {phase : HostPhase} {delay : Duration} (h : s.Sound) (ht : s.tunnels = p :: rest)
    (hs : TunnelPair.Step p e p') (hfits : phase.Fits p'.agent.phase) :
    Sound { s with phase := phase, delay := delay, tunnels := p' :: rest } := by
  have htunnels := h.tunnels
  have hold := h.old
  rw [ht] at htunnels hold
  refine ⟨fun q hq => ?_, hold, fun q rest' he => ?_, fun _ => by simp⟩
  · rcases List.mem_cons.mp hq with rfl | hq
    · obtain ⟨publicPort, es, hrun⟩ := htunnels p List.mem_cons_self
      exact ⟨publicPort, _, hrun.snoc hs⟩
    · exact htunnels q (List.mem_cons_of_mem _ hq)
  · cases he
    exact hfits

theorem Sound.fits (h : s.Sound) {p : TunnelPair} (hm : p ∈ s.tunnels) :
    p.agent.phase = .ended ∨ s.phase.Fits p.agent.phase := by
  cases ht : s.tunnels with
  | nil => simp [ht] at hm
  | cons q rest =>
    have hold := h.old
    rw [ht] at hm hold
    rcases List.mem_cons.mp hm with rfl | hm
    · exact .inr (h.last p rest ht)
    · exact .inl (hold p hm)

/-- While the host does not run its tunnel, it has no agent that does. -/
theorem Sound.idle (h : s.Sound) {p : TunnelPair} (hm : p ∈ s.tunnels) (hp : s.phase ≠ .running) :
    p.agent.phase = .connecting ∨ p.agent.phase = .ended := by
  rcases h.fits hm with hover | hfits
  · exact .inr hover
  · cases hphase : s.phase with
    | running => exact absurd hphase hp
    | starting | connecting =>
      rw [hphase] at hfits
      exact hfits
    | sleeping | exited =>
      rw [hphase] at hfits
      exact .inr hfits

theorem Sound.move {phase : HostPhase} {delay : Duration} (h : s.Sound)
    (hne : phase ≠ .running) (hfits : ∀ p ∈ s.tunnels, phase.Fits p.agent.phase) :
    Sound { s with phase := phase, delay := delay } where
  tunnels := h.tunnels
  old := h.old
  last p _ ht := hfits p (ht ▸ List.mem_cons_self)
  running hp := absurd hp hne

theorem Sound.replace {before after : List TunnelPair} {p p' : TunnelPair} {e : TunnelPair.Event}
    (h : s.Sound) (ht : s.tunnels = before ++ p :: after) (he : e.connects = false)
    (hs : TunnelPair.Step p e p') : Sound { s with tunnels := before ++ p' :: after } := by
  cases before with
  | nil => exact h.next ht hs ((h.last p after ht).step he hs)
  | cons q before =>
    have htunnels := h.tunnels
    have hold := h.old
    rw [ht] at htunnels hold
    simp only [List.cons_append, List.tail_cons, List.forall_mem_append, List.forall_mem_cons]
      at htunnels hold
    obtain ⟨hq, hbefore, ⟨publicPort, es, hrun⟩, hafter⟩ := htunnels
    obtain ⟨hobefore, hop, hoafter⟩ := hold
    constructor
    · simp only [List.cons_append, List.forall_mem_append, List.forall_mem_cons]
      exact ⟨hq, hbefore, ⟨publicPort, _, hrun.snoc hs⟩, hafter⟩
    · simp only [List.cons_append, List.tail_cons, List.forall_mem_append, List.forall_mem_cons]
      exact ⟨hobefore, (hs.agent_phase he).2 hop, hoafter⟩
    · intro r rest hr
      cases hr
      exact h.last q _ ht
    · simp

theorem Sound.step (h : s.Sound) (hs : Step s e s') : s'.Sound := by
  cases hs with
  | @registered publicPort hp ho =>
    refine ⟨fun p hm => ?_, ho, fun p rest he => ?_, fun _ => by simp⟩
    · rcases List.mem_cons.mp hm with rfl | hm
      · exact ⟨publicPort, [], .refl⟩
      · exact h.tunnels p hm
    · cases he
      rcases hp with hp | hp
      · simp [hp, HostPhase.Fits, TunnelPair.start, AgentTunnel.connecting]
      · simp [hp, HostPhase.Fits, TunnelPair.start, AgentTunnel.connecting]
  | connected _ ht hs =>
    refine h.next ht hs ?_
    cases hs
    simp [HostPhase.Fits, AgentTunnel.start]
  | failed _ ho =>
    unfold fail
    split
    · exact h.move (by simp) ho
    · exact h.move (by simp) ho
  | @abandoned p p' rest _ ht hs =>
    have hover : p'.agent.phase = .ended := by
      cases hs
      rfl
    unfold fail
    split
    · exact h.next ht hs hover
    · exact h.next ht hs hover
  | @ran p rest _ ht hp =>
    refine h.move (by simp) fun q hq => ?_
    rw [ht] at hq
    rcases List.mem_cons.mp hq with rfl | hq
    · exact hp
    · exact h.old q (by rw [ht]; exact hq)
  | slept hp =>
    refine h.move (by simp) fun q hq => .inr ?_
    rcases h.fits hq with hover | hfits
    · exact hover
    · rw [hp] at hfits
      exact hfits
  | tunnel before after ht he hs => exact h.replace ht he hs

/-! ## The delays -/

/-- Attempts that have failed since the host was connected, after the event. -/
def Event.failures (n : Nat) : Event → Nat
  | .connected _ => 0
  | .failed => n + 1
  | _ => n

def failures (es : List Event) : Nat := es.foldl Event.failures 0

def Delayed (s : Host) (n : Nat) : Prop :=
  s.phase ≠ .exited → s.delay = .fromSecs (min (2 ^ n) 15)

theorem Delayed.step {n : Nat} (h : s.Delayed n) (hs : Step s e s') :
    s'.Delayed (e.failures n) := by
  have hnot : ∀ {phase : HostPhase}, s.phase = phase → phase ≠ .exited →
      s.delay = .fromSecs (min (2 ^ n) 15) := fun hp hne => h (hp ▸ hne)
  have hfail : s.phase = .starting ∨ s.phase = .connecting → s.fail.Delayed (n + 1) := by
    rintro (hp | hp)
    · simp [Delayed, fail, hp]
    · intro _
      simp only [fail, hp, reduceCtorEq, if_false]
      rw [hnot hp (by simp)]
      exact nextRetryDelay_fromSecs n
  cases hs with
  | registered hp => exact h
  | connected => exact fun _ => rfl
  | failed hp => exact hfail hp
  | abandoned hp => exact hfail hp
  | ran hp => exact fun _ => hnot hp (by simp)
  | slept hp => exact fun _ => hnot hp (by simp)
  | tunnel => exact h

/-! ## Connecting again -/

/-- The steps of the last tunnel are steps of the host. -/
theorem lift {p p' : TunnelPair} {rest : List TunnelPair} {es : List TunnelPair.Event}
    (h : Trace TunnelPair.Step p es p') (hp : p.agent.phase ≠ .connecting)
    (ht : s.tunnels = p :: rest) :
    Trace Step s (es.map (.tunnel rest.length)) { s with tunnels := p' :: rest } := by
  induction h generalizing s with
  | refl =>
    rw [← ht]
    exact .refl
  | @cons p p₁ p' e es hs _ ih =>
    have he : e.connects = false := by
      cases hs with
      | ready hc | connectFailed hc => exact absurd hc hp
      | _ => rfl
    have hp₁ : p₁.agent.phase ≠ .connecting := fun hc => hp ((hs.agent_phase he).1.mp hc)
    have hstep : Step s (.tunnel rest.length e) { s with tunnels := [] ++ p₁ :: rest } :=
      .tunnel [] rest ht he hs
    exact .cons hstep (ih hp₁ rfl)

/-- A host that was connected does not exit when an attempt fails. -/
theorem Step.settled (h : (∃ publicPort, e = .connected publicPort) ∨
    s.phase ≠ .starting ∧ s.phase ≠ .exited) (hs : Step s e s') :
    s'.phase ≠ .starting ∧ s'.phase ≠ .exited := by
  have hfail : s.phase ≠ .starting → s.fail.phase ≠ .starting ∧ s.fail.phase ≠ .exited := by
    intro hp
    simp [fail, hp]
  cases hs with
  | connected | ran | slept => simp
  | failed | abandoned =>
    refine hfail (h.resolve_left ?_).1
    simp
  | registered | tunnel =>
    refine h.resolve_left ?_
    simp

theorem run_sound {localPort : UInt16} (h : Trace Step (start localPort) es s) :
    s.Sound ∧ s.localPort = localPort ∧ s.Delayed (failures es) ∧
      ((∃ publicPort, .connected publicPort ∈ es) → s.phase ≠ .starting ∧ s.phase ≠ .exited) := by
  have hsound : s.Sound ∧ s.localPort = localPort := by
    refine h.invariant (I := fun s => s.Sound ∧ s.localPort = localPort) ?_ ⟨?_, rfl⟩
    · intro s e s' ⟨hi, hp⟩ hs
      refine ⟨hi.step hs, Eq.trans ?_ hp⟩
      cases hs with
      | failed | abandoned => simp only [fail]; split <;> rfl
      | _ => rfl
    · constructor <;> simp [start]
  refine ⟨hsound.1, hsound.2, ?_, ?_⟩
  · have hstart : (start localPort).Delayed 0 := fun _ => rfl
    have hstep : ∀ s e s' n, Delayed s n → Step s e s' → Delayed s' (e.failures n) :=
      fun s e s' n hd hs => hd.step hs
    exact h.track hstep hstart
  · refine h.history (R := fun s es => (∃ publicPort, .connected publicPort ∈ es) →
      s.phase ≠ .starting ∧ s.phase ≠ .exited) ?_ (by simp)
    intro s e s' past hr hs ⟨publicPort, hm⟩
    rcases List.mem_append.mp hm with hm | hm
    · exact hs.settled (.inr (hr ⟨publicPort, hm⟩))
    · exact hs.settled (.inl ⟨publicPort, (List.mem_singleton.mp hm).symm⟩)

/-- **A tunnel is kept up.** In every run of `gamenet host` and of the relay's ends of its tunnels:
the local port is not 0, and every tunnel runs from its start as one of `TunnelPair` to this port.
Only the last tunnel can have tasks in the host, and this one only while the host runs it; every
older one is closed. The host sleeps for 1 s, and twice as long after each attempt that fails, but
for 15 s at most. Once it was connected it does not exit, and from where its connection is closed or
the control task of its tunnel has ended, the host can get to the next attempt, in two steps more
than the agent has left. -/
theorem kept_up (game : Option String) (port : Option UInt16) (localPort : UInt16)
    (hport : localPortFor game port = .ok localPort) (s : Host) (es : List Event)
    (h : Trace Step (start localPort) es s) :
    localPort ≠ 0 ∧
    (∀ p ∈ s.tunnels, p.agent.localPort = localPort ∧
      ∃ publicPort es, Trace TunnelPair.Step (.start localPort publicPort) es p) ∧
    (∀ p ∈ s.tunnels.tail, p.agent.closed = true ∧ p.agent.reading = false ∧ p.agent.players = []) ∧
    (s.phase ≠ .running → ∀ p ∈ s.tunnels, p.agent.reading = false ∧ p.agent.players = []) ∧
    (∀ before delay after, es = before ++ .slept delay :: after →
      delay = .fromSecs (min (2 ^ failures before) 15)) ∧
    ((∃ publicPort, .connected publicPort ∈ es) → s.phase ≠ .starting ∧ s.phase ≠ .exited) ∧
    ∀ p rest, s.tunnels = p :: rest → s.phase = .running →
      p.agent.closed = true ∨ p.agent.reading = false →
      ∃ es' s', Trace Step s es' s' ∧ s'.phase = .connecting ∧
        es'.length ≤ p.agent.remaining + 2 := by
  obtain ⟨hsound, hlocal, -, hsettled⟩ := run_sound h
  have hpair : ∀ p ∈ s.tunnels, ∃ publicPort es,
      Trace TunnelPair.Step (.start localPort publicPort) es p := hlocal ▸ hsound.tunnels
  have hagent : ∀ p ∈ s.tunnels, p.AgentSound := fun p hm => by
    obtain ⟨publicPort, es, hrun⟩ := hpair p hm
    exact (TunnelPair.run_sound hrun).2.1
  have hover : ∀ p ∈ s.tunnels, p.agent.phase = .ended →
      p.agent.closed = true ∧ p.agent.reading = false ∧ p.agent.players = [] := by
    intro p hm hp
    obtain ⟨hclosed, hreading⟩ := (hagent p hm).left (.inr hp)
    exact ⟨hclosed, hreading, ((hagent p hm).ended hp).1⟩
  refine ⟨(localPortFor_eq_ok.mp hport).1, fun p hm => ⟨?_, hpair p hm⟩, fun p hm => ?_,
    fun hp p hm => ?_, ?_, hsettled, ?_⟩
  · obtain ⟨publicPort, es, hrun⟩ := hpair p hm
    exact hrun.invariant (I := fun p => p.agent.localPort = localPort)
      (fun p e p' hp hs => hs.localPort.trans hp) rfl
  · exact hover p (List.mem_of_mem_tail hm) (hsound.old p hm)
  · rcases hsound.idle hm hp with hp | hp
    · obtain ⟨hreading, -, hplayers, -⟩ := (hagent p hm).connecting hp
      exact ⟨hreading, hplayers⟩
    · exact (hover p hm hp).2
  · rintro before delay after rfl
    obtain ⟨s₁, hbefore, hafter⟩ := h.of_append
    cases hafter with
    | cons hs _ =>
      cases hs with
      | slept hp => exact (run_sound hbefore).2.2.1 (by simp [hp])
  · intro p rest ht hp hleaving
    have hne : p.agent.phase ≠ .connecting := by
      have hfits := hsound.last p rest ht
      rw [hp] at hfits
      exact hfits
    obtain ⟨es', p', ht', hended, hle⟩ := TunnelPair.leaving_completes ⟨hne, hleaving⟩
    have hrun := ht'.mono fun _ _ _ hs => hs.1
    refine ⟨es'.map (.tunnel rest.length) ++ [.ran, .slept s.delay],
      { s with phase := .connecting, tunnels := p' :: rest }, ?_, rfl, ?_⟩
    · exact (lift hrun hne ht).trans <| .cons (.ran hp rfl hended) <| .single (.slept rfl)
    · simpa using hle

/-- The connection is lost, and the host tries again. -/
theorem kept_up_lost : ∃ s es, Trace Step (start 25565) es s ∧ s.phase = .connecting := by
  have ht : Trace Step (start 25565)
      [.registered 10000, .connected 10000, .tunnel 0 .agentLost] _ :=
    .cons (.registered (.inl rfl) (by simp [start])) <|
    .cons (.connected (.inl rfl) rfl (.ready rfl rfl)) <|
    .single (.tunnel [] [] rfl rfl (.agentLost rfl))
  obtain ⟨-, -, -, -, -, -, hagain⟩ := kept_up none (some 25565) 25565 rfl _ _ ht
  obtain ⟨es', s', ht', hp, -⟩ := hagain _ _ rfl rfl (.inl rfl)
  exact ⟨s', _, ht.trans ht', hp⟩

end Host
end GameNet
