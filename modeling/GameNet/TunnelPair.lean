import GameNet.PlayerSlots
import GameNet.Protocol

/-!
# GameNet.TunnelPair

Both ends of the connection of a tunnel, from when `TunnelReady` is sent: the relay's `Tunnel::run`
as `PlayerSlots` has it, and the agent's `AgentTunnel` of `crates/cli/src/tunnel.rs`. Each player
that the relay admits is announced on the control stream, and a stream is opened for it. The agent
accepts the streams in the order in which they were opened, whatever was announced, and bridges each
to its local port.

`RelaySound` and `AgentSound` are the invariants of the ends, and `Follows` relates them to what
happened so far.
-/

namespace GameNet

/-- Where the agent is suspended: `connect` at `recv_msg`, `run` at its `select!`, and `run` at
`join_next` after `abort_all`. -/
inductive AgentPhase where
  | connecting
  | running
  | joining
  | ended
deriving DecidableEq

/-- Its connection is `closed` also when the agent has learned that it is lost, and it is `reading`
while the control task runs. The tasks of the `JoinSet` are those that run, by their stream, and
those that `ended` and were not joined yet. -/
structure AgentTunnel where
  localPort : UInt16
  phase : AgentPhase
  closed : Bool
  reading : Bool
  accepted : Nat
  players : List Nat
  ended : Nat

namespace AgentTunnel

def connecting (localPort : UInt16) : AgentTunnel :=
  ⟨localPort, .connecting, false, false, 0, [], 0⟩

/-- `connect` spawns the control task and returns, and `run` is called. -/
def start (a : AgentTunnel) : AgentTunnel := { a with phase := .running, reading := true }

def fail (a : AgentTunnel) : AgentTunnel := { a with phase := .ended, closed := true }

def spawnPlayer (a : AgentTunnel) : AgentTunnel :=
  { a with accepted := a.accepted + 1, players := a.players ++ [a.accepted] }

/-- `run` has left its loop: the connection is closed, and the control task and all players are
aborted. -/
def finish (a : AgentTunnel) : AgentTunnel :=
  { a with phase := .joining, closed := true, reading := false }

def endPlayer (stream : Nat) (a : AgentTunnel) : AgentTunnel :=
  { a with players := a.players.erase stream, ended := a.ended + 1 }

def joinPlayer (a : AgentTunnel) : AgentTunnel := { a with ended := a.ended - 1 }

end AgentTunnel

/-- A player's task in the relay: at `open_bi`, or in the bridge to its stream. -/
inductive PlayerTask where
  | opening
  | bridging (stream : Nat)
deriving DecidableEq

def PlayerTask.stream : PlayerTask → Option Nat
  | .opening => none
  | .bridging n => some n

/-- `control` is what the agent has not read of the control stream, which is `finished` when the
relay has dropped its end. The connection is `closed` also when the relay has learned that it is
lost. -/
structure TunnelPair where
  relay : Tunnel
  players : List PlayerTask
  opened : Nat
  control : List ControlMessage
  finished : Bool
  closed : Bool
  agent : AgentTunnel

namespace Tunnel

def stopped (t : Tunnel) : Prop := ¬(t.phase = .accepting ∨ t.phase = .admitting)

/-- The event has nothing to do with the connection. -/
def Event.alone : Event → Bool
  | .acceptFailed | .accepted _ | .joined | .returned => true
  | .agentClosed | .sent _ | .sendFailed | .playerEnded | .dropped => false

/-- How many tasks run, after the event. -/
def Event.running (n : Nat) : Event → Nat
  | .sent _ => n + 1
  | .playerEnded => n - 1
  | _ => n

def Event.announced (n : Nat) : Event → Nat
  | .sent _ => n + 1
  | _ => n

/-- `n` players were announced, and the tunnel counts the one that it is admitting too. -/
structure Counts (t : Tunnel) (n : Nat) : Prop where
  accepting : t.phase = .accepting → t.streamCounter.toNat = min n (2 ^ 64 - 1)
  admitting : t.phase = .admitting → t.streamCounter.toNat = min (n + 1) (2 ^ 64 - 1)

section

variable {g : Semaphore} {t : Tunnel} {q q' : Semaphore × Tunnel} {e : Event}

theorem Sound.step (h : q.2.Sound) (hs : Step q e q') : q'.2.Sound := by
  have hb : Balanced (q.1.available + q.2.occupied) 0 q.1 q.2 := ⟨h, by simp [Semaphore.Holds]⟩
  exact (hb.step hs).toSound

theorem acceptPlayer_phase (hp : t.phase = .accepting) :
    (t.acceptPlayer g).2.2.running = t.running ∧ (t.acceptPlayer g).2.2.ended = t.ended ∧
      (t.acceptPlayer g).2.2.phase =
        if (t.acceptPlayer g).1 = .admitting then .admitting else .accepting := by
  by_cases ha : (t.acceptPlayer g).1 = .admitting
  · obtain ⟨playerSlots, globalPlayers, -, -, heq⟩ := acceptPlayer_admitting ha
    rw [heq, if_pos ha]
    exact ⟨rfl, rfl, rfl⟩
  · rw [acceptPlayer_rejected ha, if_neg ha]
    exact ⟨rfl, rfl, hp⟩

theorem Step.running (hs : Step q e q') : q'.2.running = e.running q.2.running := by
  cases hs with
  | accepted hp => exact (acceptPlayer_phase hp).1
  | dropped => simp only [drop]; split <;> rfl
  | _ => rfl

/-- The phase after the event: an end is not left, and only `dropped` drops a tunnel. -/
theorem Step.phase (hs : Step q e q') :
    (q.2.stopped → q'.2.stopped) ∧
      (q.2.phase = .returned ∨ q.2.phase = .dropped → q'.2.phase = q.2.phase) ∧
      (q'.2.phase = .dropped ↔ e = .dropped ∨ q.2.phase = .dropped) := by
  cases hs with
  | agentClosed hp | acceptFailed hp => simp [stopped, finish, hp]
  | sendFailed hp => simp [stopped, failPlayer, finish, hp]
  | accepted hp =>
    rw [(acceptPlayer_phase hp).2.2]
    simp only [stopped, hp]
    split <;> simp
  | sent hp => simp [stopped, spawnPlayer, hp]
  | playerEnded | joined => simp [endPlayer, joinPlayer, stopped]
  | returned hp => simp [stopped, hp]
  | dropped hp =>
    obtain ⟨hr, hd⟩ := hp
    simp only [drop]
    split <;> simp [stopped, hr, hd]

theorem Counts.step {n : Nat} (h : Counts q.2 n) (hs : Step q e q') :
    Counts q'.2 (e.announced n) := by
  cases hs with
  | agentClosed | acceptFailed | sendFailed => constructor <;> simp [failPlayer, finish]
  | @accepted g t hp =>
    by_cases ha : (t.acceptPlayer g).1 = .admitting
    · obtain ⟨playerSlots, globalPlayers, -, -, heq⟩ := acceptPlayer_admitting ha
      rw [heq]
      refine ⟨by simp, fun _ => ?_⟩
      have hcounter : t.streamCounter.toNat = min n (2 ^ 64 - 1) := h.accepting hp
      show (t.streamCounter.saturatingAdd 1).toNat = min (n + 1) (2 ^ 64 - 1)
      rw [UInt64.toNat_saturatingAdd, hcounter]
      show min (min n _ + 1) _ = _
      omega
    · rw [acceptPlayer_rejected ha]
      exact ⟨h.accepting, h.admitting⟩
  | sent hp => exact ⟨fun _ => h.admitting hp, by simp [spawnPlayer]⟩
  | playerEnded | joined => exact ⟨h.accepting, h.admitting⟩
  | returned => constructor <;> simp
  | dropped =>
    simp only [drop]
    split <;> constructor <;> simp

end

end Tunnel

namespace TunnelPair

inductive Event where
  | relay (e : Tunnel.Event)
  | opened (stream : Nat)
  | released
  | ready (publicPort : UInt16)
  | connectFailed
  | accepted (stream : Nat)
  | read (message : ControlMessage)
  | readEnded
  | left
  | playerEnded (stream : Nat)
  | joined
  | returned
  | relayLost
  | agentLost

inductive Step : TunnelPair → Event → TunnelPair → Prop where
  | alone {p : TunnelPair} {e : Tunnel.Event} {g g' : Semaphore} {t : Tunnel}
      (he : e.alone = true) (hs : Tunnel.Step (g, p.relay) e (g', t)) :
      Step p (.relay e) { p with relay := t }
  | agentClosed {p : TunnelPair} {g g' : Semaphore} {t : Tunnel} (hc : p.closed = true)
      (hs : Tunnel.Step (g, p.relay) .agentClosed (g', t)) :
      Step p (.relay .agentClosed) { p with relay := t }
  | sent {p : TunnelPair} {g g' : Semaphore} {t : Tunnel} (hc : p.closed = false)
      (hs : Tunnel.Step (g, p.relay) (.sent p.relay.streamCounter) (g', t)) :
      Step p (.relay (.sent p.relay.streamCounter))
        { p with
          relay := t
          players := p.players ++ [.opening]
          control := p.control ++ [.newConnection p.relay.streamCounter] }
  -- or the agent has dropped its end of the control stream
  | sendFailed {p : TunnelPair} {g g' : Semaphore} {t : Tunnel}
      (hc : p.closed = true ∨ p.agent.phase ≠ .connecting ∧ p.agent.reading = false)
      (hs : Tunnel.Step (g, p.relay) .sendFailed (g', t)) :
      Step p (.relay .sendFailed) { p with relay := t }
  | opened {p : TunnelPair} (hc : p.closed = false) (ht : .opening ∈ p.players) :
      Step p (.opened p.opened)
        { p with
          players := p.players.erase .opening ++ [.bridging p.opened]
          opened := p.opened + 1 }
  -- a bridge can end at any time, but `open_bi` gives up only when the connection is closed or the
  -- task is aborted
  | relayPlayerEnded {p : TunnelPair} {g g' : Semaphore} {t : Tunnel} {task : PlayerTask}
      (ht : task ∈ p.players) (ho : task = .opening → p.closed = true ∨ p.relay.stopped)
      (hs : Tunnel.Step (g, p.relay) .playerEnded (g', t)) :
      Step p (.relay .playerEnded) { p with relay := t, players := p.players.erase task }
  | dropped {p : TunnelPair} {g g' : Semaphore} {t : Tunnel}
      (hs : Tunnel.Step (g, p.relay) .dropped (g', t)) :
      Step p (.relay .dropped) { p with relay := t, finished := true }
  -- `cleanup` is done, and the tunnel is dropped
  | released {p : TunnelPair} (h : p.relay.phase = .returned) (hf : p.finished = false) :
      Step p .released { p with finished := true }
  | ready {p : TunnelPair} {port : UInt16} {rest : List ControlMessage}
      (h : p.agent.phase = .connecting) (hm : p.control = .tunnelReady port :: rest) :
      Step p (.ready port) { p with control := rest, agent := p.agent.start }
  | connectFailed {p : TunnelPair} (h : p.agent.phase = .connecting) :
      Step p .connectFailed { p with agent := p.agent.fail }
  -- also after the connection is closed
  | accepted {p : TunnelPair} (h : p.agent.phase = .running) (hn : p.agent.accepted < p.opened) :
      Step p (.accepted p.agent.accepted) { p with agent := p.agent.spawnPlayer }
  | read {p : TunnelPair} {message : ControlMessage} {rest : List ControlMessage}
      (h : p.agent.reading = true) (hm : p.control = message :: rest) :
      Step p (.read message) { p with control := rest }
  | readEnded {p : TunnelPair} (h : p.agent.reading = true)
      (hc : p.agent.closed = true ∨ p.finished = true ∧ p.control = []) :
      Step p .readEnded { p with agent := { p.agent with reading := false } }
  -- `accept_bi` has failed, or the control task has ended
  | left {p : TunnelPair} (h : p.agent.phase = .running)
      (hc : p.agent.closed = true ∨ p.agent.reading = false) :
      Step p .left { p with agent := p.agent.finish }
  | playerEnded {p : TunnelPair} {n : Nat} (hn : n ∈ p.agent.players) :
      Step p (.playerEnded n) { p with agent := p.agent.endPlayer n }
  | joined {p : TunnelPair} (h : p.agent.phase = .running ∨ p.agent.phase = .joining)
      (he : 0 < p.agent.ended) : Step p .joined { p with agent := p.agent.joinPlayer }
  | returned {p : TunnelPair} (h : p.agent.phase = .joining) (hp : p.agent.players = [])
      (he : p.agent.ended = 0) :
      Step p .returned { p with agent := { p.agent with phase := .ended } }
  | relayLost {p : TunnelPair} (hc : p.closed = false) :
      Step p .relayLost { p with closed := true }
  | agentLost {p : TunnelPair} (hc : p.agent.closed = false) :
      Step p .agentLost { p with agent := { p.agent with closed := true } }

/-- `from_quic` has returned a tunnel, and `connect` waits for the answer. -/
def start (localPort publicPort : UInt16) : TunnelPair :=
  { relay := .opened
    players := []
    opened := 0
    control := [.tunnelReady publicPort]
    finished := false
    closed := false
    agent := .connecting localPort }

/-! ## What every step keeps -/

/-- The tasks of the relay are those that its tunnel counts, each with a stream of its own. -/
structure RelaySound (p : TunnelPair) : Prop where
  tunnel : p.relay.Sound
  running : p.players.length = p.relay.running
  opened : ∀ n ∈ p.players.filterMap PlayerTask.stream, n < p.opened
  distinct : (p.players.filterMap PlayerTask.stream).Nodup
  released : p.finished = true → p.relay.phase = .returned ∨ p.relay.phase = .dropped
  dropped : p.relay.phase = .dropped → p.finished = true

/-- The agent has a task for no stream that was not opened, and no two for one; it leaves neither
the connection nor a task behind. -/
structure AgentSound (p : TunnelPair) : Prop where
  accepted : p.agent.accepted ≤ p.opened
  bridged : ∀ n ∈ p.agent.players, n < p.agent.accepted
  distinct : p.agent.players.Nodup
  connecting : p.agent.phase = .connecting → p.agent.reading = false ∧ p.agent.accepted = 0 ∧
    p.agent.players = [] ∧ p.agent.ended = 0
  left : p.agent.phase = .joining ∨ p.agent.phase = .ended →
    p.agent.closed = true ∧ p.agent.reading = false
  ended : p.agent.phase = .ended → p.agent.players = [] ∧ p.agent.ended = 0

variable {p p' : TunnelPair} {e : Event} {localPort publicPort : UInt16}

theorem Step.relay_step {e : Tunnel.Event} (hs : Step p (.relay e) p') :
    ∃ g g', Tunnel.Step (g, p.relay) e (g', p'.relay) := by
  cases hs with
  | alone _ hs | agentClosed _ hs | sent _ hs | sendFailed _ hs | relayPlayerEnded _ _ hs
  | dropped hs => exact ⟨_, _, hs⟩

theorem Step.relay_same (he : ∀ e', e ≠ .relay e') (hs : Step p e p') :
    p'.relay = p.relay := by
  cases hs with
  | alone | agentClosed | sent | sendFailed | relayPlayerEnded | dropped => simp at he
  | _ => rfl

theorem relaySound_start : (start localPort publicPort).RelaySound where
  tunnel := Tunnel.sound_opened
  running := rfl
  opened := by simp [start]
  distinct := List.nodup_nil
  released h := by cases h
  dropped h := by cases h

theorem agentSound_start : (start localPort publicPort).AgentSound where
  accepted := Nat.le_refl 0
  bridged := by simp [start, AgentTunnel.connecting]
  distinct := List.nodup_nil
  connecting _ := ⟨rfl, rfl, rfl, rfl⟩
  left h := by simp [start, AgentTunnel.connecting] at h
  ended h := by simp [start, AgentTunnel.connecting] at h

theorem RelaySound.move {e : Tunnel.Event} {g g' : Semaphore} {t : Tunnel}
    {players : List PlayerTask} {control : List ControlMessage} {finished : Bool}
    (h : p.RelaySound) (hs : Tunnel.Step (g, p.relay) e (g', t))
    (hn : players.length = e.running p.players.length)
    (hp : (players.filterMap PlayerTask.stream).Sublist (p.players.filterMap PlayerTask.stream))
    (hf : finished = true ↔ p.finished = true ∨ e = .dropped) :
    RelaySound { p with
      relay := t, players := players, control := control, finished := finished } := by
  obtain ⟨-, hover, hdropped⟩ := hs.phase
  constructor
  · exact h.tunnel.step hs
  · exact hn.trans (h.running ▸ hs.running.symm)
  · intro n hm
    exact h.opened n (hp.mem hm)
  · exact h.distinct.sublist hp
  · intro hfin
    rcases hf.mp hfin with hold | he
    · rw [hover (h.released hold)]
      exact h.released hold
    · exact .inr (hdropped.mpr (.inl he))
  · intro hphase
    refine hf.mpr ?_
    rcases hdropped.mp hphase with he | hold
    · exact .inr he
    · exact .inl (h.dropped hold)

theorem RelaySound.step (h : p.RelaySound) (hs : Step p e p') : p'.RelaySound := by
  cases hs with
  | @alone e g g' t he hs =>
    have hne : e ≠ .dropped := by
      rintro rfl
      cases he
    refine h.move hs ?_ (.refl _) (by simp [hne])
    cases e <;> first | rfl | cases he
  | agentClosed _ hs | sendFailed _ hs => exact h.move hs rfl (.refl _) (by simp)
  | sent _ hs =>
    refine h.move hs (by simp [Tunnel.Event.running]) ?_ (by simp)
    simp [PlayerTask.stream]
  | opened _ ht =>
    have hperm := (List.perm_cons_erase ht).filterMap PlayerTask.stream
    simp only [List.filterMap_cons, PlayerTask.stream] at hperm
    have hstreams : (p.players.erase .opening ++ [PlayerTask.bridging p.opened]).filterMap
        PlayerTask.stream = (p.players.erase .opening).filterMap PlayerTask.stream ++ [p.opened] :=
      by simp [PlayerTask.stream]
    have hlt : ∀ n ∈ (p.players.erase .opening).filterMap PlayerTask.stream, n < p.opened :=
      fun n hn => h.opened n (hperm.mem_iff.mpr hn)
    refine ⟨h.tunnel, ?_, ?_, ?_, h.released, h.dropped⟩
    · have hpos := List.length_pos_of_mem ht
      simp only [List.length_append, List.length_erase_of_mem ht, List.length_singleton]
      have hrunning := h.running
      omega
    · intro n hn
      rw [hstreams, List.mem_append, List.mem_singleton] at hn
      rcases hn with hn | rfl
      · exact Nat.lt_succ_of_lt (hlt n hn)
      · exact Nat.lt_succ_self _
    · rw [hstreams]
      refine List.nodup_append.mpr ⟨hperm.nodup_iff.mp h.distinct, List.nodup_singleton _, ?_⟩
      intro n hn m hm
      rw [List.mem_singleton.mp hm]
      exact (hlt n hn).ne
  | relayPlayerEnded ht _ hs =>
    exact h.move hs (List.length_erase_of_mem ht)
      ((List.erase_sublist).filterMap PlayerTask.stream) (by simp)
  | dropped hs => exact h.move hs rfl (.refl _) (by simp)
  | released hp _ =>
    exact ⟨h.tunnel, h.running, h.opened, h.distinct, fun _ => .inl hp, fun _ => rfl⟩
  | ready | connectFailed | accepted | read | readEnded | left | playerEnded | joined | returned
  | relayLost | agentLost =>
    exact ⟨h.tunnel, h.running, h.opened, h.distinct, h.released, h.dropped⟩

theorem AgentSound.step (h : p.AgentSound) (hs : Step p e p') : p'.AgentSound := by
  cases hs with
  | alone | agentClosed | sent | sendFailed | relayPlayerEnded | dropped | released | read
  | relayLost =>
    exact ⟨h.accepted, h.bridged, h.distinct, h.connecting, h.left, h.ended⟩
  | opened =>
    exact ⟨Nat.le_succ_of_le h.accepted, h.bridged, h.distinct, h.connecting, h.left, h.ended⟩
  | agentLost =>
    exact ⟨h.accepted, h.bridged, h.distinct, h.connecting, fun ho => ⟨rfl, (h.left ho).2⟩, h.ended⟩
  | ready hp =>
    refine ⟨h.accepted, h.bridged, h.distinct, ?_, ?_, ?_⟩ <;> simp [AgentTunnel.start]
  | connectFailed hp =>
    obtain ⟨hreading, -, hplayers, hended⟩ := h.connecting hp
    refine ⟨h.accepted, h.bridged, h.distinct, ?_, fun _ => ⟨rfl, hreading⟩,
      fun _ => ⟨hplayers, hended⟩⟩
    simp [AgentTunnel.fail]
  | accepted hp hn =>
    have hlt : ∀ n ∈ p.agent.players, n < p.agent.accepted + 1 := fun n hm =>
      Nat.lt_succ_of_lt (h.bridged n hm)
    refine ⟨hn, ?_, ?_, ?_, ?_, ?_⟩
    · intro n hm
      rcases List.mem_append.mp hm with hm | hm
      · exact hlt n hm
      · rw [List.mem_singleton.mp hm]
        exact Nat.lt_succ_self _
    · refine List.nodup_append.mpr ⟨h.distinct, List.nodup_singleton _, ?_⟩
      intro n hm m hm'
      rw [List.mem_singleton.mp hm']
      exact (h.bridged n hm).ne
    all_goals simp [AgentTunnel.spawnPlayer, hp]
  | readEnded hr =>
    exact ⟨h.accepted, h.bridged, h.distinct, fun ho => ⟨rfl, (h.connecting ho).2⟩,
      fun ho => ⟨(h.left ho).1, rfl⟩, h.ended⟩
  | left hp =>
    refine ⟨h.accepted, h.bridged, h.distinct, ?_, fun _ => ⟨rfl, rfl⟩, ?_⟩ <;>
      simp [AgentTunnel.finish]
  | playerEnded hn =>
    refine ⟨h.accepted, fun n hm => h.bridged n (List.mem_of_mem_erase hm), h.distinct.erase _,
      fun ho => ?_, h.left, fun ho => ?_⟩
    · rw [(h.connecting ho).2.2.1] at hn
      cases hn
    · rw [(h.ended ho).1] at hn
      cases hn
  | joined hp =>
    refine ⟨h.accepted, h.bridged, h.distinct, fun ho => ?_, h.left, fun ho => ?_⟩
    · have hj : p.agent.phase = .connecting := ho
      rw [hj] at hp
      simp at hp
    · have hj : p.agent.phase = .ended := ho
      rw [hj] at hp
      simp at hp
  | returned hp hplayers hended =>
    refine ⟨h.accepted, h.bridged, h.distinct, fun ho => ?_, fun _ => h.left (.inl hp),
      fun _ => ⟨hplayers, hended⟩⟩
    cases ho

/-! ## What a run has done -/

namespace Event

def opens : Event → Option Nat
  | .opened n => some n
  | _ => none

def accepts : Event → Option Nat
  | .accepted n => some n
  | _ => none

/-- What the relay sends after `TunnelReady`. -/
def sends : Event → Option ControlMessage
  | .relay (.sent streamId) => some (.newConnection streamId)
  | _ => none

def reads : Event → Option ControlMessage
  | .ready publicPort => some (.tunnelReady publicPort)
  | .read message => some message
  | _ => none

end Event

def announcement (n : Nat) : ControlMessage :=
  .newConnection (UInt64.ofNat (min (n + 1) (2 ^ 64 - 1)))

/-- Streams are opened and accepted in order, players are announced in order, and the agent reads
what the relay sends. -/
structure Follows (publicPort : UInt16) (p : TunnelPair) (es : List Event) : Prop where
  opened : es.filterMap Event.opens = List.range p.opened
  accepted : es.filterMap Event.accepts = List.range p.agent.accepted
  announced : ∃ n, es.filterMap Event.sends = (List.range n).map announcement ∧
    p.relay.Counts n ∧ p.opened + p.players.count .opening ≤ n
  control : es.filterMap Event.reads ++ p.control =
    .tunnelReady publicPort :: es.filterMap Event.sends
  connecting : p.agent.phase = .connecting → es.filterMap Event.reads = []

theorem follows_start : Follows publicPort (start localPort publicPort) [] where
  opened := rfl
  accepted := rfl
  announced := ⟨0, rfl, ⟨fun _ => rfl, fun h => by cases h⟩, Nat.le_refl 0⟩
  control := rfl
  connecting _ := rfl

theorem Follows.alone {es : List Event} {e : Tunnel.Event} {g g' : Semaphore} {t : Tunnel}
    {players : List PlayerTask} {finished : Bool} (h : Follows publicPort p es)
    (he : ∀ streamId, e ≠ .sent streamId) (hs : Tunnel.Step (g, p.relay) e (g', t))
    (hp : players.count .opening ≤ p.players.count .opening) :
    Follows publicPort { p with relay := t, players := players, finished := finished }
      (es ++ [.relay e]) := by
  obtain ⟨n, hsends, hcounts, hle⟩ := h.announced
  have hnone : Event.sends (.relay e) = none := by
    cases e with
    | sent streamId => exact absurd rfl (he streamId)
    | _ => rfl
  have hn : e.announced n = n := by
    cases e with
    | sent streamId => exact absurd rfl (he streamId)
    | _ => rfl
  constructor
  · simp [List.filterMap_cons, h.opened, Event.opens]
  · simp [List.filterMap_cons, h.accepted, Event.accepts]
  · refine ⟨n, ?_, hn ▸ hcounts.step hs, ?_⟩
    · simp [hsends, hnone]
    · dsimp only
      omega
  · simp [List.filterMap_cons, h.control, hnone, Event.reads]
  · intro hc
    simp [List.filterMap_cons, h.connecting hc, Event.reads]

/-- A step of which `Follows` sees nothing. -/
theorem Follows.quiet {es : List Event} (h : Follows publicPort p es) (ho : e.opens = none)
    (ha : e.accepts = none) (hse : e.sends = none) (hr : e.reads = none)
    (hrelay : p'.relay = p.relay) (hplayers : p'.players = p.players)
    (hopened : p'.opened = p.opened) (hcontrol : p'.control = p.control)
    (haccepted : p'.agent.accepted = p.agent.accepted)
    (hphase : p'.agent.phase = .connecting → p.agent.phase = .connecting) :
    Follows publicPort p' (es ++ [e]) := by
  constructor
  · simp [ho, h.opened, hopened]
  · simp [ha, h.accepted, haccepted]
  · simpa [hse, hrelay, hplayers, hopened] using h.announced
  · simp [hse, hr, hcontrol, h.control]
  · intro hc
    simp [hr, h.connecting (hphase hc)]

theorem Follows.step {es : List Event} (h : Follows publicPort p es) (hc : p.AgentSound)
    (hs : Step p e p') : Follows publicPort p' (es ++ [e]) := by
  cases hs with
  | alone he hs => exact h.alone (by rintro streamId rfl; cases he) hs (Nat.le_refl _)
  | agentClosed _ hs | sendFailed _ hs | dropped hs =>
    exact h.alone (by simp) hs (Nat.le_refl _)
  | relayPlayerEnded _ _ hs =>
    exact h.alone (by simp) hs ((List.erase_sublist).count_le _)
  | sent _ hs =>
    obtain ⟨n, hsends, hcounts, hle⟩ := h.announced
    have hid : .newConnection p.relay.streamCounter = announcement n := by
      have hcounter : p.relay.streamCounter.toNat = min (n + 1) (2 ^ 64 - 1) := by
        cases hs with
        | sent hp => exact hcounts.admitting hp
      rw [announcement, ← hcounter, UInt64.ofNat_toNat]
    constructor
    · simp [List.filterMap_cons, h.opened, Event.opens]
    · simp [List.filterMap_cons, h.accepted, Event.accepts]
    · refine ⟨n + 1, ?_, hcounts.step hs, ?_⟩
      · simp [hsends, Event.sends, List.range_succ, hid]
      · simp
        omega
    · simp [List.filterMap_cons, ← List.append_assoc, h.control, Event.sends, Event.reads]
    · intro hc
      simp [List.filterMap_cons, h.connecting hc, Event.reads]
  | opened _ ht =>
    obtain ⟨n, hsends, hcounts, hle⟩ := h.announced
    constructor
    · simp [h.opened, Event.opens, List.range_succ]
    · simp [List.filterMap_cons, h.accepted, Event.accepts]
    · refine ⟨n, by simp [List.filterMap_cons, hsends, Event.sends], hcounts, ?_⟩
      have hpos : 0 < p.players.count .opening := List.count_pos_iff.mpr ht
      simp [List.count_erase_self]
      omega
    · simp [List.filterMap_cons, h.control, Event.sends, Event.reads]
    · intro hc
      simp [List.filterMap_cons, h.connecting hc, Event.reads]
  | accepted hp =>
    constructor
    · simp [List.filterMap_cons, h.opened, Event.opens]
    · simp [h.accepted, Event.accepts, AgentTunnel.spawnPlayer, List.range_succ]
    · simpa [List.filterMap_cons, Event.sends] using h.announced
    · simp [List.filterMap_cons, h.control, Event.sends, Event.reads]
    · intro hc
      simp [AgentTunnel.spawnPlayer, hp] at hc
  | ready hp hm =>
    constructor
    · simp [List.filterMap_cons, h.opened, Event.opens]
    · simp [List.filterMap_cons, h.accepted, Event.accepts, AgentTunnel.start]
    · simpa [List.filterMap_cons, Event.sends] using h.announced
    · simp [List.filterMap_cons, ← h.control, hm, Event.sends, Event.reads]
    · simp [AgentTunnel.start]
  | read hr hm =>
    constructor
    · simp [List.filterMap_cons, h.opened, Event.opens]
    · simp [List.filterMap_cons, h.accepted, Event.accepts]
    · simpa [List.filterMap_cons, Event.sends] using h.announced
    · simp [List.filterMap_cons, ← h.control, hm, Event.sends, Event.reads]
    · intro hp
      simp [(hc.connecting hp).1] at hr
  | connectFailed => exact h.quiet rfl rfl rfl rfl rfl rfl rfl rfl rfl (by simp [AgentTunnel.fail])
  | left => exact h.quiet rfl rfl rfl rfl rfl rfl rfl rfl rfl (by simp [AgentTunnel.finish])
  | returned => exact h.quiet rfl rfl rfl rfl rfl rfl rfl rfl rfl (by simp)
  | released | readEnded | playerEnded | joined | relayLost | agentLost =>
    exact h.quiet rfl rfl rfl rfl rfl rfl rfl rfl rfl id

theorem run_sound {es : List Event} (h : Trace Step (start localPort publicPort) es p) :
    p.RelaySound ∧ p.AgentSound ∧ Follows publicPort p es := by
  refine h.history (R := fun p es => p.RelaySound ∧ p.AgentSound ∧ Follows publicPort p es) ?_
    ⟨relaySound_start, agentSound_start, follows_start⟩
  intro p e p' past ⟨hr, ha, hf⟩ hs
  exact ⟨hr.step hs, ha.step hs, hf.step ha hs⟩

/-- `connect` reads no port but the one that the relay has sent. -/
theorem ready_port {es : List Event} {port : UInt16}
    (h : Trace Step (start localPort publicPort) es p) (hr : .ready port ∈ es) :
    port = publicPort := by
  obtain ⟨-, -, hf⟩ := run_sound h
  obtain ⟨n, hsends, -, -⟩ := hf.announced
  have hread : ControlMessage.tunnelReady port ∈ es.filterMap Event.reads :=
    List.mem_filterMap.mpr ⟨_, hr, rfl⟩
  have hsent := List.mem_append_left p.control hread
  rw [hf.control, hsends] at hsent
  simpa [announcement] using hsent

/-- **A stream for a player.** However the steps of both ends are ordered, and whenever each of them
learns that the connection is lost: streams are opened in order, never more than there were players
announced, and accepted in the same order. A stream has one task at most at each end, and a task of
the agent is on a stream that the relay opened. The agent is answered with the tunnel's port, and
reads then that players 1, 2 and so on have joined, as the relay has sent it. No more than 50
players have a task in the relay. An agent that has left its loop has closed the connection and
reads no more, and when it has ended it has no tasks. -/
theorem stream_each (localPort publicPort : UInt16) (p : TunnelPair) (es : List Event)
    (h : Trace Step (start localPort publicPort) es p) :
    es.filterMap Event.opens = List.range p.opened ∧
    es.filterMap Event.accepts = List.range p.agent.accepted ∧
    (∃ n, es.filterMap Event.sends = (List.range n).map announcement ∧ p.opened ≤ n) ∧
    es.filterMap Event.reads ++ p.control =
      .tunnelReady publicPort :: es.filterMap Event.sends ∧
    (p.players.filterMap PlayerTask.stream).Nodup ∧ p.agent.players.Nodup ∧
    (∀ n ∈ p.agent.players, n < p.agent.accepted) ∧ p.agent.accepted ≤ p.opened ∧
    p.players.length ≤ maxConcurrentPlayers ∧
    (p.agent.phase = .joining ∨ p.agent.phase = .ended →
      p.agent.closed = true ∧ p.agent.reading = false) ∧
    (p.agent.phase = .ended → p.agent.players = [] ∧ p.agent.ended = 0) := by
  obtain ⟨hr, ha, hf⟩ := run_sound h
  obtain ⟨n, hsends, -, hle⟩ := hf.announced
  have hslots : p.relay.running + p.relay.admitted ≤ maxConcurrentPlayers := hr.tunnel.slots.le
  have hrunning := hr.running
  exact ⟨hf.opened, hf.accepted, ⟨n, hsends, by omega⟩, hf.control, hr.distinct, ha.distinct,
    ha.bridged, ha.accepted, by omega, ha.left, ha.ended⟩

/-- A player comes in before the agent has read the answer. -/
theorem stream_each_one_player : ∃ p es, Trace Step (start 25565 10000) es p ∧
    p.agent.players = [0] ∧ es.filterMap Event.accepts = List.range 1 := by
  let g : Semaphore := ⟨1⟩
  have ht : Trace Step (start 25565 10000)
      [.relay (.accepted .admitting), .relay (.sent 1), .opened 0, .ready 10000, .accepted 0] _ :=
    .cons (.alone (g := g) rfl (.accepted rfl)) <|
    .cons (.sent (g := g) rfl (.sent rfl)) <|
    .cons (.opened rfl (by decide)) <|
    .cons (.ready rfl rfl) <|
    .single (.accepted rfl (by decide))
  exact ⟨_, _, ht, rfl, (stream_each 25565 10000 _ _ ht).2.1⟩

end TunnelPair
end GameNet
