import GameNet.TunnelPair

/-!
# GameNet.WindDown

How a tunnel comes to its end. Once the relay's connection is closed, or the relay has left its
loop, the tunnel is `Ending`: no player is admitted any more. From there neither end waits for the
other for ever: `remaining` bounds the steps that are left, whatever their order, and until nothing
is left of the tunnel one of the ends can make a step. The agent's end needs nobody to come to its
own end.
-/

namespace GameNet

/-- The steps that a tunnel makes at most before it returns, but for those of its players. -/
def TunnelPhase.rank : TunnelPhase → Nat
  | .accepting => 4
  | .admitting => 3
  | .joining => 2
  | .returned => 1
  | .dropped => 0

namespace Tunnel

/-- A player was not admitted. -/
def Event.rejected : Event → Bool
  | .accepted .rejectedByTunnel | .accepted .rejectedByRelay => true
  | _ => false

variable {q q' : Semaphore × Tunnel} {e : Event}

/-- A player that is rejected leaves everything as it was. -/
theorem Step.rejected (he : e.rejected = true) (hs : Step q e q') : q' = q := by
  cases hs with
  | @accepted g t =>
    refine acceptPlayer_rejected fun ha => ?_
    rw [ha] at he
    cases he
  | _ => cases he

/-- Any other step of a tunnel's own comes nearer to its end, if it spawns no player. -/
theorem Step.rank_lt (hr : e.rejected = false) (hsent : ∀ streamId, e ≠ .sent streamId)
    (hended : e ≠ .playerEnded) (hs : Step q e q') :
    q'.2.phase.rank + q'.2.ended < q.2.phase.rank + q.2.ended := by
  cases hs with
  | agentClosed hp | acceptFailed hp => simp [finish, hp, TunnelPhase.rank]
  | sendFailed hp => simp [failPlayer, finish, hp, TunnelPhase.rank]
  | @accepted g t hp =>
    by_cases ha : (t.acceptPlayer g).1 = .admitting
    · obtain ⟨playerSlots, globalPlayers, -, -, heq⟩ := acceptPlayer_admitting ha
      simp [heq, hp, TunnelPhase.rank]
    · cases hadm : (t.acceptPlayer g).1 <;> simp [hadm, Event.rejected] at ha hr
  | sent => exact absurd rfl (hsent _)
  | playerEnded => exact absurd rfl hended
  | joined _ hpos =>
    simp only [joinPlayer]
    omega
  | returned hp => simp [hp, TunnelPhase.rank]
  | @dropped g t hp =>
    obtain ⟨hreturned, hdropped⟩ := hp
    have hrank : 0 < t.phase.rank := by cases hphase : t.phase <;> simp_all [TunnelPhase.rank]
    simp only [drop]
    split <;> simpa [TunnelPhase.rank] using hrank

/-- A tunnel that has ended can only have its players end. -/
theorem Step.ended (hp : q.2.phase = .returned ∨ q.2.phase = .dropped) (hs : Step q e q') :
    e = .playerEnded := by
  cases hs with
  | playerEnded => rfl
  | agentClosed h | acceptFailed h | accepted h | sent h | sendFailed h | returned h =>
    simp [h] at hp
  | joined h => rcases h with h | h <;> simp [h] at hp
  | dropped h => simp [h.1, h.2] at hp

end Tunnel

namespace TunnelPair

variable {p p' : TunnelPair} {e : Event}

/-! ## How a tunnel comes to its end -/

/-- The tunnel cannot admit a player any more. -/
def Ending (p : TunnelPair) : Prop := p.closed = true ∨ p.relay.stopped

/-- Nothing is left of the tunnel at either end. -/
structure Over (p : TunnelPair) : Prop where
  closed : p.closed = true
  finished : p.finished = true
  players : p.players = []
  agent : p.agent.phase = .ended

def Event.rejected : Event → Bool
  | .relay e => e.rejected
  | _ => false

end TunnelPair

def AgentPhase.rank : AgentPhase → Nat
  | .connecting => 3
  | .running => 2
  | .joining => 1
  | .ended => 0

/-- A task that opens a stream can give the agent a task too. -/
def PlayerTask.weight : PlayerTask → Nat
  | .opening => 6
  | .bridging _ => 2

namespace TunnelPair

/-- The steps that a tunnel which is ending makes at most, but for players that it rejects. -/
def remaining (p : TunnelPair) : Nat :=
  p.relay.phase.rank + p.relay.ended + (p.players.map PlayerTask.weight).sum +
    (!p.finished).toNat + 3 * (p.opened - p.agent.accepted) + p.control.length +
    p.agent.phase.rank + p.agent.reading.toNat + 2 * p.agent.players.length + p.agent.ended +
    (!p.closed).toNat + (!p.agent.closed).toNat

theorem Ending.step (h : p.Ending) (hs : Step p e p') : p'.Ending := by
  cases hs with
  | alone _ hs | agentClosed _ hs | sendFailed _ hs | relayPlayerEnded _ _ hs | dropped hs =>
    exact h.imp id hs.phase.1
  | sent hc hs => exact .inr (hs.phase.1 (h.resolve_left (by simp [hc])))
  | relayLost => exact .inl rfl
  | _ => exact h

theorem Step.rejected (he : e.rejected = true) (hs : Step p e p') : p' = p := by
  cases hs with
  | alone _ hs =>
    cases congrArg Prod.snd (hs.rejected he)
    rfl
  | _ => cases he

theorem sum_weight_erase {tasks : List PlayerTask} {task : PlayerTask} (h : task ∈ tasks) :
    (tasks.map PlayerTask.weight).sum =
      task.weight + ((tasks.erase task).map PlayerTask.weight).sum :=
  ((List.perm_cons_erase h).map PlayerTask.weight).sum_nat

theorem Ending.remaining_lt (h : p.Ending) (ha : p.AgentSound) (he : e.rejected = false)
    (hs : Step p e p') : p'.remaining < p.remaining := by
  have hle := ha.accepted
  cases hs with
  | @alone e g g' t halone hs =>
    have hlt := hs.rank_lt he (by rintro _ rfl; cases halone) (by rintro rfl; cases halone)
    simp only [remaining] at hlt ⊢
    omega
  | agentClosed _ hs | sendFailed _ hs =>
    have hlt := hs.rank_lt rfl (by simp) (by simp)
    simp only [remaining] at hlt ⊢
    omega
  | sent hc hs =>
    cases hs with
    | sent hp =>
      rcases h with hclosed | hstopped
      · simp [hc] at hclosed
      · exact absurd (.inr hp) hstopped
  | opened _ ht =>
    have hsum := sum_weight_erase ht
    simp [remaining, PlayerTask.weight] at hsum ⊢
    omega
  | @relayPlayerEnded g g' t task ht ho hs =>
    have hsum := sum_weight_erase ht
    have hweight : 2 ≤ task.weight := by cases task <;> simp [PlayerTask.weight]
    cases hs
    simp only [remaining]
    omega
  | dropped hs =>
    have hlt := hs.rank_lt rfl (by simp) (by simp)
    simp only [remaining, Bool.not_true, Bool.toNat_false] at hlt ⊢
    omega
  | released _ hf =>
    simp [remaining, hf]
  | ready hp hm =>
    have hreading := (ha.connecting hp).1
    simp [remaining, hp, hm, hreading, AgentTunnel.start, AgentPhase.rank]
  | connectFailed hp =>
    simp [remaining, hp, AgentTunnel.fail, AgentPhase.rank]
    omega
  | accepted hp hn =>
    simp [remaining, AgentTunnel.spawnPlayer]
    omega
  | read _ hm => simp [remaining, hm]
  | readEnded hr => simp [remaining, hr]
  | left hp =>
    simp [remaining, hp, AgentTunnel.finish, AgentPhase.rank]
    omega
  | playerEnded hn =>
    have hpos := List.length_pos_of_mem hn
    simp [remaining, AgentTunnel.endPlayer, List.length_erase_of_mem hn]
    omega
  | joined _ hpos =>
    simp only [remaining, AgentTunnel.joinPlayer]
    omega
  | returned hp => simp [remaining, hp, AgentPhase.rank]
  | relayLost hc | agentLost hc => simp [remaining, hc]

/-- The relay's end goes on by itself until its tunnel is dropped and its tasks have ended. -/
theorem Ending.relay_progress (h : p.Ending) (hr : p.RelaySound)
    (ho : ¬(p.finished = true ∧ p.players = [])) :
    ∃ e p', e.rejected = false ∧ Step p e p' := by
  -- a task that is there ends, once its tunnel has stopped
  have htask : p.relay.stopped → p.players ≠ [] → ∃ e p', e.rejected = false ∧ Step p e p' := by
    intro hstopped hne
    obtain ⟨task, ht⟩ := List.exists_mem_of_ne_nil _ hne
    have hpos : 0 < p.relay.running := by
      rw [← hr.running]
      exact List.length_pos_of_mem ht
    exact ⟨_, _, rfl, .relayPlayerEnded (g := ⟨0⟩) ht (fun _ => .inr hstopped) (.playerEnded hpos)⟩
  cases hp : p.relay.phase with
  | accepting =>
    have hclosed := h.resolve_right fun hstopped => hstopped (.inl hp)
    exact ⟨_, _, rfl, .agentClosed (g := ⟨0⟩) hclosed (.agentClosed hp)⟩
  | admitting =>
    have hclosed := h.resolve_right fun hstopped => hstopped (.inr hp)
    exact ⟨_, _, rfl, .sendFailed (g := ⟨0⟩) (.inl hclosed) (.sendFailed hp)⟩
  | joining =>
    by_cases hplayers : p.players = []
    · have hrunning : p.relay.running = 0 := by
        rw [← hr.running, hplayers, List.length_nil]
      by_cases hended : p.relay.ended = 0
      · exact ⟨_, _, rfl, .alone (g := ⟨0⟩) rfl (.returned hp hrunning hended)⟩
      · exact ⟨_, _, rfl, .alone (g := ⟨0⟩) rfl (.joined (.inr hp) (Nat.pos_of_ne_zero hended))⟩
    · exact htask (by simp [Tunnel.stopped, hp]) hplayers
  | returned =>
    by_cases hplayers : p.players = []
    · have hfinished : p.finished = false := by
        rw [← Bool.not_eq_true]
        exact fun hf => ho ⟨hf, hplayers⟩
      exact ⟨_, _, rfl, .released hp hfinished⟩
    · exact htask (by simp [Tunnel.stopped, hp]) hplayers
  | dropped =>
    exact htask (by simp [Tunnel.stopped, hp]) fun hplayers => ho ⟨hr.dropped hp, hplayers⟩

/-- When the relay has dropped its tunnel, the agent's end goes on by itself until it has ended. -/
theorem agent_progress (hf : p.finished = true) (ho : p.agent.phase ≠ .ended) :
    ∃ e p', e.rejected = false ∧ Step p e p' := by
  cases hp : p.agent.phase with
  | connecting => exact ⟨_, _, rfl, .connectFailed hp⟩
  | running =>
    cases hreading : p.agent.reading with
    | true =>
      cases hm : p.control with
      | nil => exact ⟨_, _, rfl, .readEnded hreading (.inr ⟨hf, hm⟩)⟩
      | cons message rest => exact ⟨_, _, rfl, .read hreading hm⟩
    | false => exact ⟨_, _, rfl, .left hp (.inr hreading)⟩
  | joining =>
    cases hplayers : p.agent.players with
    | nil =>
      by_cases hended : p.agent.ended = 0
      · exact ⟨_, _, rfl, .returned hp hplayers hended⟩
      · exact ⟨_, _, rfl, .joined (.inr hp) (Nat.pos_of_ne_zero hended)⟩
    | cons n rest =>
      have hn : n ∈ p.agent.players := by simp [hplayers]
      exact ⟨_, _, rfl, .playerEnded hn⟩
  | ended => exact absurd hp ho

theorem Ending.progress (h : p.Ending) (hr : p.RelaySound) (ho : ¬p.Over) :
    ∃ e p', e.rejected = false ∧ Step p e p' := by
  by_cases hrelay : p.finished = true ∧ p.players = []
  · cases hclosed : p.closed with
    | false => exact ⟨_, _, rfl, .relayLost hclosed⟩
    | true =>
      exact agent_progress hrelay.1 fun hagent => ho ⟨hclosed, hrelay.1, hrelay.2, hagent⟩
  · exact h.relay_progress hr hrelay

/-- A tunnel of which nothing is left makes no step. -/
theorem Over.silent (h : p.Over) (hr : p.RelaySound) (ha : p.AgentSound) : ¬Step p e p' := by
  obtain ⟨hrelay, hfinished, hplayers, hagent⟩ := h
  obtain ⟨hclosed, hreading⟩ := ha.left (.inr hagent)
  obtain ⟨hbridges, -⟩ := ha.ended hagent
  have hphase := hr.released hfinished
  intro hs
  cases hs with
  | alone he hs => simp [hs.ended hphase, Tunnel.Event.alone] at he
  | agentClosed _ hs | sendFailed _ hs | dropped hs => simpa using hs.ended hphase
  | sent hc | opened hc | relayLost hc => simp [hrelay] at hc
  | agentLost hc => simp [hclosed] at hc
  | relayPlayerEnded ht => simp [hplayers] at ht
  | released _ hf => simp [hfinished] at hf
  | ready hp | connectFailed hp | accepted hp | left hp | returned hp | joined hp =>
    simp [hagent] at hp
  | read hreads | readEnded hreads => simp [hreading] at hreads
  | playerEnded hn => simp [hbridges] at hn

theorem ending_invariant (p : TunnelPair) (e : Event) (p' : TunnelPair)
    (h : p.Ending ∧ p.RelaySound ∧ p.AgentSound) (hs : Step p e p') :
    p'.Ending ∧ p'.RelaySound ∧ p'.AgentSound :=
  ⟨h.1.step hs, h.2.1.step hs, h.2.2.step hs⟩

theorem Ending.completes (h : p.Ending) (hr : p.RelaySound) (ha : p.AgentSound) :
    ∃ es p', Trace Step p es p' ∧ p'.Over ∧ es.length ≤ p.remaining := by
  refine Trace.completes (m := remaining) ending_invariant (fun p hp ho => ?_) ⟨h, hr, ha⟩
  obtain ⟨e, p', hrejected, hs⟩ := hp.1.progress hp.2.1 ho
  exact ⟨e, p', hs, hp.1.remaining_lt hp.2.2 hrejected hs⟩

end TunnelPair

/-! ## The agent's own end -/

namespace AgentTunnel

/-- What makes `run` leave its loop. -/
def Leaving (a : AgentTunnel) : Prop :=
  a.phase ≠ .connecting ∧ (a.closed = true ∨ a.reading = false)

def remaining (a : AgentTunnel) : Nat := a.phase.rank + 2 * a.players.length + a.ended

end AgentTunnel

namespace TunnelPair

/-- A step of the agent, which waits for nobody. -/
def Event.byAgent : Event → Bool
  | .left | .playerEnded _ | .joined | .returned => true
  | _ => false

abbrev AgentStep (p : TunnelPair) (e : Event) (p' : TunnelPair) : Prop :=
  Step p e p' ∧ e.byAgent = true

theorem leaving_step (h : p.agent.Leaving) (hs : Step p e p') : p'.agent.Leaving := by
  obtain ⟨hp, hc⟩ := h
  cases hs with
  | ready hp' | connectFailed hp' => exact absurd hp' hp
  | readEnded => exact ⟨hp, .inr rfl⟩
  | left => exact ⟨by simp [AgentTunnel.finish], .inl rfl⟩
  | returned => exact ⟨by simp, hc⟩
  | agentLost => exact ⟨hp, .inl rfl⟩
  | _ => exact ⟨hp, hc⟩

theorem leaving_progress (h : p.agent.Leaving) (ho : p.agent.phase ≠ .ended) :
    ∃ e p', AgentStep p e p' ∧ p'.agent.remaining < p.agent.remaining := by
  cases hp : p.agent.phase with
  | connecting => exact absurd hp h.1
  | running =>
    refine ⟨_, _, ⟨.left hp h.2, rfl⟩, ?_⟩
    simp [AgentTunnel.remaining, AgentTunnel.finish, hp, AgentPhase.rank]
  | joining =>
    cases hplayers : p.agent.players with
    | nil =>
      by_cases hended : p.agent.ended = 0
      · refine ⟨_, _, ⟨.returned hp hplayers hended, rfl⟩, ?_⟩
        simp [AgentTunnel.remaining, hp, AgentPhase.rank]
      · refine ⟨_, _, ⟨.joined (.inr hp) (Nat.pos_of_ne_zero hended), rfl⟩, ?_⟩
        simp only [AgentTunnel.remaining, AgentTunnel.joinPlayer]
        omega
    | cons n rest =>
      have hn : n ∈ p.agent.players := by simp [hplayers]
      refine ⟨_, _, ⟨.playerEnded hn, rfl⟩, ?_⟩
      simp [AgentTunnel.remaining, AgentTunnel.endPlayer, hplayers]
      omega
  | ended => exact absurd hp ho

theorem leaving_completes (h : p.agent.Leaving) :
    ∃ es p', Trace AgentStep p es p' ∧ p'.agent.phase = .ended ∧
      es.length ≤ p.agent.remaining := by
  refine Trace.completes (I := fun p : TunnelPair => p.agent.Leaving)
    (m := fun p => p.agent.remaining) ?_ ?_ h
  · intro p e p' hl hs
    exact leaving_step hl hs.1
  · intro p hl ho
    exact leaving_progress hl ho

/-- **Winding down.** When the relay's connection is closed, or the relay has stopped to accept
players, the tunnel stays so, and whatever the order of their steps, both ends together make at most
`remaining` steps more, but for players that are rejected. As long as anything is left of the tunnel
at one of the ends, an end can go on: some run leaves nothing, and then there are no steps. An agent
whose connection is closed, or whose control task has ended, comes to its own end by itself. -/
theorem winds_down (localPort publicPort : UInt16) (p : TunnelPair) (es : List Event)
    (h : Trace Step (start localPort publicPort) es p) :
    (p.Ending →
      (∀ es p', Trace Step p es p' →
        p'.Ending ∧ es.countP (fun e => !e.rejected) + p'.remaining ≤ p.remaining ∧
          (¬p'.Over → ∃ e p'', e.rejected = false ∧ Step p' e p'') ∧
          (p'.Over → ∀ e p'', ¬Step p' e p'')) ∧
      ∃ es p', Trace Step p es p' ∧ p'.Over ∧ es.length ≤ p.remaining) ∧
    (p.agent.Leaving → ∃ es p', Trace AgentStep p es p' ∧ p'.agent.phase = .ended ∧
      es.length ≤ p.agent.remaining) := by
  obtain ⟨hr, ha, -⟩ := run_sound h
  refine ⟨fun he => ⟨fun es p' ht => ?_, he.completes hr ha⟩, leaving_completes⟩
  obtain ⟨he', hr', ha'⟩ := ht.invariant ending_invariant ⟨he, hr, ha⟩
  refine ⟨he', ?_, he'.progress hr', fun ho e p'' => ho.silent hr' ha'⟩
  refine ht.countP_le (I := fun p => p.Ending ∧ p.RelaySound ∧ p.AgentSound) ending_invariant
    ?_ ?_ ⟨he, hr, ha⟩
  · intro p e p' hcount hp hs
    exact hp.1.remaining_lt hp.2.2 (by simpa using hcount) hs
  · intro p e p' hcount _ hs
    rw [hs.rejected (by simpa using hcount)]

/-- The relay learns that the connection is lost before the agent has read the answer. -/
theorem winds_down_lost : ∃ es p, Trace Step (start 25565 10000) es p ∧ p.Over := by
  have hlost : Trace Step (start 25565 10000) [.relayLost]
      { start 25565 10000 with closed := true } := .single (.relayLost rfl)
  obtain ⟨es, p, ht, hover, -⟩ := ((winds_down 25565 10000 _ _ hlost).1 (.inl rfl)).2
  exact ⟨_, p, hlost.trans ht, hover⟩

end TunnelPair
end GameNet
