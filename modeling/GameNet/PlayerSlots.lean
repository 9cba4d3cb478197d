import GameNet.Lib.RustInt
import GameNet.Lib.Semaphore
import GameNet.Lib.Trace
import Mathlib.Algebra.GroupWithZero.Nat

/-!
# GameNet.PlayerSlots

The players of the tunnels (`Tunnel::run` of `crates/server/src/tunnel.rs`). Every tunnel has its
own slots, and all tunnels share one budget. A player takes a slot and a permit of the budget, the
agent is told of the player, and then a task of the tunnel owns both until it ends.

Between two await points a tunnel's loop is one step, as is the end of a task: it completes, fails
or is dropped after `abort_all`. `Balanced` is the invariant: what is out of the slots and of the
budget is what tasks own, and the player that is being admitted.
-/

namespace GameNet

def maxConcurrentPlayers : Nat := 50

/-- Where `Tunnel::run` is suspended: `accept_players` at its `select!`, `accept_player` at
`send_msg` with both permits, and `run` at `join_next` after `abort_all`. -/
inductive TunnelPhase where
  | accepting
  | admitting
  | joining
  | returned
  | dropped
deriving DecidableEq

/-- The tasks of the `JoinSet` are those `running`, which own their permits, and those that `ended`
and were not joined yet. -/
structure Tunnel where
  phase : TunnelPhase
  listening : Bool
  playerSlots : Semaphore
  streamCounter : UInt64
  running : Nat
  ended : Nat

inductive PlayerAdmission where
  | admitting
  | rejectedByTunnel
  | rejectedByRelay
deriving DecidableEq

namespace Tunnel

/-- A tunnel that `from_quic` returns. -/
def opened : Tunnel :=
  { phase := .accepting
    listening := true
    playerSlots := .new maxConcurrentPlayers
    streamCounter := 0
    running := 0
    ended := 0 }

/-- `accept_players` has returned: the listener is taken and all players are aborted. -/
def finish (t : Tunnel) : Tunnel := { t with phase := .joining, listening := false }

/-- `accept_player` up to `send_msg`. The local permit is dropped when the budget is out. -/
def acceptPlayer (globalPlayers : Semaphore) (t : Tunnel) :
    PlayerAdmission × Semaphore × Tunnel :=
  match t.playerSlots.tryAcquire with
  | none => (.rejectedByTunnel, globalPlayers, t)
  | some playerSlots =>
    match globalPlayers.tryAcquire with
    | none => (.rejectedByRelay, globalPlayers, { t with playerSlots := playerSlots.release 1 })
    | some globalPlayers =>
      (.admitting, globalPlayers,
        { t with
          phase := .admitting
          playerSlots := playerSlots
          streamCounter := t.streamCounter.saturatingAdd 1 })

/-- `send_msg` is done: the permits move to the player's task. -/
def spawnPlayer (t : Tunnel) : Tunnel := { t with phase := .accepting, running := t.running + 1 }

/-- `send_msg` failed: the permits are dropped, and the error ends `accept_players`. -/
def failPlayer (globalPlayers : Semaphore) (t : Tunnel) : Semaphore × Tunnel :=
  (globalPlayers.release 1, finish { t with playerSlots := t.playerSlots.release 1 })

/-- A task ends, and drops its permits. -/
def endPlayer (globalPlayers : Semaphore) (t : Tunnel) : Semaphore × Tunnel :=
  (globalPlayers.release 1,
    { t with
      playerSlots := t.playerSlots.release 1
      running := t.running - 1
      ended := t.ended + 1 })

def joinPlayer (t : Tunnel) : Tunnel := { t with ended := t.ended - 1 }

/-- The tunnel is dropped where it is suspended, with the permits of a player that is being
admitted. Its `JoinSet` aborts the tasks. -/
def drop (globalPlayers : Semaphore) (t : Tunnel) : Semaphore × Tunnel :=
  if t.phase = .admitting then
    (globalPlayers.release 1,
      { t with phase := .dropped, listening := false, playerSlots := t.playerSlots.release 1 })
  else (globalPlayers, { t with phase := .dropped, listening := false })

inductive Event where
  | agentClosed
  | acceptFailed
  | accepted (admission : PlayerAdmission)
  | sent (streamId : UInt64)
  | sendFailed
  | playerEnded
  | joined
  | returned
  | dropped

inductive Step : Semaphore × Tunnel → Event → Semaphore × Tunnel → Prop where
  | agentClosed {g : Semaphore} {t : Tunnel} (h : t.phase = .accepting) :
      Step (g, t) .agentClosed (g, t.finish)
  | acceptFailed {g : Semaphore} {t : Tunnel} (h : t.phase = .accepting) :
      Step (g, t) .acceptFailed (g, t.finish)
  | accepted {g : Semaphore} {t : Tunnel} (h : t.phase = .accepting) :
      Step (g, t) (.accepted (t.acceptPlayer g).1) (t.acceptPlayer g).2
  | sent {g : Semaphore} {t : Tunnel} (h : t.phase = .admitting) :
      Step (g, t) (.sent t.streamCounter) (g, t.spawnPlayer)
  | sendFailed {g : Semaphore} {t : Tunnel} (h : t.phase = .admitting) :
      Step (g, t) .sendFailed (t.failPlayer g)
  | playerEnded {g : Semaphore} {t : Tunnel} (h : 0 < t.running) :
      Step (g, t) .playerEnded (t.endPlayer g)
  | joined {g : Semaphore} {t : Tunnel} (h : t.phase = .accepting ∨ t.phase = .joining)
      (he : 0 < t.ended) : Step (g, t) .joined (g, t.joinPlayer)
  | returned {g : Semaphore} {t : Tunnel} (h : t.phase = .joining) (hr : t.running = 0)
      (he : t.ended = 0) : Step (g, t) .returned (g, { t with phase := .returned })
  | dropped {g : Semaphore} {t : Tunnel} (h : t.phase ≠ .returned ∧ t.phase ≠ .dropped) :
      Step (g, t) .dropped (t.drop g)

/-- The player that is being admitted. -/
def admitted (t : Tunnel) : Nat := if t.phase = .admitting then 1 else 0

/-- The players that own permits. -/
def occupied (t : Tunnel) : Nat := t.running + t.admitted

/-- A tunnel's slots are those of its players, it has a listener until it has stopped accepting
them, and it returns when they all have ended. -/
structure Sound (t : Tunnel) : Prop where
  slots : t.playerSlots.Holds maxConcurrentPlayers t.occupied
  listening : t.listening ↔ t.phase = .accepting ∨ t.phase = .admitting
  returned : t.phase = .returned → t.running = 0

/-- The permits of the budget that are out are `others` and those of the tunnel. -/
structure Balanced (permits others : Nat) (g : Semaphore) (t : Tunnel) : Prop extends Sound t where
  budget : g.Holds permits (others + t.occupied)

variable {g g' : Semaphore} {t t' : Tunnel} {e : Event} {permits others : Nat}

theorem occupied_admitting (h : t.phase = .admitting) : t.occupied = t.running + 1 := by
  rw [occupied, admitted, if_pos h]

theorem occupied_of_ne (h : t.phase ≠ .admitting) : t.occupied = t.running := by
  rw [occupied, admitted, if_neg h, Nat.add_zero]

theorem sound_opened : opened.Sound where
  slots := Semaphore.holds_new maxConcurrentPlayers
  listening := by decide
  returned h := by cases h

/-- A player that is rejected leaves the slots and the budget as they were. -/
theorem acceptPlayer_rejected (h : (t.acceptPlayer g).1 ≠ .admitting) :
    (t.acceptPlayer g).2 = (g, t) := by
  unfold acceptPlayer at h ⊢
  split
  · rfl
  · rename_i playerSlots hl
    split
    · rw [Semaphore.release_acquired hl]
    · rename_i globalPlayers hg
      rw [hl] at h
      simp only [hg] at h
      exact (h rfl).elim

/-- A player that is admitted takes a permit of each. -/
theorem acceptPlayer_admitting (h : (t.acceptPlayer g).1 = .admitting) :
    ∃ playerSlots globalPlayers, t.playerSlots.tryAcquire = some playerSlots ∧
      g.tryAcquire = some globalPlayers ∧
      (t.acceptPlayer g).2 = (globalPlayers,
        { t with
          phase := .admitting
          playerSlots := playerSlots
          streamCounter := t.streamCounter.saturatingAdd 1 }) := by
  unfold acceptPlayer at h ⊢
  split
  · rename_i hl
    rw [hl] at h
    cases h
  · rename_i playerSlots hl
    rw [hl] at h
    split
    · rename_i hg
      simp only [hg] at h
      cases h
    · rename_i globalPlayers hg
      exact ⟨playerSlots, globalPlayers, hl, hg, rfl⟩

namespace Balanced

/-- A player is rejected where a limit is reached. -/
theorem admission (h : Balanced permits others g t) : (t.acceptPlayer g).1 =
    if t.occupied = maxConcurrentPlayers then .rejectedByTunnel
    else if others + t.occupied = permits then .rejectedByRelay
    else .admitting := by
  unfold acceptPlayer
  split
  · rename_i hl
    rw [if_pos (h.slots.refused_iff.mp hl)]
  · rename_i hl
    rw [if_neg fun he => by rw [h.slots.refused_iff.mpr he] at hl; cases hl]
    split
    · rename_i hg
      rw [if_pos (h.budget.refused_iff.mp hg)]
    · rename_i hg
      rw [if_neg fun he => by rw [h.budget.refused_iff.mpr he] at hg; cases hg]

theorem accept (h : Balanced permits others g t) (hp : t.phase = .accepting) :
    Balanced permits others (t.acceptPlayer g).2.1 (t.acceptPlayer g).2.2 := by
  by_cases ha : (t.acceptPlayer g).1 = .admitting
  · obtain ⟨playerSlots, globalPlayers, hl, hg, heq⟩ := acceptPlayer_admitting ha
    have hocc : t.occupied = t.running := occupied_of_ne (by rw [hp]; decide)
    have hslots := h.slots.acquired hl
    have hbudget := h.budget.acquired hg
    rw [hocc] at hslots hbudget
    rw [heq]
    refine ⟨⟨hslots, ?_, fun hr => by cases hr⟩, hbudget⟩
    exact iff_of_true (h.listening.mpr (.inl hp)) (.inr rfl)
  · rw [acceptPlayer_rejected ha]
    exact h

/-- A tunnel that is not admitting a player stops to listen. -/
theorem stop (h : Balanced permits others g t) (hp : t.phase ≠ .admitting) {phase : TunnelPhase}
    (ha : ¬(phase = .accepting ∨ phase = .admitting)) (hr : phase = .returned → t.running = 0) :
    Balanced permits others g { t with phase := phase, listening := false } := by
  have hslots := h.slots
  have hbudget := h.budget
  rw [occupied_of_ne hp] at hslots hbudget
  have hocc : Tunnel.occupied { t with phase := phase, listening := false } = t.running :=
    occupied_of_ne fun he => ha (.inr he)
  refine ⟨⟨?_, iff_of_false (fun hl => by cases hl) ha, hr⟩, ?_⟩
  · rw [hocc]
    exact hslots
  · rw [hocc]
    exact hbudget

/-- The player that is being admitted is gone, with its permits, and the tunnel stops to listen. -/
theorem abandon (h : Balanced permits others g t) (hp : t.phase = .admitting) {phase : TunnelPhase}
    (ha : ¬(phase = .accepting ∨ phase = .admitting)) (hr : phase ≠ .returned) :
    Balanced permits others (g.release 1)
      { t with phase := phase, listening := false, playerSlots := t.playerSlots.release 1 } := by
  have hslots : t.playerSlots.Holds maxConcurrentPlayers (t.running + 1) := by
    rw [← occupied_admitting hp]
    exact h.slots
  have hbudget : g.Holds permits (others + t.running + 1) := by
    rw [Nat.add_assoc, ← occupied_admitting hp]
    exact h.budget
  have hocc : Tunnel.occupied { t with
      phase := phase, listening := false, playerSlots := t.playerSlots.release 1 } = t.running :=
    occupied_of_ne fun he => ha (.inr he)
  refine ⟨⟨?_, iff_of_false (fun hl => by cases hl) ha, fun he => absurd he hr⟩, ?_⟩
  · rw [hocc]
    exact hslots.released
  · rw [hocc]
    exact hbudget.released

/-- The player that was being admitted is one that runs. -/
theorem spawn (h : Balanced permits others g t) (hp : t.phase = .admitting) :
    Balanced permits others g t.spawnPlayer := by
  have hocc : t.spawnPlayer.occupied = t.occupied := by
    rw [occupied_admitting hp]
    rfl
  refine ⟨⟨?_, ?_, fun hr => by cases hr⟩, ?_⟩
  · rw [hocc]
    exact h.slots
  · exact iff_of_true (h.listening.mpr (.inr hp)) (.inl rfl)
  · rw [hocc]
    exact h.budget

theorem endPlayer (h : Balanced permits others g t) (hr : 0 < t.running) :
    Balanced permits others (t.endPlayer g).1 (t.endPlayer g).2 := by
  have hocc : (t.endPlayer g).2.occupied + 1 = t.occupied := by
    show t.running - 1 + t.admitted + 1 = t.running + t.admitted
    omega
  have hslots := h.slots
  have hbudget := h.budget
  rw [← hocc] at hslots hbudget
  refine ⟨⟨Semaphore.Holds.released hslots, h.listening, fun hp => ?_⟩,
    Semaphore.Holds.released hbudget⟩
  have hzero := h.returned hp
  omega

theorem step {p p' : Semaphore × Tunnel} (h : Balanced permits others p.1 p.2)
    (hs : Step p e p') : Balanced permits others p'.1 p'.2 := by
  cases hs with
  | agentClosed hp => exact h.stop (by rw [hp]; decide) (by decide) nofun
  | acceptFailed hp => exact h.stop (by rw [hp]; decide) (by decide) nofun
  | accepted hp => exact h.accept hp
  | sent hp => exact h.spawn hp
  | sendFailed hp => exact h.abandon hp (by decide) (by decide)
  | playerEnded hr => exact h.endPlayer hr
  | joined => exact ⟨⟨h.slots, h.listening, h.returned⟩, h.budget⟩
  | @returned g t hp hr =>
    have hl : t.listening = false := by
      rw [← Bool.not_eq_true, h.listening, hp]
      decide
    have hstop : Balanced permits others g { t with phase := .returned, listening := false } :=
      h.stop (by rw [hp]; decide) (by decide) fun _ => hr
    rw [← hl] at hstop
    exact hstop
  | @dropped g t =>
    unfold drop
    split
    · exact h.abandon ‹_› (by decide) (by decide)
    · exact h.stop ‹_› (by decide) nofun

end Balanced

end Tunnel

/-! ## All tunnels of the relay -/

structure RelayPlayers where
  globalPlayers : Semaphore
  tunnels : List Tunnel

namespace RelayPlayers

inductive Event where
  | opened
  | tunnel (i : Nat) (e : Tunnel.Event)

inductive Step : RelayPlayers → Event → RelayPlayers → Prop where
  | opened {s : RelayPlayers} : Step s .opened { s with tunnels := s.tunnels ++ [.opened] }
  | tunnel {g g' : Semaphore} {t t' : Tunnel} {before after : List Tunnel} {e : Tunnel.Event}
      (h : Tunnel.Step (g, t) e (g', t')) :
      Step ⟨g, before ++ t :: after⟩ (.tunnel before.length e) ⟨g', before ++ t' :: after⟩

def Initial (permits : Nat) (s : RelayPlayers) : Prop := s = ⟨.new permits, []⟩

/-- The players of all tunnels. -/
def occupied (s : RelayPlayers) : Nat := (s.tunnels.map Tunnel.occupied).sum

structure Sound (permits : Nat) (s : RelayPlayers) : Prop where
  tunnels : ∀ t ∈ s.tunnels, t.Sound
  budget : s.globalPlayers.Holds permits s.occupied

variable {s s' : RelayPlayers} {e : Event} {permits : Nat}

/-- Each tunnel is balanced against all others. -/
theorem balanced_iff {g : Semaphore} {t : Tunnel} {before after : List Tunnel} :
    Sound permits ⟨g, before ++ t :: after⟩ ↔
      (∀ t ∈ before ++ after, t.Sound) ∧
        Tunnel.Balanced permits ((before ++ after).map Tunnel.occupied).sum g t := by
  have hsum : occupied ⟨g, before ++ t :: after⟩ =
      ((before ++ after).map Tunnel.occupied).sum + t.occupied := by
    simp only [occupied, List.map_append, List.map_cons, List.sum_append, List.sum_cons]
    omega
  constructor
  · intro h
    obtain ⟨hbefore, ht, hafter⟩ : (∀ t ∈ before, t.Sound) ∧ t.Sound ∧ ∀ t ∈ after, t.Sound := by
      have ht := h.tunnels
      rw [List.forall_mem_append, List.forall_mem_cons] at ht
      exact ht
    have hbudget := h.budget
    rw [hsum] at hbudget
    exact ⟨List.forall_mem_append.mpr ⟨hbefore, hafter⟩, ht, hbudget⟩
  · intro ⟨hothers, hb⟩
    obtain ⟨hbefore, hafter⟩ := List.forall_mem_append.mp hothers
    constructor
    · rw [List.forall_mem_append, List.forall_mem_cons]
      exact ⟨hbefore, hb.toSound, hafter⟩
    · rw [hsum]
      exact hb.budget

theorem Sound.step (h : s.Sound permits) (hs : Step s e s') : s'.Sound permits := by
  cases hs with
  | opened =>
    constructor
    · rw [List.forall_mem_append]
      exact ⟨h.tunnels, List.forall_mem_singleton.mpr Tunnel.sound_opened⟩
    · have hnone : (s.tunnels ++ [Tunnel.opened]).map Tunnel.occupied =
          s.tunnels.map Tunnel.occupied ++ [0] := List.map_append
      rw [occupied, hnone, List.sum_append, List.sum_singleton, Nat.add_zero]
      exact h.budget
  | tunnel ht =>
    obtain ⟨hothers, hb⟩ := balanced_iff.mp h
    exact balanced_iff.mpr ⟨hothers, hb.step ht⟩

theorem reached_sound (h : Trace.Reached (Initial permits) Step s) : s.Sound permits := by
  refine h.invariant (I := Sound permits) ?_ fun s e s' hs => hs.step
  rintro s rfl
  exact ⟨nofun, Semaphore.holds_new permits⟩

theorem Sound.balanced (h : s.Sound permits) {t : Tunnel} (ht : t ∈ s.tunnels) :
    ∃ others, others + t.occupied = s.occupied ∧
      Tunnel.Balanced permits others s.globalPlayers t := by
  obtain ⟨g, tunnels⟩ := s
  obtain ⟨before, after, rfl⟩ := List.append_of_mem ht
  refine ⟨_, ?_, (balanced_iff.mp h).2⟩
  simp only [occupied, List.map_append, List.map_cons, List.sum_append, List.sum_cons]
  omega

end RelayPlayers

/-- **Slots and permits are balanced.** Whatever the tunnels do, the slots of a tunnel that are out
are those of its running players and the player it is admitting, and the permits of the budget that
are out are those of all tunnels. A player is admitted if and only if neither limit is reached; one
that is rejected changes nothing, and one whose message fails is gone from the slots and the budget.
A tunnel listens until it stops to accept players, and when it has returned it holds nothing. -/
theorem player_slots (permits : Nat) (s : RelayPlayers)
    (h : Trace.Reached (RelayPlayers.Initial permits) RelayPlayers.Step s) :
    s.globalPlayers.Holds permits s.occupied ∧ s.occupied ≤ permits ∧
    ∀ t ∈ s.tunnels,
      t.playerSlots.Holds maxConcurrentPlayers (t.running + t.admitted) ∧
      t.running + t.admitted ≤ maxConcurrentPlayers ∧
      ((t.acceptPlayer s.globalPlayers).1 = .admitting ↔
        t.occupied < maxConcurrentPlayers ∧ s.occupied < permits) ∧
      ((t.acceptPlayer s.globalPlayers).1 ≠ .admitting →
        (t.acceptPlayer s.globalPlayers).2 = (s.globalPlayers, t)) ∧
      (t.phase = .admitting →
        (t.failPlayer s.globalPlayers).2.playerSlots.Holds maxConcurrentPlayers t.running ∧
        (t.failPlayer s.globalPlayers).1.Holds permits (s.occupied - 1)) ∧
      (t.listening ↔ t.phase = .accepting ∨ t.phase = .admitting) ∧
      (t.phase = .returned →
        t.occupied = 0 ∧ t.playerSlots = .new maxConcurrentPlayers ∧ t.listening = false) := by
  have hs := RelayPlayers.reached_sound h
  refine ⟨hs.budget, hs.budget.le, fun t ht => ?_⟩
  obtain ⟨others, hothers, hb⟩ := hs.balanced ht
  have hle : t.occupied ≤ maxConcurrentPlayers := hb.slots.le
  have hbudget : s.occupied ≤ permits := hs.budget.le
  refine ⟨hb.slots, hle, ?_, Tunnel.acceptPlayer_rejected, fun hp => ?_, hb.listening, fun hp => ?_⟩
  · rw [hb.admission, hothers]
    split
    · exact iff_of_false nofun (by omega)
    · split
      · exact iff_of_false nofun (by omega)
      · exact iff_of_true rfl (by omega)
  · have hocc := Tunnel.occupied_admitting hp
    have hfail : Tunnel.Balanced permits others _ _ := hb.step (.sendFailed hp)
    have hothers' : s.occupied - 1 = others + t.running := by omega
    rw [hothers']
    exact ⟨hfail.slots, hfail.budget⟩
  · have hocc : t.occupied = 0 := by
      rw [Tunnel.occupied_of_ne (by rw [hp]; decide)]
      exact hb.returned hp
    have hslots := hb.slots
    rw [hocc] at hslots
    refine ⟨hocc, congrArg Semaphore.mk hslots, ?_⟩
    rw [← Bool.not_eq_true, hb.listening, hp]
    decide

/-- With a budget of one, a tunnel admits a player, and another tunnel then rejects the next. -/
theorem player_slots_two_tunnels :
    let s : RelayPlayers := ⟨⟨0⟩, [(Tunnel.opened.acceptPlayer ⟨1⟩).2.2, .opened]⟩
    s.globalPlayers.Holds 1 s.occupied ∧
      (Tunnel.opened.acceptPlayer s.globalPlayers).2 = (s.globalPlayers, .opened) := by
  intro s
  have h₀ : Trace.Reached (RelayPlayers.Initial 1) RelayPlayers.Step ⟨⟨1⟩, []⟩ := .of_init rfl
  have h₁ : Trace.Reached (RelayPlayers.Initial 1) RelayPlayers.Step
      ⟨⟨1⟩, [.opened, .opened]⟩ := (h₀.next .opened).next .opened
  have hstep : RelayPlayers.Step ⟨⟨1⟩, [] ++ .opened :: [.opened]⟩
      (.tunnel 0 (.accepted .admitting)) s := .tunnel (.accepted rfl)
  have h₂ : Trace.Reached (RelayPlayers.Initial 1) RelayPlayers.Step s := h₁.next hstep
  obtain ⟨hholds, -, ht⟩ := player_slots 1 s h₂
  obtain ⟨-, -, -, hrejected, -⟩ := ht .opened (List.mem_cons_of_mem _ List.mem_cons_self)
  exact ⟨hholds, hrejected (by decide)⟩

end GameNet
