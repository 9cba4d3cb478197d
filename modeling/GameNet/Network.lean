import GameNet.PublicPorts
import GameNet.TunnelPair

/-!
# GameNet.Network

The relay and the agents of all its tunnels: the listening sockets and players of `PublicPorts`, and
for each session that got a tunnel the two ends of its connection, as in `TunnelPair`. A step of
`Tunnel::run` that uses its socket is one of both.

The sockets are in a run of `RelayPorts` and every tunnel is in a run of `TunnelPair`, so what holds
in each of their runs holds here. `Told` ties them together: the port that the agent is told is the
one where its players come in.
-/

namespace GameNet

structure Network (Conn : Type) where
  ports : RelayPorts Conn
  /-- The tunnels, by the session that they have. -/
  pairs : KeyedMap (TokenId × SessionId) TunnelPair

variable {Conn : Type}

/-- The event is of a task that is no tunnel, or of one that waits for the lock. -/
def RelayPorts.Event.alone : RelayPorts.Event Conn → Bool
  | .relay (.sent _) | .relay (.closed _) | .unbound _ | .joined _ | .left _ => false
  | .relay _ => true

/-- The relay's tunnel does nothing to its socket or to the number of its players. -/
def TunnelPair.Event.alone : TunnelPair.Event → Bool
  | .relay (.accepted _) | .relay .joined => true
  | .relay _ => false
  | _ => true

/-- `accept_players` returns, and the listener is taken. -/
def Tunnel.Event.stops : Tunnel.Event → Bool
  | .agentClosed | .acceptFailed | .sendFailed => true
  | _ => false

namespace Network

inductive Event (Conn : Type) where
  | ports (e : RelayPorts.Event Conn)
  | opened (session : TokenId × SessionId)
  | pair (session : TokenId × SessionId) (e : TunnelPair.Event)

inductive Step (J : SerdeJson) (sha256 : Bytes32 → Bytes32) :
    Network Conn → Event Conn → Network Conn → Prop where
  | ports {n : Network Conn} {e : RelayPorts.Event Conn} {p : RelayPorts Conn}
      (he : e.alone = true) (hs : RelayPorts.Step J sha256 n.ports e p) :
      Step J sha256 n (.ports e) { n with ports := p }
  /-- The listener of a registration that could not be answered is dropped. -/
  | unsent {n : Network Conn} {port : UInt16} {l : Listener Conn} {p : RelayPorts Conn}
      (hl : n.ports.listeners.lookup port = some l) (hp : n.pairs.lookup l.session = none)
      (hs : RelayPorts.Step J sha256 n.ports (.unbound port) p) :
      Step J sha256 n (.ports (.unbound port)) { n with ports := p }
  | opened {n : Network Conn} {i : TaskId} {port : UInt16} {l : Listener Conn}
      {p : RelayPorts Conn} (localPort : UInt16)
      (hi : n.ports.relay.tasks.lookup i = some (.sending l.tokenId l.sessionId))
      (hl : n.ports.listeners.lookup port = some l)
      (hs : RelayPorts.Step J sha256 n.ports (.relay (.sent i)) p) :
      Step J sha256 n (.opened l.session)
        { ports := p, pairs := n.pairs.insert l.session (.start localPort port) }
  | joined {n : Network Conn} {port : UInt16} {l : Listener Conn} {p : RelayPorts Conn}
      {pair pair' : TunnelPair} {streamId : UInt64}
      (hl : n.ports.listeners.lookup port = some l) (hp : n.pairs.lookup l.session = some pair)
      (hs : RelayPorts.Step J sha256 n.ports (.joined port) p)
      (hpair : TunnelPair.Step pair (.relay (.sent streamId)) pair') :
      Step J sha256 n (.pair l.session (.relay (.sent streamId)))
        { ports := p, pairs := n.pairs.insert l.session pair' }
  | left {n : Network Conn} {port : UInt16} {l : Listener Conn}
      {before after : List (UInt16 × Listener Conn)} {pair pair' : TunnelPair}
      (hplayers : n.ports.players = before ++ (port, l) :: after)
      (hp : n.pairs.lookup l.session = some pair)
      (hpair : TunnelPair.Step pair (.relay .playerEnded) pair') :
      Step J sha256 n (.pair l.session (.relay .playerEnded))
        { ports := { n.ports with players := before ++ after }
          pairs := n.pairs.insert l.session pair' }
  | unbound {n : Network Conn} {port : UInt16} {l : Listener Conn} {p : RelayPorts Conn}
      {pair pair' : TunnelPair} {e : Tunnel.Event}
      (hl : n.ports.listeners.lookup port = some l) (hp : n.pairs.lookup l.session = some pair)
      (he : e.stops = true) (hs : RelayPorts.Step J sha256 n.ports (.unbound port) p)
      (hpair : TunnelPair.Step pair (.relay e) pair') :
      Step J sha256 n (.pair l.session (.relay e))
        { ports := p, pairs := n.pairs.insert l.session pair' }
  | closed {n : Network Conn} {i : TaskId} {k : TokenId} {s : SessionId} {p : RelayPorts Conn}
      {pair pair' : TunnelPair} (hi : n.ports.relay.tasks.lookup i = some (.tunnel k s))
      (hp : n.pairs.lookup (k, s) = some pair)
      (hs : RelayPorts.Step J sha256 n.ports (.relay (.closed i)) p)
      (hpair : TunnelPair.Step pair (.relay .returned) pair') :
      Step J sha256 n (.pair (k, s) (.relay .returned))
        { ports := p, pairs := n.pairs.insert (k, s) pair' }
  | pair {n : Network Conn} {session : TokenId × SessionId} {pair pair' : TunnelPair}
      {e : TunnelPair.Event} (he : e.alone = true) (hp : n.pairs.lookup session = some pair)
      (hpair : TunnelPair.Step pair e pair') :
      Step J sha256 n (.pair session e) { n with pairs := n.pairs.insert session pair' }

def Initial (J : SerdeJson) (sha256 : Bytes32 → Bytes32) (n : Network Conn) : Prop :=
  RelayPorts.Initial J sha256 n.ports ∧ n.pairs = ∅

abbrev Reachable (J : SerdeJson) (sha256 : Bytes32 → Bytes32) : Network Conn → Prop :=
  Trace.Reached (Initial J sha256) (Step J sha256)

end Network

/-! ## What a step does to the tasks and to a socket -/

section

variable {J : SerdeJson} {sha256 : Bytes32 → Bytes32} {r r' : Relay Conn} {i : TaskId}
  {k : TokenId} {s : SessionId}

theorem Relay.Step.sending {e : Relay.Event Conn} (hi : r'.tasks.lookup i = some (.sending k s))
    (hs : Relay.Step J sha256 r e r') : r.tasks.lookup i = some (.sending k s) ∨
      ∃ registration, e = .registered i registration ∧ k = registration.tokenId ∧
        s = registration.sessionId := by
  cases hs.arrives hi with
  | there hi => exact .inl hi
  | waits hn => cases hn
  | registers he => exact .inr ⟨_, he, rfl, rfl⟩

theorem Relay.Step.tunnels {e : Relay.Event Conn} (hi : r'.tasks.lookup i = some (.tunnel k s))
    (hs : Relay.Step J sha256 r e r') : r.tasks.lookup i = some (.tunnel k s) ∨
      (e = .sent i ∧ r.tasks.lookup i = some (.sending k s)) := by
  cases hs.arrives hi with
  | there hi => exact .inl hi
  | waits hn => cases hn
  | sends he hi => exact .inr ⟨he, hi⟩

end

theorem Tunnel.Step.listening {q q' : Semaphore × Tunnel} {e : Tunnel.Event}
    (hne : e ≠ .dropped) (hs : Tunnel.Step q e q') :
    q'.2.listening = (q.2.listening && !e.stops) := by
  cases hs with
  | @accepted g t =>
    have hsame : (t.acceptPlayer g).2.2.listening = t.listening := by
      by_cases ha : (t.acceptPlayer g).1 = .admitting
      · obtain ⟨playerSlots, globalPlayers, -, -, heq⟩ := acceptPlayer_admitting ha
        rw [heq]
      · rw [acceptPlayer_rejected ha]
    simp [hsame, Event.stops]
  | dropped => exact absurd rfl hne
  | _ => simp [finish, failPlayer, spawnPlayer, endPlayer, joinPlayer, Event.stops]

section

variable {p p' : TunnelPair} {e : TunnelPair.Event}

/-- The socket and the number of players after a step of the relay's tunnel. -/
theorem TunnelPair.Step.socket {e : Tunnel.Event} (hr : p.RelaySound) (hne : e ≠ .dropped)
    (hs : TunnelPair.Step p (.relay e) p') :
    p'.relay.listening = (p.relay.listening && !e.stops) ∧
      p'.players.length = e.running p.players.length := by
  obtain ⟨g, g', ht⟩ := hs.relay_step
  refine ⟨ht.listening hne, ?_⟩
  rw [(hr.step hs).running, hr.running]
  exact ht.running

theorem TunnelPair.Step.socket_alone (hr : p.RelaySound) (he : e.alone = true)
    (hs : TunnelPair.Step p e p') :
    p'.relay.listening = p.relay.listening ∧ p'.players.length = p.players.length := by
  cases e with
  | relay e =>
    have hsocket := hs.socket hr (by rintro rfl; cases he)
    cases e with
    | accepted | joined => simpa [Tunnel.Event.stops, Tunnel.Event.running] using hsocket
    | _ => cases he
  | _ =>
    have hsame := hs.relay_same (by simp)
    rw [(hr.step hs).running, hr.running, hsame]
    exact ⟨rfl, rfl⟩

end

namespace Network

/-! ## Every tunnel -/

/-- The players that came in for the session. -/
def playersOf (p : RelayPorts Conn) (session : TokenId × SessionId) :
    List (UInt16 × Listener Conn) :=
  p.players.filter fun player => player.2.session = session

/-- The agent was told the port of its session's listener, where its players came in. -/
structure Told (p : RelayPorts Conn) (session : TokenId × SessionId) (pair : TunnelPair)
    (port : UInt16) (l : Listener Conn) : Prop where
  own : l.session = session
  run : ∃ localPort es, Trace TunnelPair.Step (.start localPort port) es pair
  serves : RelayPorts.Serves p.relay port l
  listener : ∀ {port' l'}, p.listeners.lookup port' = some l' → l'.session = session →
    port' = port ∧ l' = l
  listening : pair.relay.listening = true ↔ p.listeners.lookup port = some l
  players : playersOf p session = .replicate pair.players.length (port, l)

structure Sound (J : SerdeJson) (sha256 : Bytes32 → Bytes32) (n : Network Conn) : Prop where
  ports : RelayPorts.Reachable J sha256 n.ports
  pair : ∀ {session pair}, n.pairs.lookup session = some pair →
    ∃ port l, Told n.ports session pair port l
  sending : ∀ {i k s}, n.ports.relay.tasks.lookup i = some (.sending k s) →
    n.pairs.lookup (k, s) = none
  tunnel : ∀ {i k s}, n.ports.relay.tasks.lookup i = some (.tunnel k s) →
    ∃ pair, n.pairs.lookup (k, s) = some pair

variable {J : SerdeJson} {sha256 : Bytes32 → Bytes32} {n n' : Network Conn}
  {p p' : RelayPorts Conn} {session : TokenId × SessionId} {pair pair' : TunnelPair}
  {port : UInt16} {l : Listener Conn}

/-- A session that the step does not concern. -/
theorem Told.keeps (h : Told p session pair port l) (hserves : RelayPorts.Serves p'.relay port l)
    (hlisteners : ∀ {port' l'}, l'.session = session →
      (p'.listeners.lookup port' = some l' ↔ p.listeners.lookup port' = some l'))
    (hplayers : playersOf p' session = playersOf p session) : Told p' session pair port l where
  own := h.own
  run := h.run
  serves := hserves
  listener hl hs := h.listener ((hlisteners hs).mp hl) hs
  listening := h.listening.trans (hlisteners h.own).symm
  players := hplayers.trans h.players

/-- A step that is one of the sockets too. -/
theorem Told.move {e : TunnelPair.Event} (h : Told p session pair port l)
    (hs : TunnelPair.Step pair e pair') (hserves : RelayPorts.Serves p'.relay port l)
    (hlisteners : ∀ {port' l'}, p'.listeners.lookup port' = some l' →
      p.listeners.lookup port' = some l')
    (hlistening : pair'.relay.listening = true ↔ p'.listeners.lookup port = some l)
    (hplayers : playersOf p' session = .replicate pair'.players.length (port, l)) :
    Told p' session pair' port l where
  own := h.own
  run := by
    obtain ⟨localPort, es, hrun⟩ := h.run
    exact ⟨localPort, _, hrun.snoc hs⟩
  serves := hserves
  listener hl := h.listener (hlisteners hl)
  listening := hlistening
  players := hplayers

theorem Told.relaySound (h : Told p session pair port l) : pair.RelaySound := by
  obtain ⟨localPort, es, hrun⟩ := h.run
  exact (TunnelPair.run_sound hrun).1

theorem Sound.of_initial (h : Initial J sha256 n) : Sound J sha256 n := by
  obtain ⟨hports, hpairs⟩ := h
  obtain ⟨⟨-, htasks, -⟩, -, -⟩ := id hports
  refine ⟨.of_init hports, fun hp => ?_, fun hi => ?_, fun hi => ?_⟩
  · rw [hpairs] at hp
    cases hp
  · rw [htasks] at hi
    cases hi
  · rw [htasks] at hi
    cases hi

theorem Sound.sockets (h : Sound J sha256 n) : RelayPorts.Sound J sha256 n.ports :=
  RelayPorts.reachable_sound h.ports

/-- A listener that is bound is of a new session. -/
theorem Sound.bound {i : TaskId} {reg : Registering Conn} {registration : Registration}
    {r : Relay Conn} (h : Sound J sha256 n)
    (hnone : n.ports.listeners.lookup registration.publicPort = none)
    (hs : Relay.Step J sha256 n.ports.relay (.registered i registration) r)
    (ht : Told n.ports session pair port l) :
    Told { n.ports with
      relay := r
      listeners := n.ports.listeners.insert registration.publicPort
        ⟨registration.tokenId, registration.sessionId, reg.connection⟩ } session pair port l := by
  refine ht.keeps (ht.serves.step h.sockets.reachable hs) (fun {port' l'} hsession => ?_) rfl
  have hne : l'.sessionId ≠ registration.sessionId := by
    intro he
    have hl : l'.sessionId = l.sessionId := by
      have hboth := hsession.trans ht.own.symm
      exact congrArg Prod.snd hboth
    exact hs.registered_fresh.not_ge (he ▸ hl ▸ ht.serves.issued)
  rw [KeyedMap.lookup_insert]
  split
  · rename_i hport
    subst hport
    rw [hnone]
    constructor
    · intro he
      cases he
      exact absurd rfl hne
    · intro he
      cases he
  · exact Iff.rfl

theorem Sound.ports_step {e : RelayPorts.Event Conn} (h : Sound J sha256 n)
    (he : e.alone = true) (hs : RelayPorts.Step J sha256 n.ports e p) :
    Sound J sha256 { n with ports := p } := by
  have hreach := h.sockets.reachable
  cases hs with
  | @relay e r hquiet hr =>
    refine ⟨h.ports.next (.relay hquiet hr), fun hp => ?_, fun hi => ?_, fun hi => ?_⟩
    · obtain ⟨port, l, ht⟩ := h.pair hp
      exact ⟨port, l, ht.keeps (ht.serves.step hreach hr) (fun _ => Iff.rfl) rfl⟩
    · rcases hr.sending hi with hi | ⟨registration, rfl, -, -⟩
      · exact h.sending hi
      · cases hquiet
    · rcases hr.tunnels hi with hi | ⟨rfl, -⟩
      · exact h.tunnel hi
      · cases hquiet
  | @bound i reg ports registration r hi hnone hr =>
    refine ⟨h.ports.next (.bound hi hnone hr), fun hp => ?_, fun {j k s} hj => ?_, fun hj => ?_⟩
    · obtain ⟨port, l, ht⟩ := h.pair hp
      exact ⟨port, l, h.bound hnone hr ht⟩
    · rcases hr.sending hj with hj | ⟨registration', he, rfl, rfl⟩
      · exact h.sending hj
      · cases he
        cases hp : n.pairs.lookup (registration.tokenId, registration.sessionId) with
        | none => rfl
        | some pair =>
          obtain ⟨port, l, ht⟩ := h.pair hp
          have hl : l.sessionId = registration.sessionId := congrArg Prod.snd ht.own
          exact absurd (hl ▸ ht.serves.issued) hr.registered_fresh.not_ge
    · rcases hr.tunnels hj with hj | ⟨he, -⟩
      · exact h.tunnel hj
      · cases he
  | sent | closed | unbound | joined | left => cases he

/-- A listener of another session can go. -/
theorem Told.erase {port' : UInt16} {l' : Listener Conn} (ht : Told p session pair port l)
    (hl : p.listeners.lookup port' = some l') (hne : l'.session ≠ session) :
    Told { p with listeners := p.listeners.erase port' } session pair port l := by
  refine ht.keeps ht.serves (fun {port'' l''} hsession => ?_) rfl
  rw [KeyedMap.lookup_erase]
  split
  · rename_i hport
    subst hport
    constructor
    · intro he
      cases he
    · intro he
      rw [hl] at he
      cases he
      exact absurd hsession hne
  · exact Iff.rfl

theorem Sound.unsent (h : Sound J sha256 n) (hl : n.ports.listeners.lookup port = some l)
    (hp : n.pairs.lookup l.session = none)
    (hs : RelayPorts.Step J sha256 n.ports (.unbound port) p) :
    Sound J sha256 { n with ports := p } := by
  refine ⟨h.ports.next hs, fun {session pair} hpair => ?_, ?_, ?_⟩
  · obtain ⟨port', l', ht⟩ := h.pair hpair
    have hne : l.session ≠ session := by
      rintro rfl
      rw [hp] at hpair
      cases hpair
    cases hs
    exact ⟨port', l', ht.erase hl hne⟩
  · cases hs
    exact h.sending
  · cases hs
    exact h.tunnel

/-- A tunnel makes a step that is one of its socket, or of a player, too. -/
theorem Sound.replace (h : Sound J sha256 n) (hports : RelayPorts.Reachable J sha256 p)
    (hp : n.pairs.lookup session = some pair)
    (hsending : ∀ {i k s}, p.relay.tasks.lookup i = some (.sending k s) →
      n.ports.relay.tasks.lookup i = some (.sending k s))
    (htunnel : ∀ {i k s}, p.relay.tasks.lookup i = some (.tunnel k s) →
      n.ports.relay.tasks.lookup i = some (.tunnel k s))
    (hown : ∀ {port l}, Told n.ports session pair port l → Told p session pair' port l)
    (hothers : ∀ {session' pair port l}, session' ≠ session → Told n.ports session' pair port l →
      Told p session' pair port l) :
    Sound J sha256 ⟨p, n.pairs.insert session pair'⟩ := by
  refine ⟨hports, fun {session' q} hq => ?_, fun {i k s} hi => ?_, fun {i k s} hi => ?_⟩
  · simp only [KeyedMap.lookup_insert] at hq
    split at hq
    · rename_i he
      subst he
      cases hq
      obtain ⟨port, l, ht⟩ := h.pair hp
      exact ⟨port, l, hown ht⟩
    · rename_i hne
      obtain ⟨port, l, ht⟩ := h.pair hq
      exact ⟨port, l, hothers hne ht⟩
  · have hnone := h.sending (hsending hi)
    simp only [KeyedMap.lookup_insert]
    split
    · rename_i he
      rw [he, hp] at hnone
      cases hnone
    · exact hnone
  · simp only [KeyedMap.lookup_insert]
    split
    · exact ⟨pair', rfl⟩
    · exact h.tunnel (htunnel hi)

theorem Sound.opened {i : TaskId} {localPort : UInt16} (h : Sound J sha256 n)
    (hi : n.ports.relay.tasks.lookup i = some (.sending l.tokenId l.sessionId))
    (hl : n.ports.listeners.lookup port = some l)
    (hs : RelayPorts.Step J sha256 n.ports (.relay (.sent i)) p) :
    Sound J sha256 ⟨p, n.pairs.insert l.session (.start localPort port)⟩ := by
  have hports := h.ports.next hs
  have hreach := h.sockets.reachable
  cases hs with
  | relay hquiet => cases hquiet
  | @sent _ _ l' r hi' hl' hr =>
    have htask : r.tasks.lookup i = some (.tunnel l.tokenId l.sessionId) := by
      cases hr with
      | sent hj =>
        rw [hi] at hj
        cases hj
        exact AList.lookup_insert _
    have howned := Relay.reachable_owned (hreach.next hr)
    have hsession : r.session i = some l.session := Relay.sessionIn_of_lookup htask
    refine ⟨hports, fun {session q} hq => ?_, fun {j k s} hj => ?_, fun {j k s} hj => ?_⟩
    · simp only [KeyedMap.lookup_insert] at hq
      split at hq
      · rename_i he
        subst he
        cases hq
        refine ⟨port, l, rfl, ⟨localPort, [], .refl⟩, (h.sockets.listener hl).step hreach hr,
          fun {port' l'} hl' he => ?_, ?_, ?_⟩
        · have hport := h.sockets.single hl' hl (congrArg Prod.snd he)
          subst hport
          exact ⟨rfl, Option.some.inj (hl'.symm.trans hl)⟩
        · exact iff_of_true rfl hl
        · -- a player of the session would have a tunnel that is not this task
          refine List.filter_eq_nil_iff.mpr fun player hplayer => ?_
          rw [decide_eq_true_eq]
          intro he
          obtain ⟨j, hj⟩ := h.sockets.tunnel (l := player.2) hplayer
          have hboth : n.ports.relay.session j = some l.session := by
            rw [← he]
            exact Relay.sessionIn_of_lookup hj
          have hij := (Relay.reachable_owned hreach).unique hboth (Relay.sessionIn_of_lookup hi)
          rw [hij, hi] at hj
          cases hj
      · obtain ⟨port', l', ht⟩ := h.pair hq
        exact ⟨port', l', ht.keeps (ht.serves.step hreach hr) (fun _ => Iff.rfl) rfl⟩
    · simp only [KeyedMap.lookup_insert]
      have hj : r.tasks.lookup j = some (.sending k s) := hj
      split
      · rename_i he
        have hboth : r.session j = some l.session := he ▸ Relay.sessionIn_of_lookup hj
        rw [howned.unique hboth hsession, htask] at hj
        cases hj
      · rcases hr.sending hj with hj | ⟨_, he, -, -⟩
        · exact h.sending hj
        · cases he
    · simp only [KeyedMap.lookup_insert]
      split
      · exact ⟨_, rfl⟩
      · rename_i hne
        rcases hr.tunnels hj with hj | ⟨he, hj⟩
        · exact h.tunnel hj
        · cases he
          rw [hi] at hj
          cases hj
          exact absurd rfl hne

/-- A tunnel makes a step that leaves the sockets and the players as they are. -/
theorem Sound.pair_step {e : TunnelPair.Event} (h : Sound J sha256 n) (he : e.alone = true)
    (hp : n.pairs.lookup session = some pair) (hs : TunnelPair.Step pair e pair') :
    Sound J sha256 { n with pairs := n.pairs.insert session pair' } := by
  refine h.replace h.ports hp id id (fun ht => ?_) fun _ => id
  obtain ⟨hlistening, hplayers⟩ := hs.socket_alone ht.relaySound he
  refine ht.move hs ht.serves id ?_ ?_
  · rw [hlistening]
    exact ht.listening
  · rw [hplayers]
    exact ht.players

theorem Sound.joined {streamId : UInt64} (h : Sound J sha256 n)
    (hl : n.ports.listeners.lookup port = some l) (hp : n.pairs.lookup l.session = some pair)
    (hs : RelayPorts.Step J sha256 n.ports (.joined port) p)
    (hpair : TunnelPair.Step pair (.relay (.sent streamId)) pair') :
    Sound J sha256 ⟨p, n.pairs.insert l.session pair'⟩ := by
  have hports := h.ports.next hs
  cases hs with
  | joined hi hl' =>
    rw [hl] at hl'
    cases hl'
    refine h.replace hports hp id id (fun {port' l'} ht => ?_) fun {session' _ _ _} hne ht => ?_
    · obtain ⟨hlistening, hplayers⟩ := hpair.socket ht.relaySound (by simp)
      obtain ⟨rfl, rfl⟩ := ht.listener hl rfl
      refine ht.move hpair ht.serves id ?_ ?_
      · simpa [hlistening, Tunnel.Event.stops] using ht.listening
      · have hcons := ht.players
        rw [playersOf] at hcons
        simp [playersOf, hcons, hplayers, Tunnel.Event.running, List.replicate_succ]
    · refine ht.keeps ht.serves (fun _ => Iff.rfl) ?_
      simp [playersOf, Ne.symm hne]

theorem Sound.left {before after : List (UInt16 × Listener Conn)} (h : Sound J sha256 n)
    (hplayers : n.ports.players = before ++ (port, l) :: after)
    (hp : n.pairs.lookup l.session = some pair)
    (hpair : TunnelPair.Step pair (.relay .playerEnded) pair') :
    Sound J sha256
      ⟨{ n.ports with players := before ++ after }, n.pairs.insert l.session pair'⟩ := by
  refine h.replace (h.ports.next (.left hplayers)) hp id id (fun {port' l'} ht => ?_)
    fun {session' _ _ _} hne ht => ?_
  · obtain ⟨hlistening, hrunning⟩ := hpair.socket ht.relaySound (by simp)
    refine ht.move hpair ht.serves id ?_ ?_
    · simpa [hlistening, Tunnel.Event.stops] using ht.listening
    · have hall := ht.players
      rw [playersOf, hplayers, List.filter_append, List.filter_cons_of_pos (by simp)] at hall
      obtain ⟨hlength, hsame⟩ := List.eq_replicate_iff.mp hall
      refine List.eq_replicate_iff.mpr ⟨?_, fun player hm => hsame player ?_⟩
      · simp only [playersOf, List.filter_append, List.length_append, hrunning,
          Tunnel.Event.running, ← hlength, List.length_cons]
        omega
      · simp only [playersOf, List.filter_append, List.mem_append] at hm
        simp only [List.mem_append, List.mem_cons]
        exact hm.imp_right .inr
  · refine ht.keeps ht.serves (fun _ => Iff.rfl) ?_
    simp [playersOf, hplayers, Ne.symm hne]

theorem Sound.unbound {e : Tunnel.Event} (h : Sound J sha256 n)
    (hl : n.ports.listeners.lookup port = some l) (hp : n.pairs.lookup l.session = some pair)
    (he : e.stops = true) (hs : RelayPorts.Step J sha256 n.ports (.unbound port) p)
    (hpair : TunnelPair.Step pair (.relay e) pair') :
    Sound J sha256 ⟨p, n.pairs.insert l.session pair'⟩ := by
  have hports := h.ports.next hs
  have hdropped : e ≠ .dropped := by
    rintro rfl
    cases he
  have hrunning : ∀ m, e.running m = m := by
    intro m
    cases e with
    | agentClosed | acceptFailed | sendFailed => rfl
    | _ => cases he
  cases hs with
  | unbound hl' =>
    refine h.replace hports hp id id (fun {port' l'} ht => ?_) fun hne ht => ht.erase hl hne.symm
    obtain ⟨hlistening, hplayers⟩ := hpair.socket ht.relaySound hdropped
    obtain ⟨rfl, rfl⟩ := ht.listener hl rfl
    refine ht.move hpair ht.serves KeyedMap.lookup_of_erase ?_ ?_
    · simp [hlistening, he]
    · rw [hplayers, hrunning]
      exact ht.players

theorem Sound.closed {i : TaskId} {k : TokenId} {s : SessionId} (h : Sound J sha256 n)
    (hp : n.pairs.lookup (k, s) = some pair)
    (hs : RelayPorts.Step J sha256 n.ports (.relay (.closed i)) p)
    (hpair : TunnelPair.Step pair (.relay .returned) pair') :
    Sound J sha256 ⟨p, n.pairs.insert (k, s) pair'⟩ := by
  have hports := h.ports.next hs
  have hreach := h.sockets.reachable
  cases hs with
  | relay hquiet => cases hquiet
  | @closed _ k' s' r hi hlisteners hplayers hr =>
    refine h.replace hports hp (fun hj => ?_) (fun hj => ?_) (fun ht => ?_) fun _ ht =>
      ht.keeps (ht.serves.step hreach hr) (fun _ => Iff.rfl) rfl
    · rcases hr.sending hj with hj | ⟨_, he, -, -⟩
      · exact hj
      · cases he
    · rcases hr.tunnels hj with hj | ⟨he, -⟩
      · exact hj
      · cases he
    · obtain ⟨hlistening, hlength⟩ := hpair.socket ht.relaySound (by simp)
      refine ht.move hpair (ht.serves.step hreach hr) id ?_ ?_
      · simpa [hlistening, Tunnel.Event.stops] using ht.listening
      · rw [hlength]
        exact ht.players

theorem Sound.step {e : Event Conn} (h : Sound J sha256 n) (hs : Step J sha256 n e n') :
    Sound J sha256 n' := by
  cases hs with
  | ports he hs => exact h.ports_step he hs
  | unsent hl hp hs => exact h.unsent hl hp hs
  | opened localPort hi hl hs => exact h.opened hi hl hs
  | joined hl hp hs hpair => exact h.joined hl hp hs hpair
  | left hplayers hp hpair => exact h.left hplayers hp hpair
  | unbound hl hp he hs hpair => exact h.unbound hl hp he hs hpair
  | closed _ hp hs hpair => exact h.closed hp hs hpair
  | pair he hp hpair => exact h.pair_step he hp hpair

theorem reachable_sound (h : Reachable J sha256 n) : Sound J sha256 n :=
  h.invariant (fun _ => .of_initial) fun _ _ _ hi hs => hi.step hs

/-- **The port that the agent is told.** In every reachable state of the relay with the agents of
its tunnels: a task that runs a tunnel has the two ends of one, which are in a run of `TunnelPair`.
The only port that the agent can have read is one of the pool, the session's own while it is active,
with the agent's connection in the registry. As long as the relay's end takes players its socket
listens on this port, and then no more; the session has no other listener. The tasks of the relay's
end are of players that came in on this port, on this listener, and of no others. -/
theorem told_port (J : SerdeJson) (sha256 : Bytes32 → Bytes32) (n : Network Conn)
    (h : Reachable J sha256 n) :
    (∀ i k s, n.ports.relay.tasks.lookup i = some (.tunnel k s) →
      ∃ pair, n.pairs.lookup (k, s) = some pair) ∧
    ∀ k s pair, n.pairs.lookup (k, s) = some pair → ∃ port l, l.session = (k, s) ∧
      (∃ localPort es, Trace TunnelPair.Step (.start localPort port) es pair ∧
        ∀ publicPort, .ready publicPort ∈ es → publicPort = port) ∧
      (portStart ≤ port ∧ port ≤ portEnd) ∧
      (n.ports.relay.server.leases.Active k s →
        n.ports.relay.server.leases.ActiveOn k s port ∧
          n.ports.relay.server.activeConnections.lookup k = some (s, l.connection)) ∧
      (pair.relay.listening = true ↔ n.ports.listeners.lookup port = some l) ∧
      (∀ port' l', n.ports.listeners.lookup port' = some l' → l'.session = (k, s) →
        port' = port ∧ l' = l) ∧
      n.ports.players.filter (fun player => player.2.session = (k, s)) =
        .replicate pair.players.length (port, l) ∧
      pair.players.length ≤ maxConcurrentPlayers := by
  have hsound := reachable_sound h
  refine ⟨fun i k s => hsound.tunnel, fun k s pair hp => ?_⟩
  obtain ⟨port, l, ht⟩ := hsound.pair hp
  obtain ⟨localPort, es, hrun⟩ := ht.run
  have hslots : pair.relay.running + pair.relay.admitted ≤ maxConcurrentPlayers :=
    ht.relaySound.tunnel.slots.le
  have hrunning := ht.relaySound.running
  obtain ⟨rfl, rfl⟩ : l.tokenId = k ∧ l.sessionId = s := Prod.mk.inj ht.own
  refine ⟨port, l, rfl, ⟨localPort, es, hrun, fun publicPort => TunnelPair.ready_port hrun⟩,
    ht.serves.pool, fun ha => ⟨ht.serves.port ha, ht.serves.connection ha⟩, ht.listening,
    fun port' l' => ht.listener, ht.players, ?_⟩
  omega

/-- The host of `sampleServer` has its tunnel, and one player. -/
theorem told_port_one_host : ∃ (n : Network Unit) (pair : TunnelPair),
    n.pairs.lookup (⟨sampleDigest⟩, ⟨1⟩) = some pair ∧ ∃ port l,
      n.ports.players = [(port, l)] ∧
        n.ports.relay.server.leases.ActiveOn ⟨sampleDigest⟩ ⟨1⟩ port := by
  let l : Listener Unit := ⟨⟨sampleDigest⟩, ⟨1⟩, ()⟩
  let g : Semaphore := ⟨1⟩
  have h₀ : Reachable sampleJson (fun _ => sampleDigest)
      ⟨⟨⟨ServerState.sampleServer, none, ∅⟩, ∅, []⟩, ∅⟩ :=
    .of_init ⟨⟨⟨rfl, rfl, ⟨none, .absent⟩, 0, ⟨.created, .saved, .saved⟩, rfl⟩, rfl, rfl⟩, rfl⟩
  obtain ⟨rest, hb⟩ : ∃ rest, ServerState.sampleServer.beginRegistration (fun _ => sampleDigest)
      (.replicate 32 7) sampleIp 1000 = (.ok (10000 :: rest), ServerState.sampleServer) := ⟨_, rfl⟩
  obtain ⟨server, hc, -, htable⟩ := ServerState.sample_commit (some ())
  have h₁ := h₀.next (.ports rfl (.relay rfl (@Relay.Step.arrive _ _ _ _ 0 sampleIp ()
    (.register .tcp 25565 (.replicate 32 7) (.replicate 32 8)) _ rfl rfl)))
  have h₂ := h₁.next (.ports rfl (.relay rfl (.begin rfl (AList.lookup_insert _) hb)))
  have h₃ := h₂.next (.ports rfl
    (.bound (AList.lookup_insert _) rfl (.register (AList.lookup_insert _) hc)))
  have h₄ := h₃.next (.opened (l := l) 25565 (AList.lookup_insert _) (AList.lookup_insert _)
    (.sent (l := l) (AList.lookup_insert _) (AList.lookup_insert _)
      (.sent (AList.lookup_insert _))))
  have h₅ := h₄.next (.pair rfl (AList.lookup_insert _) (.alone (g := g) rfl (.accepted rfl)))
  have h₆ := h₅.next (.joined (l := l) (AList.lookup_insert _) (AList.lookup_insert _)
    (.joined (l := l) (AList.lookup_insert _) (AList.lookup_insert _))
    (.sent (g := g) rfl (.sent rfl)))
  have ha : server.leases.Active ⟨sampleDigest⟩ ⟨1⟩ := by
    rw [htable]
    exact ⟨_, rfl, rfl⟩
  obtain ⟨port, l', -, -, -, hactive, -, -, hplayers, -⟩ :=
    (told_port _ _ _ h₆).2 ⟨sampleDigest⟩ ⟨1⟩ _ (AList.lookup_insert _)
  exact ⟨_, _, AList.lookup_insert _, port, l', hplayers, (hactive ha).1⟩

end Network
end GameNet
