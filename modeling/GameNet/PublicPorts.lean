import GameNet.SessionPort

/-!
# GameNet.PublicPorts

The relay's listening sockets and the players that come in on them (`Tunnel::run` of
`crates/server/src/tunnel.rs`), over the tasks of `Registration`. A listener is bound by the task
that registers, moves into its tunnel once `TunnelReady` is sent, and is closed before the tunnel
asks for its lease to end; every player is bridged over the tunnel's connection. The operating
system lets a port have one listener.

The lease table says which session a port belongs to, but who gets a player is decided by the
listener alone. `Serves` ties a listener, and each player that it accepted, to the leases and to the
registry of connections.
-/

namespace GameNet

/-- A `TcpListener` of the relay: the session it was bound for, and the connection of its agent. -/
structure Listener (Conn : Type) where
  tokenId : TokenId
  sessionId : SessionId
  connection : Conn

def Listener.session {Conn : Type} (l : Listener Conn) : TokenId × SessionId :=
  (l.tokenId, l.sessionId)

structure RelayPorts (Conn : Type) where
  relay : Relay Conn
  listeners : KeyedMap UInt16 (Listener Conn)
  /-- The tasks of the `JoinSet`s: the port a player came in on, and its listener. -/
  players : List (UInt16 × Listener Conn)

namespace Relay

variable {Conn : Type}

/-- The event concerns a listener or the players of one. -/
def Event.listens : Event Conn → Bool
  | .registered _ _ | .sent _ | .closed _ => true
  | _ => false

section

variable {J : SerdeJson} {sha256 : Bytes32 → Bytes32} {r r' : Relay Conn} {e : Event Conn}
  {i : TaskId} {k : TokenId} {s : SessionId}

/-- A tunnel runs until it closes. -/
theorem Step.tunnel (hi : r.tasks.lookup i = some (.tunnel k s)) (hs : Step J sha256 r e r') :
    e = .closed i ∨ r'.tasks.lookup i = some (.tunnel k s) := by
  have hother : ∀ {j task}, r.tasks.lookup j = some task → task ≠ .tunnel k s → i ≠ j := by
    rintro j task hj ht rfl
    rw [hi] at hj
    exact ht (Option.some.inj hj).symm
  have hnew : ∀ {j}, r.tasks.lookup j = none → i ≠ j := by
    rintro j hj rfl
    rw [hi] at hj
    cases hj
  have hinsert : ∀ {j task}, i ≠ j → (r.tasks.insert j task).lookup i = some (.tunnel k s) := by
    intro j task hne
    rw [KeyedMap.lookup_insert, if_neg hne, hi]
  have herase : ∀ {j}, i ≠ j → (r.tasks.erase j).lookup i = some (.tunnel k s) := by
    intro j hne
    rw [KeyedMap.lookup_erase, if_neg hne, hi]
  cases hs with
  | reorder | refresh => exact .inr hi
  | arrive hj _ => exact .inr (hinsert (hnew hj))
  | begin _ hj _ | busy hj | register hj _ | sent hj => exact .inr (hinsert (hother hj nofun))
  | refuse _ hj _ | exhaust hj | bindFail hj | commitFail hj _ | cancelWaiting hj
  | cancelBinding hj | rotate _ hj _ | recover _ hj _ =>
    exact .inr (herase (hother hj nofun))
  | @drop j l _ _ hj hl =>
    refine .inr ?_
    show AList.lookup i (AList.insert l _ (AList.erase j r.tasks)) = _
    rw [KeyedMap.lookup_insert, if_neg (hnew hl)]
    exact herase (hother hj nofun)
  | @close j _ _ hj =>
    by_cases hij : i = j
    · exact .inl (hij ▸ rfl)
    · exact .inr (hinsert hij)
  | finish _ hj _ =>
    rcases hj with hj | hj
    · exact .inr (herase (hother hj nofun))
    · exact .inr (herase (hother hj nofun))

/-- How a task has come to where it is. -/
inductive Arrives (r : Relay Conn) (e : Event Conn) (i : TaskId) : Task Conn → Prop where
  | there {task : Task Conn} : r.tasks.lookup i = some task → Arrives r e i task
  | waits {task : Task Conn} : task.session = none → Arrives r e i task
  | registers {registration : Registration} : e = .registered i registration →
      Arrives r e i (.sending registration.tokenId registration.sessionId)
  | sends {k : TokenId} {s : SessionId} : e = .sent i →
      r.tasks.lookup i = some (.sending k s) → Arrives r e i (.tunnel k s)
  | closes {k : TokenId} {s : SessionId} : e = .closed i →
      r.tasks.lookup i = some (.tunnel k s) → Arrives r e i (.closing k s)
  | cleans {k : TokenId} {s : SessionId} : Arrives r e i (.cleanup k s)

theorem Step.arrives {task : Task Conn} (hi : r'.tasks.lookup i = some task)
    (hs : Step J sha256 r e r') : Arrives r e i task := by
  have hinsert : ∀ {tasks : KeyedMap TaskId (Task Conn)} {j task'},
      (tasks.insert j task').lookup i = some task →
      (i = j ∧ task = task') ∨ tasks.lookup i = some task := by
    intro tasks j task' hj
    rw [KeyedMap.lookup_insert] at hj
    split at hj
    · rename_i hij
      exact .inl ⟨hij, (Option.some.inj hj).symm⟩
    · exact .inr hj
  cases hs with
  | reorder | refresh => exact .there hi
  | refuse | exhaust | bindFail | commitFail | cancelWaiting | cancelBinding | finish | rotate
  | recover => exact .there (KeyedMap.lookup_of_erase hi)
  | arrive | begin | busy =>
    rcases hinsert hi with ⟨-, rfl⟩ | hi
    · exact .waits rfl
    · exact .there hi
  | register =>
    rcases hinsert hi with ⟨rfl, rfl⟩ | hi
    · exact .registers rfl
    · exact .there hi
  | sent hj =>
    rcases hinsert hi with ⟨rfl, rfl⟩ | hi
    · exact .sends rfl hj
    · exact .there hi
  | close hj =>
    rcases hinsert hi with ⟨rfl, rfl⟩ | hi
    · exact .closes rfl hj
    · exact .there hi
  | drop =>
    rcases hinsert hi with ⟨-, rfl⟩ | hi
    · exact .cleans
    · exact .there (KeyedMap.lookup_of_erase hi)

/-- A task that ends its session was a tunnel until it closed. -/
theorem Step.closing (hi : r'.tasks.lookup i = some (.closing k s)) (hs : Step J sha256 r e r') :
    r.tasks.lookup i = some (.closing k s) ∨
      (e = .closed i ∧ r.tasks.lookup i = some (.tunnel k s)) := by
  cases hs.arrives hi with
  | there hi => exact .inl hi
  | waits hn => cases hn
  | closes he hi => exact .inr ⟨he, hi⟩

/-- A new session has a number that no session had before. -/
theorem Step.registered_fresh {registration : Registration}
    (hs : Step J sha256 r (.registered i registration) r') :
    r.server.leases.lastSession < registration.sessionId :=
  (serial_step.fresh hs rfl).1

end
end Relay

namespace RelayPorts

open LeaseTable (ActiveOn)

variable {Conn : Type}

inductive Event (Conn : Type) where
  | relay (e : Relay.Event Conn)
  | unbound (port : UInt16)
  | joined (port : UInt16)
  | left (port : UInt16)

inductive Step (J : SerdeJson) (sha256 : Bytes32 → Bytes32) :
    RelayPorts Conn → Event Conn → RelayPorts Conn → Prop where
  | relay {p : RelayPorts Conn} {e : Relay.Event Conn} {r : Relay Conn} : e.listens = false →
      Relay.Step J sha256 p.relay e r → Step J sha256 p (.relay e) { p with relay := r }
  | bound {p : RelayPorts Conn} {i : TaskId} {reg : Registering Conn} {ports : List UInt16}
      {registration : Registration} {r : Relay Conn} :
      p.relay.tasks.lookup i = some (.binding reg ports) →
      p.listeners.lookup registration.publicPort = none →
      Relay.Step J sha256 p.relay (.registered i registration) r →
      Step J sha256 p (.relay (.registered i registration))
        { p with
          relay := r
          listeners := p.listeners.insert registration.publicPort
            ⟨registration.tokenId, registration.sessionId, reg.connection⟩ }
  -- the listener moves into the tunnel
  | sent {p : RelayPorts Conn} {i : TaskId} {port : UInt16} {l : Listener Conn} {r : Relay Conn} :
      p.relay.tasks.lookup i = some (.sending l.tokenId l.sessionId) →
      p.listeners.lookup port = some l → Relay.Step J sha256 p.relay (.sent i) r →
      Step J sha256 p (.relay (.sent i)) { p with relay := r }
  -- `run` has returned: its listener is taken and its players are joined
  | closed {p : RelayPorts Conn} {i : TaskId} {k : TokenId} {s : SessionId} {r : Relay Conn} :
      p.relay.tasks.lookup i = some (.tunnel k s) →
      (∀ port l, p.listeners.lookup port = some l → l.session ≠ (k, s)) →
      (∀ player ∈ p.players, player.2.session ≠ (k, s)) →
      Relay.Step J sha256 p.relay (.closed i) r →
      Step J sha256 p (.relay (.closed i)) { p with relay := r }
  -- by `run`, or with a registration that could not be answered
  | unbound {p : RelayPorts Conn} {port : UInt16} {l : Listener Conn} :
      p.listeners.lookup port = some l →
      Step J sha256 p (.unbound port) { p with listeners := p.listeners.erase port }
  | joined {p : RelayPorts Conn} {i : TaskId} {port : UInt16} {l : Listener Conn} :
      p.relay.tasks.lookup i = some (.tunnel l.tokenId l.sessionId) →
      p.listeners.lookup port = some l →
      Step J sha256 p (.joined port) { p with players := (port, l) :: p.players }
  -- completed, failed or aborted
  | left {p : RelayPorts Conn} {player : UInt16 × Listener Conn}
      {before after : List (UInt16 × Listener Conn)} : p.players = before ++ player :: after →
      Step J sha256 p (.left player.1) { p with players := before ++ after }

def Initial (J : SerdeJson) (sha256 : Bytes32 → Bytes32) (p : RelayPorts Conn) : Prop :=
  Relay.Started J sha256 p.relay ∧ p.listeners = ∅ ∧ p.players = []

abbrev Reachable (J : SerdeJson) (sha256 : Bytes32 → Bytes32) : RelayPorts Conn → Prop :=
  Trace.Reached (Initial J sha256) (Step J sha256)

/-- While the session of the listener is active, it is so on this port, and its connection is the
one of the listener. -/
structure Serves (r : Relay Conn) (port : UInt16) (l : Listener Conn) : Prop where
  pool : portStart ≤ port ∧ port ≤ portEnd
  issued : l.sessionId ≤ r.server.leases.lastSession
  port : r.server.leases.Active l.tokenId l.sessionId →
    r.server.leases.ActiveOn l.tokenId l.sessionId port
  connection : r.server.leases.Active l.tokenId l.sessionId →
    r.server.activeConnections.lookup l.tokenId = some (l.sessionId, l.connection)

section

variable {J : SerdeJson} {sha256 : Bytes32 → Bytes32} {r r' : Relay Conn} {e : Relay.Event Conn}
  {p p' : RelayPorts Conn} {port : UInt16} {l : Listener Conn}

theorem Serves.keeps (h : Serves r port l) (hk : ServerState.Keeps r.server r'.server)
    (hm : ServerState.Matches r'.server.leases r'.server.activeConnections)
    (hn : r.server.leases.lastSession ≤ r'.server.leases.lastSession) : Serves r' port l where
  pool := h.pool
  issued := h.issued.trans hn
  port ha := by
    obtain ⟨port', hon⟩ := ha.on
    have hbefore := hk.port hon
    obtain ⟨-, rfl⟩ := hbefore.unique (h.port hbefore.active)
    exact hon
  connection ha := by
    obtain ⟨c, hentry⟩ := hm.entry ha
    obtain ⟨port', hon⟩ := ha.on
    have hold := h.connection (hk.port hon).active
    rw [hk.connection hentry] at hold
    cases hold
    exact hentry

/-- No step of a task takes the port or the connection from an active session. -/
theorem Serves.step (h : Serves r port l) (hr : Relay.Reachable J sha256 r)
    (hs : Relay.Step J sha256 r e r') : Serves r' port l := by
  have hm' := Relay.reachable_matches (hr.next hs)
  have hn := (Relay.serial_step.step_old hs).1
  cases hs.turns (Relay.reachable_owned hr).wellFormed (Relay.reachable_matches hr) with
  | lasts _ hl => exact h.keeps hl.keeps hm' hn
  | ends _ hk _ => exact h.keeps hk hm' hn
  | displaces hk _ => exact h.keeps hk hm' hn
  | @opens i reg ports registration hi hnone _ hactive hconnections =>
    have hfresh := hs.registered_fresh
    have hold : ∀ {port'}, r'.server.leases.ActiveOn l.tokenId l.sessionId port' →
        l.tokenId ≠ registration.tokenId ∧
          r.server.leases.ActiveOn l.tokenId l.sessionId port' := by
      intro port' hon
      rcases hactive.mp hon with ⟨-, hsame, -⟩ | hon
      · exact absurd (hsame ▸ h.issued) hfresh.not_ge
      · exact hon
    constructor
    · exact h.pool
    · exact h.issued.trans hn
    · intro ha
      obtain ⟨port', hon⟩ := ha.on
      obtain ⟨-, hbefore⟩ := hold hon
      obtain ⟨-, rfl⟩ := hbefore.unique (h.port hbefore.active)
      exact hon
    · intro ha
      obtain ⟨port', hon⟩ := ha.on
      obtain ⟨hne, hbefore⟩ := hold hon
      rw [hconnections, KeyedMap.lookup_insert, if_neg hne]
      exact h.connection hbefore.active

/-- The listener of a registration serves the session that it opens. -/
theorem serves_bound {i : TaskId} {reg : Registering Conn} {ports : List UInt16}
    {registration : Registration} (hr : Relay.Reachable J sha256 r)
    (hi : r.tasks.lookup i = some (.binding reg ports))
    (hs : Relay.Step J sha256 r (.registered i registration) r') :
    Serves r' registration.publicPort
        ⟨registration.tokenId, registration.sessionId, reg.connection⟩ ∧
      r'.server.leases.ActiveOn registration.tokenId registration.sessionId
        registration.publicPort ∧
      ∀ {k s port}, r'.server.leases.ActiveOn k s port →
        (k = registration.tokenId ∧ s = registration.sessionId ∧
          port = registration.publicPort) ∨ r.server.leases.ActiveOn k s port := by
  have hlast := (Relay.serial_step.fresh hs rfl).2.1
  cases hs.turns (Relay.reachable_owned hr).wellFormed (Relay.reachable_matches hr) with
  | lasts hnone _ => cases hnone
  | @opens _ reg' _ _ hi' _ hpool hactive hconnections =>
    rw [hi] at hi'
    cases hi'
    have hon := hactive.mpr (.inl ⟨rfl, rfl, rfl⟩)
    refine ⟨⟨hpool, hlast.ge, fun _ => hon, fun _ => ?_⟩, hon, fun ha => ?_⟩
    · rw [hconnections]
      exact AList.lookup_insert _
    · exact (hactive.mp ha).imp_right And.right

/-! ## Every listener and every player -/

/-- The listeners serve their sessions, each on a port of its own, and the players that came in on
them belong to tunnels that run. -/
structure Sound (J : SerdeJson) (sha256 : Bytes32 → Bytes32) (p : RelayPorts Conn) : Prop where
  reachable : Relay.Reachable J sha256 p.relay
  listener : ∀ {port l}, p.listeners.lookup port = some l → Serves p.relay port l
  owner : ∀ {port l k s}, p.listeners.lookup port = some l →
    p.relay.server.leases.ActiveOn k s port → k = l.tokenId ∧ s = l.sessionId
  single : ∀ {port port' l l'}, p.listeners.lookup port = some l →
    p.listeners.lookup port' = some l' → l.sessionId = l'.sessionId → port = port'
  closing : ∀ {i k s port l}, p.relay.tasks.lookup i = some (.closing k s) →
    p.listeners.lookup port = some l → l.session ≠ (k, s)
  player : ∀ {port l}, (port, l) ∈ p.players → Serves p.relay port l
  tunnel : ∀ {port l}, (port, l) ∈ p.players →
    ∃ i, p.relay.tasks.lookup i = some (.tunnel l.tokenId l.sessionId)

theorem Sound.of_initial (h : Initial J sha256 p) : Sound J sha256 p := by
  obtain ⟨hstarted, hl, hp⟩ := h
  have hno : ∀ {port l}, p.listeners.lookup port ≠ some l := by
    intro port l h
    rw [hl] at h
    cases h
  have hnoplayer : ∀ {player}, player ∉ p.players := by
    intro player h
    rw [hp] at h
    cases h
  exact ⟨.of_init hstarted, fun h => absurd h hno, fun h => absurd h hno, fun h => absurd h hno,
    fun _ h => absurd h hno, fun h => absurd h hnoplayer, fun h => absurd h hnoplayer⟩

/-- A step of a task that binds no listener. -/
theorem Sound.relay (h : Sound J sha256 p) (hs : Relay.Step J sha256 p.relay e r')
    (hbinds : e.issued = none)
    (hlisteners : ∀ {i k s port l}, e = .closed i → p.relay.tasks.lookup i = some (.tunnel k s) →
      p.listeners.lookup port = some l → l.session ≠ (k, s))
    (hplayers : ∀ {i k s player}, e = .closed i → p.relay.tasks.lookup i = some (.tunnel k s) →
      player ∈ p.players → player.2.session ≠ (k, s)) :
    Sound J sha256 { p with relay := r' } where
  reachable := h.reachable.next hs
  listener hl := (h.listener hl).step h.reachable hs
  owner {port l k s} hl ha := by
    have hturns := hs.turns (Relay.reachable_owned h.reachable).wellFormed
      (Relay.reachable_matches h.reachable)
    have hbefore : p.relay.server.leases.ActiveOn k s port := by
      cases hturns with
      | lasts _ hl => exact hl.keeps.port ha
      | ends _ hk _ => exact hk.port ha
      | displaces hk _ => exact hk.port ha
      | opens => cases hbinds
    exact h.owner hl hbefore
  single := h.single
  closing hi hl := by
    rcases hs.closing hi with hi | ⟨he, hi⟩
    · exact h.closing hi hl
    · exact hlisteners he hi hl
  player hp := (h.player hp).step h.reachable hs
  tunnel {port l} hp := by
    obtain ⟨i, hi⟩ := h.tunnel hp
    rcases hs.tunnel hi with he | hi
    · exact absurd rfl (hplayers he hi hp)
    · exact ⟨i, hi⟩

/-- The step of a task that binds a listener. -/
theorem Sound.bound {i : TaskId} {reg : Registering Conn} {ports : List UInt16}
    {registration : Registration} (h : Sound J sha256 p)
    (hi : p.relay.tasks.lookup i = some (.binding reg ports))
    (hs : Relay.Step J sha256 p.relay (.registered i registration) r') :
    Sound J sha256
      { p with
        relay := r'
        listeners := p.listeners.insert registration.publicPort
          ⟨registration.tokenId, registration.sessionId, reg.connection⟩ } := by
  obtain ⟨hserves, hon, hactive⟩ := serves_bound h.reachable hi hs
  have hfresh := hs.registered_fresh
  have hold : ∀ {port l}, p.listeners.lookup port = some l →
      l.sessionId ≠ registration.sessionId := by
    intro port l hl he
    exact hfresh.not_ge (he ▸ (h.listener hl).issued)
  constructor
  · exact h.reachable.next hs
  · intro port l hl
    rw [KeyedMap.lookup_insert] at hl
    split at hl
    · rename_i hport
      cases hl
      exact hport ▸ hserves
    · exact (h.listener hl).step h.reachable hs
  · intro port l k s hl ha
    rw [KeyedMap.lookup_insert] at hl
    split at hl
    · rename_i hport
      subst hport
      cases hl
      have hw := (Relay.reachable_owned (h.reachable.next hs)).wellFormed
      exact ha.exclusive hw hon
    · rename_i hport
      rcases hactive ha with ⟨-, -, hp⟩ | hbefore
      · exact absurd hp hport
      · exact h.owner hl hbefore
  · intro port port' l l' hl hl' hsame
    rw [KeyedMap.lookup_insert] at hl hl'
    split at hl <;> split at hl'
    · rename_i hp hp'
      exact hp.trans hp'.symm
    · cases hl
      exact absurd hsame.symm (hold hl')
    · cases hl'
      exact absurd hsame (hold hl)
    · exact h.single hl hl' hsame
  · intro j k s port l hj hl
    rcases hs.closing hj with hj | ⟨he, -⟩
    · rw [KeyedMap.lookup_insert] at hl
      split at hl
      · cases hl
        intro hsession
        cases hsession
        have hissued := (Relay.reachable_owned h.reachable).issued (Relay.sessionIn_of_lookup hj)
        exact hfresh.not_ge (LeaseTable.le_iff_value_le.mpr hissued)
      · exact h.closing hj hl
    · cases he
  · intro port l hp
    exact (h.player hp).step h.reachable hs
  · intro port l hp
    obtain ⟨j, hj⟩ := h.tunnel hp
    rcases hs.tunnel hj with he | hj
    · cases he
    · exact ⟨j, hj⟩

theorem Sound.step {e : Event Conn} (h : Sound J sha256 p) (hs : Step J sha256 p e p') :
    Sound J sha256 p' := by
  cases hs with
  | @relay e r hquiet hr =>
    have hopen : ∀ {i}, e ≠ .closed i := by
      rintro i rfl
      cases hquiet
    have hbinds : e.issued = none := by
      cases e with
      | registered => cases hquiet
      | _ => rfl
    exact h.relay hr hbinds (fun he => absurd he hopen) (fun he => absurd he hopen)
  | bound hi _ hr => exact h.bound hi hr
  | sent _ _ hr => exact h.relay hr rfl nofun nofun
  | @closed i k s r hi hl hp hr =>
    have hsame : ∀ {j k' s'}, Relay.Event.closed i = (.closed j : Relay.Event Conn) →
        p.relay.tasks.lookup j = some (.tunnel k' s') → (k, s) = (k', s') := by
      rintro j k' s' ⟨⟩ hj
      rw [hi] at hj
      cases hj
      rfl
    exact h.relay hr rfl (fun he hj hlookup => hsame he hj ▸ hl _ _ hlookup)
      (fun he hj hmem => hsame he hj ▸ hp _ hmem)
  | @unbound port l hl =>
    constructor
    · exact h.reachable
    · exact fun hl' => h.listener (KeyedMap.lookup_of_erase hl')
    · exact fun hl' => h.owner (KeyedMap.lookup_of_erase hl')
    · exact fun hl' hl'' =>
        h.single (KeyedMap.lookup_of_erase hl') (KeyedMap.lookup_of_erase hl'')
    · exact fun hi hl' => h.closing hi (KeyedMap.lookup_of_erase hl')
    · exact h.player
    · exact h.tunnel
  | @joined i port l hi hl =>
    refine ⟨h.reachable, h.listener, h.owner, h.single, h.closing, fun hp => ?_, fun hp => ?_⟩
    · rcases List.mem_cons.mp hp with hnew | hp
      · cases hnew
        exact h.listener hl
      · exact h.player hp
    · rcases List.mem_cons.mp hp with hnew | hp
      · cases hnew
        exact ⟨i, hi⟩
      · exact h.tunnel hp
  | @left player before after hp =>
    have hmem : ∀ {q}, q ∈ before ++ after → q ∈ p.players := by
      intro q hq
      rw [hp]
      exact List.mem_append.mpr ((List.mem_append.mp hq).imp_right (List.mem_cons_of_mem _))
    exact ⟨h.reachable, h.listener, h.owner, h.single, h.closing, fun hq => h.player (hmem hq),
      fun hq => h.tunnel (hmem hq)⟩

theorem reachable_sound (h : Reachable J sha256 p) : Sound J sha256 p :=
  h.invariant (fun _ => .of_initial) (fun _ _ _ hi hs => hi.step hs)

/-- A session that ends had a task that ended it, or a recovery displaced it: then the recovery is
told the port of the session's listener and players and given their connection. -/
theorem Serves.ended (h : Serves p.relay port l) (hr : Relay.Reachable J sha256 p.relay)
    (hs : Relay.Step J sha256 p.relay e r')
    (ha : p.relay.server.leases.Active l.tokenId l.sessionId)
    (hover : ¬r'.server.leases.Active l.tokenId l.sessionId) :
    (∃ i answer, e = .finished i answer ∧ p.relay.session i = some l.session) ∨
      ∃ i secret new, e = .recovered i secret new (.ok (port, some l.connection)) := by
  cases hs.turns (Relay.reachable_owned hr).wellFormed (Relay.reachable_matches hr) with
  | lasts _ hl => exact absurd (hl.stays ha) hover
  | @opens _ _ _ registration _ hnone _ hactive _ =>
    obtain ⟨port', hon⟩ := ha.on
    have hne : l.tokenId ≠ registration.tokenId := by
      intro he
      exact hnone (he ▸ ha)
    exact absurd (hactive.mpr (.inr ⟨hne, hon⟩)).active hover
  | @ends i k s answer hi _ hends =>
    rcases hends ha with hstill | ⟨rfl, rfl⟩
    · exact absurd hstill hover
    · exact .inl ⟨i, answer, rfl, hi⟩
  | @displaces i secret new answer _ hends =>
    rcases hends ha with hstill | ⟨port', c, rfl, hon, hc⟩
    · exact absurd hstill hover
    · obtain ⟨-, rfl⟩ := hon.unique (h.port ha)
      rw [h.connection ha] at hc
      cases hc
      exact .inr ⟨i, secret, new, rfl⟩

/-- The tunnel that has players is not the task that ends its session. -/
theorem Sound.not_finished {i : TaskId} {answer : Except ServerError Bool} (h : Sound J sha256 p)
    (hp : (port, l) ∈ p.players) (hi : p.relay.session i = some l.session)
    (hs : Relay.Step J sha256 p.relay (.finished i answer) r') : False := by
  obtain ⟨j, hj⟩ := h.tunnel hp
  have hsession : p.relay.session j = some l.session := Relay.sessionIn_of_lookup hj
  obtain rfl := (Relay.reachable_owned h.reachable).unique hsession hi
  cases hs with
  | finish _ hl _ =>
    rcases hl with hl | hl
    · rw [hj] at hl
      cases hl
    · rw [hj] at hl
      cases hl

/-- **A player reaches the host whose lease has the port.** In every reachable state of the relay a
listener is on a port of the pool; the only session that can be active on its port is its own, and
while that is active the connection of the listener is the one in the registry; no other listener is
the session's. A player belongs to a tunnel that runs, and is bridged over the connection of the
session it came to. When a tunnel asks for its lease to end, its listener is closed and its players
are gone. A session with players ends by a recovery only, which is told their port and given their
connection; a session with a listener can also be ended by the task that is responsible for it. -/
theorem public_ports (J : SerdeJson) (sha256 : Bytes32 → Bytes32) (p : RelayPorts Conn)
    (h : Reachable J sha256 p) :
    (∀ port l, p.listeners.lookup port = some l →
      (portStart ≤ port ∧ port ≤ portEnd) ∧
      (∀ k s, p.relay.server.leases.ActiveOn k s port → k = l.tokenId ∧ s = l.sessionId) ∧
      (p.relay.server.leases.Active l.tokenId l.sessionId →
        p.relay.server.leases.ActiveOn l.tokenId l.sessionId port ∧
          p.relay.server.activeConnections.lookup l.tokenId = some (l.sessionId, l.connection)) ∧
      ∀ port' l', p.listeners.lookup port' = some l' → l'.sessionId = l.sessionId →
        port' = port) ∧
    (∀ port l, (port, l) ∈ p.players →
      (∃ i, p.relay.tasks.lookup i = some (.tunnel l.tokenId l.sessionId)) ∧
      (p.relay.server.leases.Active l.tokenId l.sessionId →
        p.relay.server.leases.ActiveOn l.tokenId l.sessionId port ∧
          p.relay.server.activeConnections.lookup l.tokenId =
            some (l.sessionId, l.connection))) ∧
    (∀ i k s, p.relay.tasks.lookup i = some (.closing k s) →
      (∀ port l, p.listeners.lookup port = some l → l.session ≠ (k, s)) ∧
      ∀ player ∈ p.players, player.2.session ≠ (k, s)) ∧
    ∀ e p', Step J sha256 p (.relay e) p' → ∀ port l,
      p.relay.server.leases.Active l.tokenId l.sessionId →
      ¬p'.relay.server.leases.Active l.tokenId l.sessionId →
      ((port, l) ∈ p.players →
        ∃ i secret new, e = .recovered i secret new (.ok (port, some l.connection))) ∧
      (p.listeners.lookup port = some l →
        (∃ i answer, e = .finished i answer ∧ p.relay.session i = some l.session) ∨
          ∃ i secret new, e = .recovered i secret new (.ok (port, some l.connection))) := by
  have hsound := reachable_sound h
  refine ⟨fun port l hl => ?_, fun port l hp => ?_, fun i k s hi => ?_, ?_⟩
  · have hserves := hsound.listener hl
    exact ⟨hserves.pool, fun k s ha => hsound.owner hl ha,
      fun ha => ⟨hserves.port ha, hserves.connection ha⟩,
      fun port' l' hl' he => hsound.single hl' hl he⟩
  · have hserves := hsound.player hp
    exact ⟨hsound.tunnel hp, fun ha => ⟨hserves.port ha, hserves.connection ha⟩⟩
  · refine ⟨fun port l hl => hsound.closing hi hl, fun player hp hsession => ?_⟩
    -- the tunnel of a player and the task that ends its session are one task
    obtain ⟨j, hj⟩ := hsound.tunnel hp
    have hsessionj : p.relay.session j = some player.2.session := Relay.sessionIn_of_lookup hj
    have hsessioni : p.relay.session i = some (k, s) := Relay.sessionIn_of_lookup hi
    rw [hsession] at hsessionj
    obtain rfl := (Relay.reachable_owned hsound.reachable).unique hsessionj hsessioni
    rw [hj] at hi
    cases hi
  · intro e p' hs port l ha hover
    have hr : Relay.Step J sha256 p.relay e p'.relay := by
      cases hs with
      | relay _ hr | bound _ _ hr | sent _ _ hr | closed _ _ _ hr => exact hr
    refine ⟨fun hp => ?_, fun hl => (hsound.listener hl).ended hsound.reachable hr ha hover⟩
    rcases (hsound.player hp).ended hsound.reachable hr ha hover with
      ⟨i, answer, rfl, hi⟩ | hdisplaced
    · exact (hsound.not_finished hp hi hr).elim
    · exact hdisplaced

/-- The host of `sampleServer` has its tunnel, and one player. -/
theorem public_ports_one_host : ∃ p : RelayPorts Unit,
    p.relay.server.leases.ActiveOn ⟨sampleDigest⟩ ⟨1⟩ 10000 ∧
      (10000, ⟨⟨sampleDigest⟩, ⟨1⟩, ()⟩) ∈ p.players := by
  have h₀ : Reachable sampleJson (fun _ => sampleDigest)
      ⟨⟨ServerState.sampleServer, none, ∅⟩, ∅, []⟩ :=
    .of_init ⟨⟨rfl, rfl, ⟨none, .absent⟩, 0, ⟨.created, .saved, .saved⟩, rfl⟩, rfl, rfl⟩
  obtain ⟨rest, hb⟩ : ∃ rest, ServerState.sampleServer.beginRegistration (fun _ => sampleDigest)
      (.replicate 32 7) sampleIp 1000 = (.ok (10000 :: rest), ServerState.sampleServer) := ⟨_, rfl⟩
  obtain ⟨server, hc, -, htable⟩ := ServerState.sample_commit (some ())
  have h₁ := h₀.next (.relay rfl (@Relay.Step.arrive _ _ _ _ 0 sampleIp ()
    (.register .tcp 25565 (.replicate 32 7) (.replicate 32 8)) _ rfl rfl))
  have h₂ := h₁.next (.relay rfl (.begin rfl (AList.lookup_insert _) hb))
  have h₃ := h₂.next (.bound (AList.lookup_insert _) rfl (.register (AList.lookup_insert _) hc))
  have h₄ := h₃.next (.sent (l := ⟨⟨sampleDigest⟩, ⟨1⟩, ()⟩) (AList.lookup_insert _)
    (AList.lookup_insert _) (.sent (AList.lookup_insert _)))
  have h₅ := h₄.next (.joined (l := ⟨⟨sampleDigest⟩, ⟨1⟩, ()⟩) (AList.lookup_insert _)
    (AList.lookup_insert _))
  have ha : server.leases.Active ⟨sampleDigest⟩ ⟨1⟩ := by
    rw [htable]
    exact ⟨_, rfl, rfl⟩
  obtain ⟨-, hplayers, -⟩ := public_ports _ _ _ h₅
  obtain ⟨-, hactive⟩ := hplayers 10000 ⟨⟨sampleDigest⟩, ⟨1⟩, ()⟩ List.mem_cons_self
  exact ⟨_, (hactive ha).1, List.mem_cons_self⟩

end
end RelayPorts
end GameNet
