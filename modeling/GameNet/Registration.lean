import GameNet.Protocol
import GameNet.Sessions

/-!
# GameNet.Registration

The tasks of a running relay (`crates/server/src/tunnel.rs` and the loop of
`crates/server/src/relay.rs`) over its shared state. A connection's task reads a request and waits
for the lock. A registration keeps the lock while it binds ports; when it has one, it holds a
`PendingRegistration` guard and sends `TunnelReady`. The guard is disarmed when the task goes on
as a `Tunnel`; a guard that is dropped armed spawns a cleanup task. The registration timeout can
cancel the task at every await point before it is a tunnel.

Between two await points nothing of a task can be interleaved, so each step here runs one task
from one await point to the next. `Moves` says what a step can do to the sessions the tasks are
responsible for and to the leases; the invariant is read off it.
-/

namespace GameNet

/-- What `from_quic` acts on: a first message that is none of these is answered with an error. -/
inductive Request where
  | register (token : TunnelToken) (recoveryId : Bytes32)
  | rotate (old new : TunnelToken)
  | recover (secret new : TunnelToken)

def Request.ofMessage : ControlMessage → Option Request
  | .register protocol localPort token recoveryId =>
    if protocol ≠ .tcp ∨ localPort = 0 then none else some (.register token recoveryId)
  | .rotateIdentity old new => some (.rotate old new)
  | .recoverIdentity secret new => some (.recover secret new)
  | _ => none

/-- The arguments of `register_with_recovery`. -/
structure Registering (Conn : Type) where
  tokenId : TokenId
  recoveryId : Option TokenId
  peerIp : IpAddr
  now : UInt64
  connection : Conn

/-- Where a task is suspended. `from_quic` is `waiting` for the lock, `binding` the first of its
candidates under it, or `sending` the answer with the armed guard. A tunnel is in its run, or
`closing` when it waits for the lock in its cleanup, as the `cleanup` task of a guard does. -/
inductive Task (Conn : Type) where
  | waiting (peerIp : IpAddr) (connection : Conn) (request : Request)
  | binding (registering : Registering Conn) (candidates : List UInt16)
  | sending (tokenId : TokenId) (sessionId : SessionId)
  | tunnel (tokenId : TokenId) (sessionId : SessionId)
  | closing (tokenId : TokenId) (sessionId : SessionId)
  | cleanup (tokenId : TokenId) (sessionId : SessionId)

/-- The session the task has to end. -/
def Task.session {Conn : Type} : Task Conn → Option (TokenId × SessionId)
  | .waiting _ _ _ | .binding _ _ => none
  | .sending k s | .tunnel k s | .closing k s | .cleanup k s => some (k, s)

def Task.answered {Conn : Type} : Except ServerError Registration → Option (Task Conn)
  | .ok registration => some (.sending registration.tokenId registration.sessionId)
  | .error _ => none

abbrev TaskId := Nat

/-- The shared state, the task that keeps its lock across an await point, and all tasks. -/
structure Relay (Conn : Type) where
  server : ServerState Conn
  lock : Option TaskId
  tasks : KeyedMap TaskId (Task Conn)

namespace Relay

variable {Conn : Type}

def sessionIn (tasks : KeyedMap TaskId (Task Conn)) (i : TaskId) : Option (TokenId × SessionId) :=
  (tasks.lookup i).bind Task.session

/-- The session task `i` is responsible for. -/
def session (r : Relay Conn) (i : TaskId) : Option (TokenId × SessionId) := sessionIn r.tasks i

inductive Event (Conn : Type) where
  | reordered
  | arrived (i : TaskId)
  | began (i : TaskId)
  | refused (i : TaskId) (e : ServerError)
  | busy (i : TaskId)
  | registered (i : TaskId) (registration : Registration)
  | cancelled (i : TaskId)
  | sent (i : TaskId)
  | dropped (i j : TaskId)
  | closed (i : TaskId)
  | finished (i : TaskId) (answer : Except ServerError Bool)
  | rotated (i : TaskId) (old new : TunnelToken) (answer : Except ServerError (Option UInt16))
  | recovered (i : TaskId) (secret new : TunnelToken)
      (answer : Except ServerError (UInt16 × Option Conn))
  | refreshed (answer : Except ServerError Unit)

/-- The request moved the claim that `k` has in `r` to another token. -/
def Event.Recovers (sha256 : Bytes32 → Bytes32) (e : Event Conn) (r : Relay Conn) (k : TokenId) :
    Prop :=
  match e with
  | .recovered _ secret new (.ok _) => .fromToken sha256 new ≠ k ∧
    ∃ lease, r.server.leases.leases.lookup k = some lease ∧
      lease.recoveryId = some (.fromToken sha256 secret)
  | _ => False

def Event.Registers (e : Event Conn) (k : TokenId) : Prop :=
  match e with
  | .registered _ registration => registration.tokenId = k
  | _ => False

inductive Step (J : SerdeJson) (sha256 : Bytes32 → Bytes32) :
    Relay Conn → Event Conn → Relay Conn → Prop where
  -- the hash map presents the leases in another order
  | reorder {r : Relay Conn} {t : LeaseTable} : r.server.leases.Same t →
      r.server.leases.nextSessionId = t.nextSessionId →
      Step J sha256 r .reordered { r with server := { r.server with leases := t } }
  | arrive {r : Relay Conn} {i : TaskId} {peerIp : IpAddr} {connection : Conn}
      {message : ControlMessage} {request : Request} : r.tasks.lookup i = none →
      Request.ofMessage message = some request →
      Step J sha256 r (.arrived i)
        { r with tasks := r.tasks.insert i (.waiting peerIp connection request) }
  | begin {r : Relay Conn} {i : TaskId} {peerIp : IpAddr} {connection : Conn}
      {token : TunnelToken} {recoveryId : Bytes32} {now : UInt64} {candidates : List UInt16}
      {server : ServerState Conn} : r.lock = none →
      r.tasks.lookup i = some (.waiting peerIp connection (.register token recoveryId)) →
      r.server.beginRegistration sha256 token peerIp now = (.ok candidates, server) →
      Step J sha256 r (.began i)
        { server := server
          lock := some i
          tasks := r.tasks.insert i
            (.binding ⟨.fromToken sha256 token, some ⟨recoveryId⟩, peerIp, now, connection⟩
              candidates) }
  | refuse {r : Relay Conn} {i : TaskId} {peerIp : IpAddr} {connection : Conn}
      {token : TunnelToken} {recoveryId : Bytes32} {now : UInt64} {e : ServerError}
      {server : ServerState Conn} : r.lock = none →
      r.tasks.lookup i = some (.waiting peerIp connection (.register token recoveryId)) →
      r.server.beginRegistration sha256 token peerIp now = (.error e, server) →
      Step J sha256 r (.refused i e) { r with server := server, tasks := r.tasks.erase i }
  | busy {r : Relay Conn} {i : TaskId} {reg : Registering Conn} {port : UInt16}
      {rest : List UInt16} : r.tasks.lookup i = some (.binding reg (port :: rest)) →
      Step J sha256 r (.busy i) { r with tasks := r.tasks.insert i (.binding reg rest) }
  | exhaust {r : Relay Conn} {i : TaskId} {reg : Registering Conn} :
      r.tasks.lookup i = some (.binding reg []) →
      Step J sha256 r (.refused i .noBindablePort)
        { r with lock := none, tasks := r.tasks.erase i }
  | bindFail {r : Relay Conn} {i : TaskId} {reg : Registering Conn} {port : UInt16}
      {rest : List UInt16} : r.tasks.lookup i = some (.binding reg (port :: rest)) →
      Step J sha256 r (.refused i .bind) { r with lock := none, tasks := r.tasks.erase i }
  -- bound and committed: the guard is created before the task is suspended again
  | register {r : Relay Conn} {i : TaskId} {reg : Registering Conn} {port : UInt16}
      {rest : List UInt16} {io : SaveOutcome} {registration : Registration}
      {server : ServerState Conn} : r.tasks.lookup i = some (.binding reg (port :: rest)) →
      r.server.commitRegistration J reg.tokenId reg.recoveryId reg.peerIp reg.now
        (some reg.connection) port io = (.ok registration, server) →
      Step J sha256 r (.registered i registration)
        { server := server
          lock := none
          tasks := r.tasks.insert i (.sending registration.tokenId registration.sessionId) }
  | commitFail {r : Relay Conn} {i : TaskId} {reg : Registering Conn} {port : UInt16}
      {rest : List UInt16} {io : SaveOutcome} {e : ServerError} {server : ServerState Conn} :
      r.tasks.lookup i = some (.binding reg (port :: rest)) →
      r.server.commitRegistration J reg.tokenId reg.recoveryId reg.peerIp reg.now
        (some reg.connection) port io = (.error e, server) →
      Step J sha256 r (.refused i e)
        { server := server, lock := none, tasks := r.tasks.erase i }
  -- the timeout, before the task has the lock or under it
  | cancelWaiting {r : Relay Conn} {i : TaskId} {peerIp : IpAddr} {connection : Conn}
      {request : Request} : r.tasks.lookup i = some (.waiting peerIp connection request) →
      Step J sha256 r (.cancelled i) { r with tasks := r.tasks.erase i }
  | cancelBinding {r : Relay Conn} {i : TaskId} {reg : Registering Conn}
      {candidates : List UInt16} : r.tasks.lookup i = some (.binding reg candidates) →
      Step J sha256 r (.cancelled i) { r with lock := none, tasks := r.tasks.erase i }
  | sent {r : Relay Conn} {i : TaskId} {k : TokenId} {s : SessionId} :
      r.tasks.lookup i = some (.sending k s) →
      Step J sha256 r (.sent i) { r with tasks := r.tasks.insert i (.tunnel k s) }
  -- the timeout or an error drops the armed guard, which spawns a task
  | drop {r : Relay Conn} {i j : TaskId} {k : TokenId} {s : SessionId} :
      r.tasks.lookup i = some (.sending k s) → r.tasks.lookup j = none →
      Step J sha256 r (.dropped i j)
        { r with tasks := AList.insert j (.cleanup k s) (r.tasks.erase i) }
  | close {r : Relay Conn} {i : TaskId} {k : TokenId} {s : SessionId} :
      r.tasks.lookup i = some (.tunnel k s) →
      Step J sha256 r (.closed i) { r with tasks := r.tasks.insert i (.closing k s) }
  | finish {r : Relay Conn} {i : TaskId} {k : TokenId} {s : SessionId} {now : UInt64}
      {io : SaveOutcome} {answer : Except ServerError Bool} {server : ServerState Conn} :
      r.lock = none →
      r.tasks.lookup i = some (.closing k s) ∨ r.tasks.lookup i = some (.cleanup k s) →
      r.server.endSession J k s now io = (answer, server) →
      Step J sha256 r (.finished i answer) { r with server := server, tasks := r.tasks.erase i }
  | rotate {r : Relay Conn} {i : TaskId} {peerIp : IpAddr} {connection : Conn}
      {old new : TunnelToken} {now : UInt64} {io : SaveOutcome}
      {answer : Except ServerError (Option UInt16)} {server : ServerState Conn} : r.lock = none →
      r.tasks.lookup i = some (.waiting peerIp connection (.rotate old new)) →
      r.server.rotate J sha256 old new now io = (answer, server) →
      Step J sha256 r (.rotated i old new answer)
        { r with server := server, tasks := r.tasks.erase i }
  | recover {r : Relay Conn} {i : TaskId} {peerIp : IpAddr} {connection : Conn}
      {secret new : TunnelToken} {now : UInt64} {io : SaveOutcome}
      {answer : Except ServerError (UInt16 × Option Conn)} {server : ServerState Conn} :
      r.lock = none →
      r.tasks.lookup i = some (.waiting peerIp connection (.recover secret new)) →
      r.server.recover J sha256 secret new peerIp now io = (answer, server) →
      Step J sha256 r (.recovered i secret new answer)
        { r with server := server, tasks := r.tasks.erase i }
  -- the tick of the relay's loop
  | refresh {r : Relay Conn} {now : UInt64} {io : SaveOutcome}
      {answer : Except ServerError Unit} {server : ServerState Conn} : r.lock = none →
      r.server.refreshAndSave J now io = (answer, server) →
      Step J sha256 r (.refreshed answer) { r with server := server }

/-- The relay has just been started on some state file. -/
def Started (J : SerdeJson) (sha256 : Bytes32 → Bytes32) (r : Relay Conn) : Prop :=
  r.lock = none ∧ r.tasks = ∅ ∧
    ∃ store now io, (ServerState.loadOrNew J sha256 store now io).1 = .ok r.server

abbrev Reachable (J : SerdeJson) (sha256 : Bytes32 → Bytes32) : Relay Conn → Prop :=
  Trace.Reached (Started J sha256) (Step J sha256)

section

variable {J : SerdeJson} {sha256 : Bytes32 → Bytes32} {r r' : Relay Conn} {e : Event Conn}
  {tasks : KeyedMap TaskId (Task Conn)} {task : Task Conn} {i j l : TaskId} {k : TokenId}
  {s : SessionId}

theorem sessionIn_insert : sessionIn (AList.insert i task tasks) l =
    if l = i then task.session else sessionIn tasks l := by
  unfold sessionIn
  rw [KeyedMap.lookup_insert]
  split <;> rfl

theorem sessionIn_erase : sessionIn (AList.erase i tasks) l =
    if l = i then none else sessionIn tasks l := by
  unfold sessionIn
  rw [KeyedMap.lookup_erase]
  split <;> rfl

theorem sessionIn_of_lookup (h : tasks.lookup i = some task) :
    sessionIn tasks i = task.session := by
  simp only [sessionIn, h, Option.bind_some]

/-- A task goes on with the session it had. -/
theorem sessionIn_insert_same {task' : Task Conn} (h : tasks.lookup i = some task')
    (hs : task.session = task'.session) :
    sessionIn (AList.insert i task tasks) l = sessionIn tasks l := by
  rw [sessionIn_insert]
  split
  · rename_i hl
    rw [hl, sessionIn_of_lookup h, hs]
  · rfl

/-- A task without a session starts. -/
theorem sessionIn_insert_new (h : tasks.lookup i = none) (hs : task.session = none) :
    sessionIn (AList.insert i task tasks) l = sessionIn tasks l := by
  rw [sessionIn_insert]
  split
  · rename_i hl
    rw [hl, hs, sessionIn, h, Option.bind_none]
  · rfl

theorem sessionIn_erase_same (h : tasks.lookup i = some task) (hs : task.session = none) :
    sessionIn (AList.erase i tasks) l = sessionIn tasks l := by
  rw [sessionIn_erase]
  split
  · rename_i hl
    rw [hl, sessionIn_of_lookup h, hs]
  · rfl

/-- The steps of a registration that binds, with nothing in between, are the loop of
`register_with_recovery`. -/
theorem registerLoop_steps {reg : Registering Conn} {bind : UInt16 → BindOutcome}
    {io : SaveOutcome} {answer : Except ServerError Registration} {server : ServerState Conn}
    {ports : List UInt16} (hi : r.tasks.lookup i = some (.binding reg ports))
    (h : r.server.registerLoop J reg.tokenId reg.recoveryId reg.peerIp reg.now
      (some reg.connection) bind io ports = (answer, server)) :
    ∃ es r', Trace (Step J sha256) r es r' ∧ r'.server = server ∧ r'.lock = none ∧
      r'.tasks.lookup i = Task.answered answer := by
  induction ports generalizing r with
  | nil =>
    cases h
    exact ⟨_, _, .single (.exhaust hi), rfl, rfl, AList.lookup_erase _ _⟩
  | cons port rest ih =>
    unfold ServerState.registerLoop at h
    split at h
    · obtain ⟨es, r', ht, hr⟩ := ih (r := { r with tasks := r.tasks.insert i (.binding reg rest) })
        (AList.lookup_insert _) h
      exact ⟨_, r', .cons (.busy hi) ht, hr⟩
    · cases h
      exact ⟨_, _, .single (.bindFail hi), rfl, rfl, AList.lookup_erase _ _⟩
    · cases answer with
      | error e =>
        exact ⟨_, _, .single (.commitFail hi h), rfl, rfl, AList.lookup_erase _ _⟩
      | ok registration =>
        exact ⟨_, _, .single (.register hi h), rfl, rfl, AList.lookup_insert _⟩

/-! ## What a step can do -/

inductive Moves (J : SerdeJson) (r r' : Relay Conn) : Event Conn → Prop where
  | quiet {e : Event Conn} : r.server.leases.Calms r'.server.leases →
      (∀ l, r'.session l = r.session l) → Moves J r r' e
  | hands {i j : TaskId} {p : TokenId × SessionId} : r'.server = r.server → r.session i = some p →
      r.session j = none →
      (∀ l, r'.session l = if l = j then some p else if l = i then none else r.session l) →
      Moves J r r' (.dropped i j)
  | opens {i : TaskId} {registration : Registration} : r.session i = none →
      r.server.leases.Opens r'.server.leases registration.tokenId registration.sessionId →
      (∀ l, r'.session l =
        if l = i then some (registration.tokenId, registration.sessionId) else r.session l) →
      Moves J r r' (.registered i registration)
  | ends {i : TaskId} {k : TokenId} {s : SessionId} {now : UInt64} {io : SaveOutcome}
      {answer : Except ServerError Bool} : r.session i = some (k, s) →
      r.server.endSession J k s now io = (answer, r'.server) →
      (∀ l, r'.session l = if l = i then none else r.session l) →
      Moves J r r' (.finished i answer)

open LeaseTable (Calms Opens)

theorem Step.moves (h : Step J sha256 r e r') : Moves J r r' e := by
  cases h with
  | reorder hs hn => exact .quiet (.same hs hn) fun _ => rfl
  | arrive hi _ =>
    exact .quiet (.refl _) fun _ => sessionIn_insert_new hi rfl
  | begin _ hi hb =>
    exact .quiet (ServerState.beginRegistration_calms hb) fun _ => sessionIn_insert_same hi rfl
  | refuse _ hi hb =>
    exact .quiet (ServerState.beginRegistration_calms hb) fun _ => sessionIn_erase_same hi rfl
  | busy hi =>
    exact .quiet (.refl _) fun _ => sessionIn_insert_same hi rfl
  | exhaust hi | bindFail hi | cancelWaiting hi | cancelBinding hi =>
    exact .quiet (.refl _) fun _ => sessionIn_erase_same hi rfl
  | register hi hc =>
    rcases ServerState.commitRegistration_cases hc with
      ⟨_, he, -⟩ | ⟨_, _, _, _, -, -, he, -⟩ | ⟨sessionId, hr, he⟩
    · cases he
    · cases he
    · cases he
      exact .opens (sessionIn_of_lookup hi) (.activate hr.activated) fun _ => sessionIn_insert
  | commitFail hi hc =>
    exact .quiet (ServerState.commitRegistration_error_calms hc) fun _ =>
      sessionIn_erase_same hi rfl
  | sent hi | close hi =>
    exact .quiet (.refl _) fun _ => sessionIn_insert_same hi rfl
  | drop hi hj =>
    refine .hands rfl (sessionIn_of_lookup hi) ?_ fun _ => ?_
    · simp only [session, sessionIn, hj, Option.bind_none]
    · simp only [session, sessionIn_insert, sessionIn_erase]
      rfl
  | finish _ hi he =>
    refine .ends ?_ he fun _ => sessionIn_erase
    rcases hi with hi | hi
    · exact sessionIn_of_lookup hi
    · exact sessionIn_of_lookup hi
  | rotate _ hi hr =>
    exact .quiet (ServerState.rotate_calms hr) fun _ => sessionIn_erase_same hi rfl
  | recover _ hi hr =>
    exact .quiet (ServerState.recover_calms hr) fun _ => sessionIn_erase_same hi rfl
  | refresh _ hr =>
    obtain ⟨hl, -, -⟩ := ServerState.refreshAndSave_cases hr
    exact .quiet (by rw [hl]; exact .reapExpired) fun _ => rfl

/-! ## Every active session has one task to end it -/

structure Owned (r : Relay Conn) : Prop where
  wellFormed : r.server.leases.WellFormed
  issued : ∀ {i k s}, r.session i = some (k, s) → s.value ≤ r.server.leases.nextSessionId
  unique : ∀ {i j k k' s}, r.session i = some (k, s) → r.session j = some (k', s) → i = j
  responsible : ∀ {k s}, r.server.leases.Active k s → ∃ i, r.session i = some (k, s)

theorem Owned.quiet (h : Owned r) (hc : Calms r.server.leases r'.server.leases)
    (hs : ∀ l, r'.session l = r.session l) : Owned r' where
  wellFormed := hc.wellFormed h.wellFormed
  issued hi := by
    rw [hs] at hi
    rw [hc.counter]
    exact h.issued hi
  unique hi hj := by
    rw [hs] at hi hj
    exact h.unique hi hj
  responsible ha := by
    obtain ⟨i, hi⟩ := h.responsible (hc.active ha)
    exact ⟨i, by rw [hs]; exact hi⟩

theorem Owned.hands {p : TokenId × SessionId} (h : Owned r) (hserver : r'.server = r.server)
    (hi : r.session i = some p) (hj : r.session j = none)
    (hs : ∀ l, r'.session l = if l = j then some p else if l = i then none else r.session l) :
    Owned r' := by
  -- a session of the new state is the guard's, now the cleanup task's, or was there before
  have origin : ∀ {l k s}, r'.session l = some (k, s) →
      (l = j ∧ p = (k, s)) ∨ (l ≠ i ∧ r.session l = some (k, s)) := by
    intro l k s hl
    rw [hs] at hl
    split at hl
    · exact .inl ⟨‹_›, Option.some.inj hl⟩
    · split at hl
      · cases hl
      · exact .inr ⟨‹_›, hl⟩
  constructor
  · rw [hserver]; exact h.wellFormed
  · intro l k s hl
    rw [hserver]
    rcases origin hl with ⟨-, rfl⟩ | ⟨-, hl⟩
    · exact h.issued hi
    · exact h.issued hl
  · intro l m k k' s hl hm
    rcases origin hl with ⟨rfl, rfl⟩ | ⟨hli, hl⟩ <;> rcases origin hm with ⟨rfl, hp⟩ | ⟨hmi, hm⟩
    · rfl
    · exact absurd (h.unique hm hi) hmi
    · rw [hp] at hi
      exact absurd (h.unique hl hi) hli
    · exact h.unique hl hm
  · intro k s ha
    rw [hserver] at ha
    obtain ⟨l, hl⟩ := h.responsible ha
    by_cases hli : l = i
    · rw [hli, hi] at hl
      exact ⟨j, by rw [hs, if_pos rfl, hl]⟩
    · have hlj : l ≠ j := by
        rintro rfl
        rw [hj] at hl; cases hl
      exact ⟨l, by rw [hs, if_neg hlj, if_neg hli]; exact hl⟩

theorem Owned.opens (h : Owned r) (hi : r.session i = none)
    (ho : r.server.leases.Opens r'.server.leases k s)
    (hs : ∀ l, r'.session l = if l = i then some (k, s) else r.session l) : Owned r' := by
  have hlt := ho.fresh
  have origin : ∀ {l k' s'}, r'.session l = some (k', s') →
      (l = i ∧ k' = k ∧ s' = s) ∨ (r.session l = some (k', s') ∧ s' ≠ s) := by
    intro l k' s' hl
    rw [hs] at hl
    split at hl
    · cases hl; exact .inl ⟨‹_›, rfl, rfl⟩
    · refine .inr ⟨hl, ?_⟩
      rintro rfl
      have := h.issued hl
      grind
  constructor
  · exact ho.wellFormed h.wellFormed
  · intro l k' s' hl
    rw [ho.counter]
    rcases origin hl with ⟨-, -, rfl⟩ | ⟨hl, -⟩
    · exact UInt64.le_rfl
    · have := h.issued hl
      grind
  · intro l m k₁ k₂ s' hl hm
    rcases origin hl with ⟨rfl, -, rfl⟩ | ⟨hl, hne⟩ <;>
      rcases origin hm with ⟨rfl, -, he⟩ | ⟨hm, hne'⟩
    · rfl
    · exact absurd rfl hne'
    · exact absurd he hne
    · exact h.unique hl hm
  · intro k' s' ha
    rcases ho.active ha with ⟨rfl, rfl⟩ | ⟨-, ha⟩
    · exact ⟨i, by rw [hs, if_pos rfl]⟩
    · obtain ⟨l, hl⟩ := h.responsible ha
      have hli : l ≠ i := by
        rintro rfl
        rw [hi] at hl; cases hl
      exact ⟨l, by rw [hs, if_neg hli]; exact hl⟩

/-- An ended session is active nowhere: it was no other token's. -/
theorem Owned.ended {now : UInt64} {io : SaveOutcome} {answer : Except ServerError Bool}
    {server : ServerState Conn} (h : Owned r) (hi : r.session i = some (k, s))
    (he : r.server.endSession J k s now io = (answer, server)) (k' : TokenId) :
    ¬server.leases.Active k' s := by
  intro ha
  obtain ⟨j, hj⟩ := h.responsible ((ServerState.endSession_calms he).active ha)
  obtain rfl := h.unique hi hj
  rw [hi] at hj
  cases hj
  by_cases hk : r.server.leases.Active k s
  · exact (ServerState.endSession_of_active hk he).2 ha
  · rw [ServerState.endSession_of_inactive hk] at he
    cases he
    exact hk ha

theorem Owned.ends {now : UInt64} {io : SaveOutcome} {answer : Except ServerError Bool}
    (h : Owned r) (hi : r.session i = some (k, s))
    (he : r.server.endSession J k s now io = (answer, r'.server))
    (hs : ∀ l, r'.session l = if l = i then none else r.session l) : Owned r' := by
  have hc := ServerState.endSession_calms he
  have origin : ∀ {l p}, r'.session l = some p → r.session l = some p := by
    intro l p hl
    rw [hs] at hl
    split at hl
    · cases hl
    · exact hl
  constructor
  · exact hc.wellFormed h.wellFormed
  · intro l k' s' hl
    rw [hc.counter]
    exact h.issued (origin hl)
  · intro l m k₁ k₂ s' hl hm
    exact h.unique (origin hl) (origin hm)
  · intro k' s' ha
    obtain ⟨l, hl⟩ := h.responsible (hc.active ha)
    have hli : l ≠ i := by
      rintro rfl
      rw [hi] at hl
      cases hl
      exact h.ended hi he _ ha
    exact ⟨l, by rw [hs, if_neg hli]; exact hl⟩

theorem Step.owned (h : Owned r) (hs : Step J sha256 r e r') : Owned r' := by
  cases hs.moves with
  | quiet hc hsame => exact h.quiet hc hsame
  | hands hserver hi hj hsess => exact h.hands hserver hi hj hsess
  | opens hi ho hsess => exact h.opens hi ho hsess
  | ends hi he hsess => exact h.ends hi he hsess

theorem Started.owned (h : Started J sha256 r) : Owned r := by
  obtain ⟨-, htasks, store, now, io, hload⟩ := h
  have hnone : ∀ i, r.session i = none := by
    intro i
    simp only [session, sessionIn, htasks, AList.lookup_empty, Option.bind_none]
  obtain ⟨hw, hinactive, -⟩ := ServerState.loadOrNew_ok hload
  constructor
  · exact hw
  · intro i k s hi
    rw [hnone] at hi; cases hi
  · intro i j k k' s hi
    rw [hnone] at hi; cases hi
  · intro k s ha
    exact absurd ha (hinactive k s)

theorem reachable_owned (h : Reachable J sha256 r) : Owned r :=
  h.invariant (fun _ => Started.owned) (fun _ _ _ hi hs => hs.owned hi)

/-! ## A cleanup that comes too late -/

/-- The session a registration returned. -/
def Event.issued : Event Conn → Option (TokenId × SessionId)
  | .registered _ registration => some (registration.tokenId, registration.sessionId)
  | _ => none

/-- Sessions are serial numbers for the tasks too. -/
theorem serial_step : Serial (Step J sha256) (fun r : Relay Conn => r.server.leases.lastSession)
    (fun r => r.server.leases.Active) Event.issued where
  calm hs hi := by
    cases hs.moves with
    | quiet hc _ => exact hc.serial
    | hands hserver _ _ _ =>
      rw [hserver]
      exact (Calms.refl _).serial
    | opens => cases hi
    | ends _ he _ => exact (ServerState.endSession_calms he).serial
  fresh hs hi := by
    cases hs with
    | register _ hc =>
      rcases ServerState.commitRegistration_cases hc with
        ⟨_, hr, -⟩ | ⟨_, _, _, _, -, -, hr, -⟩ | ⟨sessionId, hr, heq⟩
      · cases hr
      · cases hr
      · cases heq
        cases hi
        exact (Opens.activate hr.activated).serial
    | _ => cases hi

theorem Step.supersedes (h : Owned r) (hi : r.session i = some (k, s))
    (hs : Step J sha256 r e r') (he : e.Recovers sha256 r k ∨ e.Registers k) :
    ¬r'.server.leases.Active k s := by
  cases hs with
  | @recover i peerIp connection secret new now io answer server _ _ hr =>
    cases answer with
    | error e => rcases he with he | he <;> cases he
    | ok answer =>
      rcases he with ⟨hne, lease, hl, hk⟩ | he
      · exact ServerState.recover_inactive h.wellFormed hl hk hne hr
      · cases he
  | register hj hc =>
    rcases he with he | he
    · cases he
    · rcases ServerState.commitRegistration_cases hc with
        ⟨_, hr, -⟩ | ⟨_, _, _, _, -, -, hr, -⟩ | ⟨sessionId, hr, heq⟩
      · cases hr
      · cases hr
      · cases heq
        have ho := Opens.activate hr.activated
        have hn := h.issued hi
        have hlt := ho.fresh
        have he : _ = k := he
        rintro ha
        rcases ho.active ha with ⟨-, rfl⟩ | ⟨hne, -⟩
        · grind
        · exact hne he.symm
  | _ => rcases he with he | he <;> cases he

/-- **No active lease is orphaned.** In every reachable state each active session has exactly one
task that will end it. That task goes on with the session, or hands it to another task, until it
finishes, and then no lease is active in the session. When the claim was recovered or the token
registered again in between, finishing changes nothing. -/
theorem reachable_responsible (h : Reachable J sha256 r) :
    (∀ k s, r.server.leases.Active k s → ∃! i, r.session i = some (k, s)) ∧
      (∀ i k s e r', r.session i = some (k, s) → Step J sha256 r e r' →
        ((∃ answer, e = .finished i answer) ∧ ∀ k', ¬r'.server.leases.Active k' s) ∨
          ∃ j, r'.session j = some (k, s)) ∧
      ∀ i k s e r₁, r.session i = some (k, s) → Step J sha256 r e r₁ →
        e.Recovers sha256 r k ∨ e.Registers k → ∀ es r₂ j answer r₃,
          Trace (Step J sha256) r₁ es r₂ → r₂.session j = some (k, s) →
          Step J sha256 r₂ (.finished j answer) r₃ → r₃.server = r₂.server := by
  have ho := reachable_owned h
  refine ⟨?_, ?_, ?_⟩
  · intro k s ha
    obtain ⟨i, hi⟩ := ho.responsible ha
    exact ⟨i, hi, fun j hj => ho.unique hj hi⟩
  · intro i k s e r' hi hs
    cases hs.moves with
    | quiet _ hsame => exact .inr ⟨i, by rw [hsame]; exact hi⟩
    | @hands l m _ hserver hl hm hsess =>
      refine .inr ?_
      by_cases hil : i = l
      · rw [hil, hl] at hi
        exact ⟨m, by rw [hsess, if_pos rfl, hi]⟩
      · have him : i ≠ m := by
          rintro rfl
          rw [hm] at hi; cases hi
        exact ⟨i, by rw [hsess, if_neg him, if_neg hil]; exact hi⟩
    | @opens l _ hl _ hsess =>
      have hil : i ≠ l := by
        rintro rfl
        rw [hl] at hi; cases hi
      exact .inr ⟨i, by rw [hsess, if_neg hil]; exact hi⟩
    | @ends l _ _ _ _ answer hl he hsess =>
      by_cases hil : i = l
      · rw [hil, hl] at hi
        cases hi
        exact .inl ⟨⟨answer, by rw [hil]⟩, ho.ended hl he⟩
      · exact .inr ⟨i, by rw [hsess, if_neg hil]; exact hi⟩
  · intro i k s e r₁ hi hs he es r₂ j answer r₃ ht hj hf
    have hn : s ≤ r.server.leases.lastSession := LeaseTable.le_iff_value_le.mpr (ho.issued hi)
    have ha := serial_step.gone ht (hn.trans (serial_step.step_old hs).1) (hs.supersedes ho hi he)
    cases hf with
    | @finish _ k' s' _ _ _ server _ hl he =>
      have hsess : r₂.session j = some (k', s') := by
        rcases hl with hl | hl
        · exact sessionIn_of_lookup hl
        · exact sessionIn_of_lookup hl
      rw [hj] at hsess
      cases hsess
      rw [ServerState.endSession_of_inactive ha] at he
      cases he
      rfl

/-- The host of `sampleServer` sends its request and gets a port; then `TunnelReady` times out. -/
theorem reachable_responsible_one_host :
    ∃ r : Relay Unit, r.server.leases.Active ⟨sampleDigest⟩ ⟨1⟩ ∧
      ∃! i, r.session i = some (⟨sampleDigest⟩, ⟨1⟩) := by
  have h₀ : Reachable sampleJson (fun _ => sampleDigest) ⟨ServerState.sampleServer, none, ∅⟩ :=
    .of_init ⟨rfl, rfl, ⟨none, .absent⟩, 0, ⟨.created, .saved, .saved⟩, rfl⟩
  obtain ⟨rest, hb⟩ : ∃ rest, ServerState.sampleServer.beginRegistration (fun _ => sampleDigest)
      (.replicate 32 7) sampleIp 1000 = (.ok (10000 :: rest), ServerState.sampleServer) := ⟨_, rfl⟩
  obtain ⟨server, hc, -, htable⟩ := ServerState.sample_commit (some ())
  have h₁ := h₀.next (@Step.arrive _ _ _ _ 0 sampleIp ()
    (.register .tcp 25565 (.replicate 32 7) (.replicate 32 8)) _ rfl rfl)
  have h₂ := h₁.next (.begin rfl (AList.lookup_insert _) hb)
  have h₃ := h₂.next (.register (AList.lookup_insert _) hc)
  have h₄ := h₃.next (.drop (j := 1) (AList.lookup_insert _) rfl)
  have ha : server.leases.Active ⟨sampleDigest⟩ ⟨1⟩ := by
    rw [htable]
    exact ⟨_, rfl, rfl⟩
  exact ⟨_, ha, (reachable_responsible h₄).1 _ _ ha⟩

end

end Relay
end GameNet
