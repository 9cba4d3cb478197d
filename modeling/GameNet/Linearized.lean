import GameNet.PortScan
import GameNet.Registration
import GameNet.Registry

/-!
# GameNet.Linearized

The tasks of the relay are interleaved at every await point, and a registration is suspended at each
port it tries to bind, with the lock in its hands. The shared state changes as if whole operations
were done one at a time (`linearized`). A registration takes place when it is answered; one that is
cancelled while it binds does what one does that cannot bind.

`Linear` relates a state of the tasks to the state of such a run. While the lock is free the two
are equal, up to the iteration order of the leases. While a registration holds the lock, the run is
at the state before it, and `Begun` says how far it has come from there.
-/

namespace GameNet

/-- The order of the records is lost in a save. -/
theorem LeaseStore.save_perm {records records' : List LeaseRecord}
    (hv : LeaseTable.Valid records) (hp : records.Perm records') (J : SerdeJson)
    (store : LeaseStore) (io : SaveOutcome) :
    store.save J records io = store.save J records' io := by
  have hports : (records.map LeaseRecord.port).Nodup := by
    rw [List.map_eq_flatMap]
    exact hv.ports
  have hsort : (records.map PersistedLease.fromRecord).mergeSort
        (fun a b => decide (a.port ≤ b.port)) =
      (records'.map PersistedLease.fromRecord).mergeSort
        fun a b => decide (a.port ≤ b.port) := by
    have hsorted : ∀ leases : List PersistedLease,
        (leases.mergeSort fun a b => decide (a.port ≤ b.port)).Pairwise fun a b =>
          decide (a.port ≤ b.port) = true :=
      List.pairwise_mergeSort (by grind) (by grind)
    refine List.Perm.eq_of_pairwise ?_ (hsorted _) (hsorted _) ?_
    · intro a b ha hb hab hba
      rw [List.mem_mergeSort] at ha hb
      obtain ⟨r, hr, rfl⟩ := List.mem_map.mp ha
      obtain ⟨r', hr', rfl⟩ := List.mem_map.mp hb
      have hport : r.port = r'.port :=
        UInt16.le_antisymm (of_decide_eq_true hab) (of_decide_eq_true hba)
      rw [List.inj_on_of_nodup_map hports hr (hp.mem_iff.mpr hr') hport]
    · exact ((List.mergeSort_perm _ _).trans (hp.map _)).trans (List.mergeSort_perm _ _).symm
  simp only [save, hsort]

namespace ServerState

variable {Conn : Type}

/-- The same state, with the leases in another iteration order. -/
structure Reordered (S S' : ServerState Conn) : Prop where
  leases : S.leases.Same S'.leases
  counter : S.leases.nextSessionId = S'.leases.nextSessionId
  store : S.store = S'.store
  persistenceHealthy : S.persistenceHealthy = S'.persistenceHealthy
  activeConnections : S.activeConnections = S'.activeConnections

variable {J : SerdeJson} {sha256 : Bytes32 → Bytes32} {S S' S'' T : ServerState Conn}
  {now : UInt64} {io : SaveOutcome}

namespace Reordered

theorem refl (S : ServerState Conn) : S.Reordered S := ⟨.refl _, rfl, rfl, rfl, rfl⟩

theorem trans (h : S.Reordered S') (h' : S'.Reordered S'') : S.Reordered S'' where
  leases := h.leases.trans h'.leases
  counter := h.counter.trans h'.counter
  store := h.store.trans h'.store
  persistenceHealthy := h.persistenceHealthy.trans h'.persistenceHealthy
  activeConnections := h.activeConnections.trans h'.activeConnections

theorem eq_with (h : S.Reordered S') : S' = { S with leases := S'.leases } := by
  obtain ⟨-, -, hs, hp, hc⟩ := h
  cases S
  cases S'
  cases hs
  cases hp
  cases hc
  rfl

/-- An operation may find the leases in any order. -/
theorem serves {op : Op Conn} {outcome : Outcome Conn} (h : S.Reordered S')
    (hp : perform J sha256 S' now io op = (outcome, T)) :
    Serves J sha256 S ⟨op, now, io, outcome⟩ T :=
  .mk h.leases h.counter (h.eq_with ▸ hp)

theorem begins (h : S.Reordered S') (sha256 : Bytes32 → Bytes32) (token : TunnelToken)
    (peerIp : IpAddr) (now : UInt64) :
    (S.beginRegistration sha256 token peerIp now).1 =
        (S'.beginRegistration sha256 token peerIp now).1 ∧
      (S.beginRegistration sha256 token peerIp now).2.Reordered
        (S'.beginRegistration sha256 token peerIp now).2 := by
  have hc : LeaseTable.Agree (S.leases.candidatePorts (.fromToken sha256 token) peerIp now)
      (S'.leases.candidatePorts (.fromToken sha256 token) peerIp now) := h.leases.candidatePorts
  have hn : (S.leases.reapExpired now).nextSessionId = (S'.leases.reapExpired now).nextSessionId :=
    h.counter
  obtain ⟨hanswer, htable⟩ := hc
  simp only [LeaseTable.candidatePorts_eq] at hanswer htable
  simp only [beginRegistration, ← h.persistenceHealthy, LeaseTable.candidatePorts_eq, ← hanswer]
  split
  · exact ⟨rfl, h⟩
  · cases (S.leases.reapExpired now).offer (.fromToken sha256 token) peerIp with
    | error e => exact ⟨rfl, htable, hn, h.store, rfl, h.activeConnections⟩
    | ok ports => exact ⟨rfl, htable, hn, h.store, rfl, h.activeConnections⟩

theorem commit (h : S.Reordered S') (hw : S'.leases.WellFormed) (tokenId : TokenId)
    (recoveryId : Option TokenId) (peerIp : IpAddr) (now : UInt64) (connection : Option Conn)
    (port : UInt16) (io : SaveOutcome) :
    (S.commitRegistration J tokenId recoveryId peerIp now connection port io).1 =
        (S'.commitRegistration J tokenId recoveryId peerIp now connection port io).1 ∧
      (S.commitRegistration J tokenId recoveryId peerIp now connection port io).2.Reordered
        (S'.commitRegistration J tokenId recoveryId peerIp now connection port io).2 := by
  obtain ⟨hanswer, htable⟩ : LeaseTable.Agree
      (S.leases.activateWithRecovery tokenId recoveryId peerIp port now)
      (S'.leases.activateWithRecovery tokenId recoveryId peerIp port now) :=
    h.leases.activateWithRecovery h.counter
  unfold commitRegistration
  cases hact : S.leases.activateWithRecovery tokenId recoveryId peerIp port now with
  | mk r staged =>
    cases hact' : S'.leases.activateWithRecovery tokenId recoveryId peerIp port now with
    | mk r' staged' =>
      rw [hact, hact'] at hanswer htable
      obtain rfl : r = r' := hanswer
      have htable : staged.Same staged' := htable
      cases r with
      | error e => exact ⟨rfl, h⟩
      | ok sessionId =>
        have hw' : staged'.WellFormed := hw.activateWithRecovery hact'
        have hcounter : staged.nextSessionId = staged'.nextSessionId := by
          rw [(LeaseTable.Opens.activate hact).counter, (LeaseTable.Opens.activate hact').counter]
        have hsave : S.store.save J (staged.snapshot now) io =
            S'.store.save J (staged'.snapshot now) io := by
          rw [h.store]
          exact (LeaseStore.save_perm (hw'.snapshot_valid now) (htable.symm.snapshot now) J _
            io).symm
        simp only [hsave, h.activeConnections]
        cases S'.store.save J (staged'.snapshot now) io with
        | mk saved store =>
          cases saved with
          | error e => exact ⟨rfl, h.leases, h.counter, rfl, rfl, rfl⟩
          | ok u =>
            exact ⟨rfl, htable, hcounter, rfl, h.persistenceHealthy, rfl⟩

end Reordered

section scan

variable {tokenId : TokenId} {recoveryId : Option TokenId} {peerIp : IpAddr}
  {connection : Option Conn} {bind : UInt16 → BindOutcome}

/-- Ports that are in use are passed over. -/
theorem registerLoop_append {tried ports : List UInt16} (h : ∀ p ∈ tried, bind p = .addrInUse) :
    S.registerLoop J tokenId recoveryId peerIp now connection bind io (tried ++ ports) =
      S.registerLoop J tokenId recoveryId peerIp now connection bind io ports := by
  induction tried with
  | nil => rfl
  | cons port rest ih =>
    obtain ⟨hport, hrest⟩ := List.forall_mem_cons.mp h
    rw [List.cons_append, registerLoop, hport]
    exact ih hrest

/-- A registration begins with the port of the token's lease, or with all free ports. -/
theorem ports_of_begin {token : TunnelToken} {ports : List UInt16}
    (h : (S.beginRegistration sha256 token peerIp now).1 = .ok ports) :
    (∃ port, ports = [port]) ∨ ports = (S.leases.reapExpired now).freePorts := by
  rcases beginRegistration_cases (Prod.ext h rfl : _ = (Except.ok ports, _)) with
    ⟨_, he, -⟩ | ⟨_, he, -, hoffer, -⟩
  · cases he
  · cases he
    rw [LeaseTable.candidatePorts_eq] at hoffer
    cases hl : (S.leases.reapExpired now).leases.lookup (.fromToken sha256 token) with
    | some lease => exact .inl ⟨lease.port, (LeaseTable.offer_reserved hl hoffer).2⟩
    | none => exact .inr (LeaseTable.offer_fresh hl hoffer)

/-- No port is offered twice. -/
theorem nodup_of_begin {token : TunnelToken} {ports : List UInt16}
    (h : (S.beginRegistration sha256 token peerIp now).1 = .ok ports) : ports.Nodup := by
  rcases ports_of_begin h with ⟨port, rfl⟩ | rfl
  · exact List.nodup_singleton _
  · exact LeaseTable.freePorts_sorted.imp UInt16.ne_of_lt

/-- The ports that are offered are no more than the pool has. -/
theorem length_of_begin {token : TunnelToken} {ports : List UInt16}
    (h : (S.beginRegistration sha256 token peerIp now).1 = .ok ports) : ports.length ≤ 1000 := by
  rcases ports_of_begin h with ⟨port, rfl⟩ | rfl
  · rw [List.length_singleton]
    omega
  · rw [← length_portPool]
    exact List.length_filter_le _ _

end scan
end ServerState

/-- What a task that binds is registering, and the ports it has left. -/
def Task.binding? {Conn : Type} : Task Conn → Option (Registering Conn × List UInt16)
  | .binding reg ports => some (reg, ports)
  | _ => none

namespace Relay

open ServerState (Reordered Relays Matches)

variable {Conn : Type}

/-! ## Registrations that have begun -/

/-- The registration has begun in `S`, has found all ports but `ports` in use, and has left the
state `server`. -/
structure Begun (sha256 : Bytes32 → Bytes32) (S : ServerState Conn) (reg : Registering Conn)
    (ports : List UInt16) (server : ServerState Conn) : Prop where
  begun : ∃ token tried, ∃ T : ServerState Conn, reg.tokenId = .fromToken sha256 token ∧
    S.beginRegistration sha256 token reg.peerIp reg.now = (.ok (tried ++ ports), T) ∧
    T.Reordered server
  recoveryId : ∃ bytes, reg.recoveryId = some ⟨bytes⟩

/-- The answer that an event gives. -/
def Event.answer : Event Conn → Option (ServerState.Outcome Conn)
  | .registered _ registration => some (.registered (.ok registration))
  | .refused _ e => some (.registered (.error e))
  | .finished _ answer => some (.ended answer)
  | .rotated _ _ _ answer => some (.rotated answer)
  | .recovered _ _ _ answer => some (.recovered answer)
  | .refreshed answer => some (.refreshed answer)
  | _ => none

/-- The operation is the one that the event completes. -/
def Event.Completes (sha256 : Bytes32 → Bytes32) : Event Conn → ServerState.Op Conn → Prop
  | .registered _ registration, .register token _ _ _ _ =>
    registration.tokenId = .fromToken sha256 token
  | .refused _ _, .register _ _ _ _ _ => True
  | .cancelled _, .register _ _ _ _ _ => True
  | .finished _ _, .endSession _ _ => True
  | .rotated _ old new _, .rotate old' new' => old' = old ∧ new' = new
  | .recovered _ secret new _, .recover secret' new' _ => secret' = secret ∧ new' = new
  | .refreshed _, .refreshAndSave => True
  | _, _ => False

/-- What is done one operation at a time, for an event of the tasks. -/
inductive Linearizes (sha256 : Bytes32 → Bytes32) :
    Event Conn → List (ServerState.Event Conn) → Prop where
  | silent {e : Event Conn} : e.answer = none → Linearizes sha256 e []
  | answered {e : Event Conn} {e' : ServerState.Event Conn} : e.answer = some e'.outcome →
      e.Completes sha256 e'.op → Linearizes sha256 e [e']
  /-- The lock was held: the operation fails. -/
  | cancelled {i : TaskId} {e' : ServerState.Event Conn} {error : ServerError} :
      e'.outcome = .registered (.error error) → Event.Completes sha256 (.cancelled i) e'.op →
      Linearizes sha256 (.cancelled i) [e']

section begun

variable {J : SerdeJson} {sha256 : Bytes32 → Bytes32} {i : TaskId} {reg : Registering Conn}
  {port : UInt16} {ports : List UInt16} {S server server' : ServerState Conn} {io : SaveOutcome}

theorem Begun.reordered (h : Begun sha256 S reg ports server) (hs : server.Reordered server') :
    Begun sha256 S reg ports server' := by
  obtain ⟨⟨token, tried, T, htoken, hbegin, hT⟩, hkey⟩ := h
  exact ⟨⟨token, tried, T, htoken, hbegin, hT.trans hs⟩, hkey⟩

/-- The first port is in use. -/
theorem Begun.busy (h : Begun sha256 S reg (port :: ports) server) :
    Begun sha256 S reg ports server := by
  obtain ⟨⟨token, tried, T, htoken, hbegin, hT⟩, hkey⟩ := h
  refine ⟨⟨token, tried ++ [port], T, htoken, ?_, hT⟩, hkey⟩
  rw [List.append_assoc]
  exact hbegin

/-- The registration as a whole, if the ports that are left go as `last` says. -/
theorem Begun.register (h : Begun sha256 S reg ports server) (last : BindOutcome)
    (io : SaveOutcome) :
    ∃ token bytes bind, ∃ T : ServerState Conn, reg.tokenId = .fromToken sha256 token ∧
      T.Reordered server ∧ (∀ port ∈ ports, bind port = last) ∧
      S.registerWithRecovery J sha256 token (some bytes) reg.peerIp reg.now (some reg.connection)
          bind io =
        T.registerLoop J reg.tokenId reg.recoveryId reg.peerIp reg.now (some reg.connection) bind io
          ports := by
  obtain ⟨⟨token, tried, T, htoken, hbegin, hT⟩, bytes, hbytes⟩ := h
  have hnodup : (tried ++ ports).Nodup := ServerState.nodup_of_begin (congrArg Prod.fst hbegin)
  let bind := fun port => if port ∈ tried then .addrInUse else last
  have hlast : ∀ port ∈ ports, bind port = last := fun port hp =>
    if_neg fun ht => (List.disjoint_of_nodup_append hnodup) ht hp
  refine ⟨token, bytes, bind, T, htoken, hT, hlast, ?_⟩
  simp only [ServerState.registerWithRecovery, hbegin, htoken, hbytes, Option.map_some]
  exact ServerState.registerLoop_append fun port hp => if_pos hp

/-- A registration that ends before a port is bound leaves the state as it is. -/
theorem Begun.fails (h : Begun sha256 S reg ports server) {error : ServerError}
    (he : (ports = [] ∧ error = .noBindablePort) ∨ (ports ≠ [] ∧ error = .bind)) :
    ∃ e T, e.outcome = .registered (.error error) ∧
      (∀ i, Event.Completes sha256 (.refused i error) e.op) ∧
      (∀ i, Event.Completes sha256 (.cancelled i) e.op) ∧ Relays J sha256 S e T ∧
      T.Reordered server := by
  obtain ⟨token, bytes, bind, T, -, hT, hbind, hr⟩ := h.register (J := J) .failed .saved
  have hloop : T.registerLoop J reg.tokenId reg.recoveryId reg.peerIp reg.now (some reg.connection)
      bind .saved ports = (.error error, T) := by
    rcases he with ⟨rfl, rfl⟩ | ⟨hne, rfl⟩
    · rfl
    · cases ports with
      | nil => exact absurd rfl hne
      | cons port rest =>
        rw [ServerState.registerLoop, hbind port List.mem_cons_self]
  have hp : ServerState.perform J sha256 S reg.now .saved
      (.register token (some bytes) reg.peerIp (some reg.connection) bind) =
        (.registered (.error error), T) := by
    simp only [ServerState.perform, hr, hloop]
  refine ⟨⟨.register token (some bytes) reg.peerIp (some reg.connection) bind, reg.now, .saved,
    .registered (.error error)⟩, T, rfl, ?_, ?_, ⟨(Reordered.refl S).serves hp, rfl⟩, hT⟩
  · exact fun _ => trivial
  · exact fun _ => trivial

/-- A registration that binds its next port and commits. -/
theorem Begun.commits {answer : Except ServerError Registration}
    (h : Begun sha256 S reg (port :: ports) server) (hw : server.leases.WellFormed)
    (hc : server.commitRegistration J reg.tokenId reg.recoveryId reg.peerIp reg.now
      (some reg.connection) port io = (answer, server')) :
    ∃ e T token, e.outcome = .registered answer ∧
      (∃ key ip connection bind, e.op = .register token key ip connection bind) ∧
      reg.tokenId = .fromToken sha256 token ∧ Relays J sha256 S e T ∧ T.Reordered server' := by
  obtain ⟨token, bytes, bind, T, htoken, hT, hbind, hr⟩ := h.register (J := J) .bound io
  obtain ⟨hanswer, hstate⟩ := hT.commit (J := J) hw reg.tokenId reg.recoveryId reg.peerIp reg.now
    (some reg.connection) port io
  rw [hc] at hanswer hstate
  have hp : ServerState.perform J sha256 S reg.now io
      (.register token (some bytes) reg.peerIp (some reg.connection) bind) =
        (.registered answer, (T.commitRegistration J reg.tokenId reg.recoveryId reg.peerIp reg.now
          (some reg.connection) port io).2) := by
    simp only [ServerState.perform, hr, ServerState.registerLoop, hbind port List.mem_cons_self,
      hanswer]
  exact ⟨_, _, token, rfl, ⟨_, _, _, _, rfl⟩, htoken, ⟨(Reordered.refl S).serves hp, rfl⟩, hstate⟩

theorem tokenId_of_commit {registration : Registration}
    (h : server.commitRegistration J reg.tokenId reg.recoveryId reg.peerIp reg.now
      (some reg.connection) port io = (.ok registration, server')) :
    registration.tokenId = reg.tokenId := by
  rcases ServerState.commitRegistration_cases h with
    ⟨_, he, -⟩ | ⟨_, _, _, _, -, -, he, -⟩ | ⟨sessionId, -, he⟩
  · cases he
  · cases he
  · cases he
    rfl

end begun

/-! ## The lock -/

def bindingIn (tasks : KeyedMap TaskId (Task Conn)) (i : TaskId) :
    Option (Registering Conn × List UInt16) :=
  (tasks.lookup i).bind Task.binding?

/-- The tasks are at `r`, and `S` is left of the operations that were done one at a time. -/
structure Linear (sha256 : Bytes32 → Bytes32) (r : Relay Conn) (S : ServerState Conn) : Prop where
  free : r.lock = none → S.Reordered r.server
  held : ∀ {i}, r.lock = some i → ∃ reg ports, bindingIn r.tasks i = some (reg, ports) ∧
    Begun sha256 S reg ports r.server
  binds : ∀ {i p}, bindingIn r.tasks i = some p → r.lock = some i

section linear

variable {J : SerdeJson} {sha256 : Bytes32 → Bytes32} {r r' : Relay Conn} {e : Event Conn}
  {tasks : KeyedMap TaskId (Task Conn)} {task : Task Conn} {i l : TaskId} {S T : ServerState Conn}
  {reg : Registering Conn} {ports : List UInt16}

theorem bindingIn_insert : bindingIn (AList.insert i task tasks) l =
    if l = i then task.binding? else bindingIn tasks l := by
  unfold bindingIn
  rw [KeyedMap.lookup_insert]
  split <;> rfl

theorem bindingIn_erase : bindingIn (AList.erase i tasks) l =
    if l = i then none else bindingIn tasks l := by
  unfold bindingIn
  rw [KeyedMap.lookup_erase]
  split <;> rfl

theorem bindingIn_of_lookup (h : tasks.lookup i = some task) :
    bindingIn tasks i = task.binding? := by
  simp only [bindingIn, h, Option.bind_some]

/-- A task that does not bind goes on. -/
theorem bindingIn_insert_none (h : bindingIn tasks i = none) (ht : task.binding? = none) :
    bindingIn (AList.insert i task tasks) l = bindingIn tasks l := by
  rw [bindingIn_insert]
  split
  · rename_i hl
    rw [hl, ht, h]
  · rfl

/-- A task that does not bind ends. -/
theorem bindingIn_erase_none (h : bindingIn tasks i = none) :
    bindingIn (AList.erase i tasks) l = bindingIn tasks l := by
  rw [bindingIn_erase]
  split
  · rename_i hl
    rw [hl, h]
  · rfl

theorem Linear.none_binds (h : Linear sha256 r S) (hl : r.lock = none) (i : TaskId) :
    bindingIn r.tasks i = none := by
  cases hb : bindingIn r.tasks i with
  | none => rfl
  | some p =>
    have hi := h.binds hb
    rw [hl] at hi
    cases hi

theorem Linear.only (h : Linear sha256 r S) (hi : bindingIn r.tasks i = some (reg, ports))
    (hl : l ≠ i) : bindingIn r.tasks l = none := by
  cases hb : bindingIn r.tasks l with
  | none => rfl
  | some p =>
    have hlock := h.binds hb
    rw [h.binds hi] at hlock
    exact absurd (Option.some.inj hlock).symm hl

/-- The registration that binds is the one that holds the lock. -/
theorem Linear.begun (h : Linear sha256 r S) (hi : bindingIn r.tasks i = some (reg, ports)) :
    Begun sha256 S reg ports r.server := by
  obtain ⟨reg', ports', hb, hbegun⟩ := h.held (h.binds hi)
  rw [hi] at hb
  cases hb
  exact hbegun

/-- A step that leaves the lock and those who bind alone. -/
theorem Linear.silent (h : Linear sha256 r S) (hlock : r'.lock = r.lock)
    (hserver : r.server.Reordered r'.server)
    (hb : ∀ l, bindingIn r'.tasks l = bindingIn r.tasks l) : Linear sha256 r' S where
  free hl := (h.free (hlock ▸ hl)).trans hserver
  held hl := by
    obtain ⟨reg, ports, hi, hbegun⟩ := h.held (hlock ▸ hl)
    exact ⟨reg, ports, by rw [hb]; exact hi, hbegun.reordered hserver⟩
  binds hi := by
    rw [hb] at hi
    rw [hlock]
    exact h.binds hi

/-- A step after which nobody holds the lock. -/
theorem Linear.unlocked (hlock : r'.lock = none) (hserver : T.Reordered r'.server)
    (hb : ∀ l, bindingIn r'.tasks l = none) : Linear sha256 r' T where
  free _ := hserver
  held hl := by
    rw [hlock] at hl
    cases hl
  binds hi := by
    rw [hb] at hi
    cases hi

/-- The holder of the lock ends its registration, and goes on as a task that binds nothing, or not
at all. -/
theorem Linear.released (h : Linear sha256 r S) (hi : bindingIn r.tasks i = some (reg, ports))
    (hlock : r'.lock = none) (hserver : T.Reordered r'.server)
    (htasks : r'.tasks = r.tasks.erase i ∨
      ∃ task, task.binding? = none ∧ r'.tasks = r.tasks.insert i task) : Linear sha256 r' T := by
  refine .unlocked hlock hserver fun l => ?_
  rcases htasks with htasks | ⟨task, ht, htasks⟩
  · rw [htasks, bindingIn_erase]
    split
    · rfl
    · exact h.only hi ‹_›
  · rw [htasks, bindingIn_insert]
    split
    · exact ht
    · exact h.only hi ‹_›

/-! ## Steps and runs -/

/-- While the lock is free, an operation finds the state of the run. -/
theorem Linear.relays {op : ServerState.Op Conn} {now : UInt64} {io : SaveOutcome}
    {outcome : ServerState.Outcome Conn} (h : Linear sha256 r S) (hl : r.lock = none)
    (hp : ServerState.perform J sha256 r.server now io op = (outcome, T))
    (hop : op.connected = true) : Relays J sha256 S ⟨op, now, io, outcome⟩ T :=
  ⟨(h.free hl).serves hp, hop⟩

/-- What an event of the tasks does is done by some operations, one at a time. -/
def Simulated (J : SerdeJson) (sha256 : Bytes32 → Bytes32) (S : ServerState Conn) (e : Event Conn)
    (r' : Relay Conn) : Prop :=
  ∃ segment T, Linearizes sha256 e segment ∧ Trace (Relays J sha256) S segment T ∧
    Linear sha256 r' T

theorem Linear.unanswered (h : Linear sha256 r' S) (he : e.answer = none) :
    Simulated J sha256 S e r' := ⟨[], S, .silent he, .refl, h⟩

/-- An operation that is done in one step, by a task that finds the lock free. -/
theorem Linear.performed {op : ServerState.Op Conn} {now : UInt64} {io : SaveOutcome}
    {outcome : ServerState.Outcome Conn} (h : Linear sha256 r S) (hl : r.lock = none)
    (hlock : r'.lock = none) (hp : ServerState.perform J sha256 r.server now io op =
      (outcome, r'.server)) (hop : op.connected = true) (he : e.answer = some outcome)
    (hc : e.Completes sha256 op) (hb : ∀ l, bindingIn r'.tasks l = bindingIn r.tasks l) :
    Simulated J sha256 S e r' :=
  ⟨_, _, .answered he hc, .single (h.relays hl hp hop),
    .unlocked hlock (.refl _) fun l => by rw [hb, h.none_binds hl]⟩

/-- A registration begins in the state of the run, and takes the lock. -/
theorem Linear.begins {token : TunnelToken} {bytes : Bytes32} {peerIp : IpAddr} {now : UInt64}
    {connection : Conn} {candidates : List UInt16} {server : ServerState Conn}
    (h : Linear sha256 r S) (hl : r.lock = none)
    (hb : r.server.beginRegistration sha256 token peerIp now = (.ok candidates, server)) :
    Linear sha256
      { server := server
        lock := some i
        tasks := r.tasks.insert i
          (.binding ⟨.fromToken sha256 token, some ⟨bytes⟩, peerIp, now, connection⟩ candidates) }
      S := by
  obtain ⟨hanswer, hstate⟩ := (h.free hl).begins sha256 token peerIp now
  rw [hb] at hanswer hstate
  obtain ⟨T, hT⟩ : ∃ T, S.beginRegistration sha256 token peerIp now = (.ok candidates, T) :=
    ⟨(S.beginRegistration sha256 token peerIp now).2, Prod.ext hanswer rfl⟩
  rw [hT] at hstate
  have hbegun : Begun sha256 S ⟨.fromToken sha256 token, some ⟨bytes⟩, peerIp, now, connection⟩
      candidates server := ⟨⟨token, [], T, rfl, hT, hstate⟩, bytes, rfl⟩
  refine ⟨nofun, ?_, ?_⟩
  · rintro l ⟨⟩
    exact ⟨_, _, by rw [bindingIn_insert, if_pos rfl]; rfl, hbegun⟩
  · intro l p hp
    rw [bindingIn_insert] at hp
    split at hp
    · exact congrArg some (Eq.symm ‹_›)
    · rw [h.none_binds hl] at hp
      cases hp

/-- The holder of the lock passes over a port that is in use. -/
theorem Linear.busy {port : UInt16} (h : Linear sha256 r S)
    (hi : bindingIn r.tasks i = some (reg, port :: ports)) :
    Linear sha256 { r with tasks := r.tasks.insert i (.binding reg ports) } S := by
  have hlock := h.binds hi
  refine ⟨?_, ?_, ?_⟩
  · intro hl
    have hl : r.lock = none := hl
    rw [hlock] at hl
    cases hl
  · intro l hl
    have hl : r.lock = some l := hl
    rw [hlock] at hl
    cases hl
    exact ⟨reg, ports, by rw [bindingIn_insert, if_pos rfl]; rfl, (h.begun hi).busy⟩
  · intro l p hp
    rw [bindingIn_insert] at hp
    split at hp
    · rename_i hl
      rw [hl]
      exact hlock
    · exact h.binds hp

/-- The registration that binds ends without a port, with an answer or by the timeout. -/
theorem Linear.fails {error : ServerError} (h : Linear sha256 r S)
    (hi : bindingIn r.tasks i = some (reg, ports))
    (hports : (ports = [] ∧ error = .noBindablePort) ∨ (ports ≠ [] ∧ error = .bind))
    (he : e = .refused i error ∨ e = .cancelled i) :
    Simulated J sha256 S e { r with lock := none, tasks := r.tasks.erase i } := by
  obtain ⟨e', T, hanswer, hrefused, hcancelled, hrelay, hT⟩ := (h.begun hi).fails (J := J) hports
  refine ⟨_, _, ?_, .single hrelay, h.released hi rfl hT (.inl rfl)⟩
  rcases he with rfl | rfl
  · exact .answered (congrArg some hanswer.symm) (hrefused i)
  · exact .cancelled hanswer (hcancelled i)

/-- The registration that binds has bound its next port, and is committed or not. -/
theorem Linear.commits {port : UInt16} {io : SaveOutcome} {server : ServerState Conn}
    {answer : Except ServerError Registration} (h : Linear sha256 r S) (ho : Owned r)
    (hi : bindingIn r.tasks i = some (reg, port :: ports))
    (hc : r.server.commitRegistration J reg.tokenId reg.recoveryId reg.peerIp reg.now
      (some reg.connection) port io = (answer, server))
    (he : (∃ error, answer = .error error ∧ e = .refused i error) ∨
      ∃ registration, answer = .ok registration ∧ e = .registered i registration)
    (hserver : r'.server = server) (hlock : r'.lock = none)
    (htasks : r'.tasks = r.tasks.erase i ∨
      ∃ task, task.binding? = none ∧ r'.tasks = r.tasks.insert i task) :
    Simulated J sha256 S e r' := by
  obtain ⟨e', T, token, hanswer, ⟨key, ip, connection, bind, hop⟩, htoken, hrelay, hT⟩ :=
    (h.begun hi).commits ho.wellFormed hc
  rw [← hserver] at hT
  refine ⟨_, _, ?_, .single hrelay, h.released hi hlock hT htasks⟩
  rcases he with ⟨error, rfl, rfl⟩ | ⟨registration, rfl, rfl⟩
  · refine .answered (congrArg some hanswer.symm) ?_
    rw [hop]
    trivial
  · refine .answered (congrArg some hanswer.symm) ?_
    rw [hop]
    exact (tokenId_of_commit hc).trans htoken

theorem Step.linear (h : Linear sha256 r S) (ho : Owned r) (hs : Step J sha256 r e r') :
    Simulated J sha256 S e r' := by
  -- a task that binds nothing goes on, or ends
  have hsilent : ∀ {tasks'}, (∀ l, bindingIn tasks' l = bindingIn r.tasks l) →
      Linear sha256 { r with tasks := tasks' } S := fun hb => h.silent rfl (.refl _) hb
  cases hs with
  | reorder hsame hn =>
    exact Linear.unanswered (h.silent rfl ⟨hsame, hn, rfl, rfl, rfl⟩ fun _ => rfl) rfl
  | @arrive i _ _ _ _ hi _ =>
    have hnone : bindingIn r.tasks i = none := by simp only [bindingIn, hi, Option.bind_none]
    exact (hsilent fun _ => bindingIn_insert_none hnone rfl).unanswered rfl
  | begin hl hi hb => exact (h.begins hl hb).unanswered rfl
  | @refuse i peerIp connection token recoveryId now error server hl hi hb =>
    have hp : ServerState.perform J sha256 r.server now .saved
        (.register token (some recoveryId) peerIp (some connection) fun _ => .failed) =
          (.registered (.error error), server) := by
      simp only [ServerState.perform, ServerState.registerWithRecovery, hb]
    exact h.performed hl hl hp rfl rfl trivial fun _ => bindingIn_erase_none (bindingIn_of_lookup hi)
  | busy hi => exact (h.busy (bindingIn_of_lookup hi)).unanswered rfl
  | exhaust hi => exact h.fails (bindingIn_of_lookup hi) (.inl ⟨rfl, rfl⟩) (.inl rfl)
  | bindFail hi =>
    exact h.fails (bindingIn_of_lookup hi) (.inr ⟨List.cons_ne_nil _ _, rfl⟩) (.inl rfl)
  | register hi hc =>
    exact h.commits ho (bindingIn_of_lookup hi) hc (.inr ⟨_, rfl, rfl⟩) rfl rfl (.inr ⟨_, rfl, rfl⟩)
  | commitFail hi hc =>
    exact h.commits ho (bindingIn_of_lookup hi) hc (.inl ⟨_, rfl, rfl⟩) rfl rfl (.inl rfl)
  | cancelWaiting hi =>
    exact (hsilent fun _ => bindingIn_erase_none (bindingIn_of_lookup hi)).unanswered rfl
  | @cancelBinding i reg ports hi =>
    obtain ⟨error, herror⟩ : ∃ error, (ports = [] ∧ error = ServerError.noBindablePort) ∨
        (ports ≠ [] ∧ error = .bind) := by
      by_cases hp : ports = []
      · exact ⟨_, .inl ⟨hp, rfl⟩⟩
      · exact ⟨_, .inr ⟨hp, rfl⟩⟩
    exact h.fails (bindingIn_of_lookup hi) herror (.inr rfl)
  | sent hi | close hi =>
    exact (hsilent fun _ => bindingIn_insert_none (bindingIn_of_lookup hi) rfl).unanswered rfl
  | @drop i j k s hi hj =>
    have hnone : bindingIn (r.tasks.erase i) j = none := by
      rw [bindingIn_erase]
      split
      · rfl
      · simp only [bindingIn, hj, Option.bind_none]
    refine (hsilent fun _ => ?_).unanswered rfl
    exact (bindingIn_insert_none hnone rfl).trans (bindingIn_erase_none (bindingIn_of_lookup hi))
  | @finish i k s now io answer server hl hi he =>
    have hnone : bindingIn r.tasks i = none := by
      rcases hi with hi | hi
      · exact bindingIn_of_lookup hi
      · exact bindingIn_of_lookup hi
    have hp : ServerState.perform J sha256 r.server now io (.endSession k s) =
        (.ended answer, server) := by
      simp only [ServerState.perform, he]
    exact h.performed hl hl hp rfl rfl trivial fun _ => bindingIn_erase_none hnone
  | @rotate i peerIp connection old new now io answer server hl hi hr =>
    have hp : ServerState.perform J sha256 r.server now io (.rotate old new) =
        (.rotated answer, server) := by
      simp only [ServerState.perform, hr]
    exact h.performed hl hl hp rfl rfl ⟨rfl, rfl⟩ fun _ =>
      bindingIn_erase_none (bindingIn_of_lookup hi)
  | @recover i peerIp connection secret new now io answer server hl hi hr =>
    have hp : ServerState.perform J sha256 r.server now io (.recover secret new peerIp) =
        (.recovered answer, server) := by
      simp only [ServerState.perform, hr]
    exact h.performed hl hl hp rfl rfl ⟨rfl, rfl⟩ fun _ =>
      bindingIn_erase_none (bindingIn_of_lookup hi)
  | @refresh now io answer server hl hr =>
    have hp : ServerState.perform J sha256 r.server now io .refreshAndSave =
        (.refreshed answer, server) := by
      simp only [ServerState.perform, hr]
    exact h.performed hl hl hp rfl rfl trivial fun _ => rfl

theorem Started.linear (h : Started J sha256 r) : Linear sha256 r r.server := by
  obtain ⟨hlock, htasks, -⟩ := h
  refine .unlocked hlock (.refl _) fun l => ?_
  rw [htasks]
  rfl

/-- A registration that has begun has dropped expired leases, and no more. -/
theorem Begun.idle (h : Begun sha256 S reg ports T) :
    (∀ k s, T.leases.Active k s ↔ S.leases.Active k s) ∧
      T.activeConnections = S.activeConnections := by
  obtain ⟨⟨token, tried, T₀, -, hbegin, hT⟩, -⟩ := h
  rcases ServerState.beginRegistration_cases hbegin with ⟨_, he, -⟩ | ⟨_, he, -, -, rfl⟩
  · cases he
  · refine ⟨fun k s => ?_, hT.activeConnections.symm⟩
    rw [← LeaseTable.Active.same hT.leases]
    exact LeaseTable.active_reapExpired

/-- The registry of connections is that of the operations done one at a time, and so is whether a
lease is active. -/
theorem Linear.idle (h : Linear sha256 r S) :
    (∀ k s, r.server.leases.Active k s ↔ S.leases.Active k s) ∧
      r.server.activeConnections = S.activeConnections := by
  cases hl : r.lock with
  | none =>
    have hserver := h.free hl
    exact ⟨fun k s => (LeaseTable.Active.same hserver.leases).symm,
      hserver.activeConnections.symm⟩
  | some i =>
    obtain ⟨reg, ports, -, hbegun⟩ := h.held hl
    exact hbegun.idle

theorem simulates_operations {r₀ : Relay Conn} {es : List (Event Conn)} (h₀ : Started J sha256 r₀)
    (h : Trace (Step J sha256) r₀ es r) :
    ∃ segments S, List.Forall₂ (Linearizes sha256) es segments ∧
      Trace (Relays J sha256) r₀.server segments.flatten S ∧ Linear sha256 r S := by
  have hsim : ∃ segments S, List.Forall₂ (Linearizes sha256) es segments ∧
      Trace (Relays J sha256) r₀.server segments.flatten S ∧ Linear sha256 r S ∧ Owned r := by
    refine h.simulates (R := fun r S => Linear sha256 r S ∧ Owned r) ?_ ⟨h₀.linear, h₀.owned⟩
    rintro r e r' S ⟨hlinear, howned⟩ hs
    obtain ⟨segment, T, hseg, ht, hlinear'⟩ := hs.linear hlinear howned
    exact ⟨segment, T, hseg, ht, hlinear', hs.owned howned⟩
  obtain ⟨segments, S, hseg, ht, hlinear, -⟩ := hsim
  exact ⟨segments, S, hseg, ht, hlinear⟩

theorem reachable_linear (h : Reachable J sha256 r) : ∃ S, Linear sha256 r S := by
  obtain ⟨r₀, es, h₀, ht⟩ := h
  obtain ⟨segments, S, -, -, hlinear⟩ := simulates_operations h₀ ht
  exact ⟨S, hlinear⟩

theorem lookup_of_bindingIn (h : bindingIn tasks i = some (reg, ports)) :
    tasks.lookup i = some (.binding reg ports) := by
  obtain ⟨task, hlookup, htask⟩ := Option.bind_eq_some_iff.mp h
  cases task with
  | binding reg' ports' =>
    cases htask
    exact hlookup
  | _ => cases htask

/-- **Registrations are atomic.** In every run of the relay's tasks, however they are interleaved
and cancelled, the shared state is that of a run of whole operations, one at a time and in the order
of their answers, which are the same. While the lock is free the two states differ in the iteration
order of the leases only; while it is held, by a registration that has begun in the state of that
run. So the registry of connections mirrors the active leases at every moment. -/
theorem linearized (J : SerdeJson) (sha256 : Bytes32 → Bytes32) (r₀ r : Relay Conn)
    (es : List (Event Conn)) (h₀ : Started J sha256 r₀) (h : Trace (Step J sha256) r₀ es r) :
    ∃ segments S, List.Forall₂ (Linearizes sha256) es segments ∧
      Trace (Relays J sha256) r₀.server segments.flatten S ∧
      (r.lock = none → S.Reordered r.server) ∧
      (∀ i, r.lock = some i → ∃ reg ports, r.tasks.lookup i = some (.binding reg ports) ∧
        Begun sha256 S reg ports r.server) ∧
      ∀ k s c, r.server.activeConnections.lookup k = some (s, c) ↔
        r.server.leases.Active k s ∧ ∃ e ∈ segments.flatten, e.Opened k s c := by
  obtain ⟨segments, S, hseg, ht, hlinear⟩ := simulates_operations h₀ h
  obtain ⟨hactive, hconnections⟩ := hlinear.idle
  refine ⟨segments, S, hseg, ht, hlinear.free, fun i hi => ?_, fun k s c => ?_⟩
  · obtain ⟨reg, ports, hbinds, hbegun⟩ := hlinear.held hi
    exact ⟨reg, ports, lookup_of_bindingIn hbinds, hbegun⟩
  · obtain ⟨_, _, _, hload⟩ := h₀.2.2
    have hloaded : ServerState.Loaded J sha256 r₀.server := ⟨_, _, _, hload⟩
    have hregistered := ServerState.registered_of_relays hloaded ht
    rw [hconnections, hactive]
    constructor
    · intro hl
      exact ⟨hregistered.consistent.active hl, hregistered.opened hl⟩
    · rintro ⟨ha, e, he, ho⟩
      obtain ⟨c', hl⟩ := hregistered.consistent.entry ha
      obtain ⟨e', he', ho'⟩ := hregistered.opened hl
      obtain rfl := ho.unique (ht.mono fun _ _ _ hs => hs.1) he he' ho'
      exact hl

/-- While the first host binds, two others arrive and one of them is timed out, waiting for the lock;
the other one is timed out when it binds after the first. -/
def contended : List (Event Unit) :=
  [.arrived 0, .began 0, .arrived 1, .arrived 2, .cancelled 1,
    .registered 0 ⟨10000, ⟨sampleDigest⟩, ⟨1⟩⟩, .began 2, .cancelled 2]

theorem linearized_contended : ∃ (r : Relay Unit) (segments : _) (S : ServerState Unit),
    List.Forall₂ (Linearizes sampleSha256) contended segments ∧
    Trace (Relays sampleJson sampleSha256) ServerState.sampleServer segments.flatten S ∧
    S.Reordered r.server := by
  have h₀ : Started sampleJson sampleSha256 ⟨ServerState.sampleServer, none, ∅⟩ :=
    ⟨rfl, rfl, ⟨none, .absent⟩, 0, ⟨.created, .saved, .saved⟩, rfl⟩
  obtain ⟨rest, hb⟩ : ∃ rest, ServerState.sampleServer.beginRegistration sampleSha256
      (.replicate 32 7) sampleIp 1000 = (.ok (10000 :: rest), ServerState.sampleServer) := ⟨_, rfl⟩
  obtain ⟨server, hc, hh, htable⟩ := ServerState.sample_commit (some ())
  obtain ⟨rest', hoffer⟩ : ∃ rest', ServerState.sampleTable.candidatePorts
      (.fromToken sampleSha256 (.replicate 32 9)) sampleIp 2000 =
        (.ok (10001 :: rest'), ServerState.sampleTable.reapExpired 2000) := ⟨_, rfl⟩
  have hb' : server.beginRegistration sampleSha256 (.replicate 32 9) sampleIp 2000 =
      (.ok (10001 :: rest'), server.reaped 2000) := by
    simp only [ServerState.beginRegistration, ServerState.reaped, hh, htable, hoffer]
    rfl
  have hrun : ∃ r : Relay Unit, r.lock = none ∧
      Trace (Step sampleJson sampleSha256) ⟨ServerState.sampleServer, none, ∅⟩ contended r :=
    ⟨_, rfl,
      .cons (@Step.arrive _ _ _ _ 0 sampleIp ()
        (.register .tcp 25565 (.replicate 32 7) (.replicate 32 8)) _ rfl rfl) <|
      .cons (.begin rfl rfl hb) <|
      .cons (@Step.arrive _ _ _ _ 1 sampleIp ()
        (.register .tcp 25565 (.replicate 32 1) (.replicate 32 2)) _ rfl rfl) <|
      .cons (@Step.arrive _ _ _ _ 2 sampleIp ()
        (.register .tcp 25565 (.replicate 32 9) (.replicate 32 3)) _ rfl rfl) <|
      .cons (.cancelWaiting rfl) <|
      .cons (.register rfl hc) <|
      .cons (.begin rfl rfl hb') <|
      .single (.cancelBinding rfl)⟩
  obtain ⟨r, hl, ht⟩ := hrun
  obtain ⟨segments, S, hseg, hrelays, hfree, -⟩ := linearized _ _ _ _ _ h₀ ht
  exact ⟨r, segments, S, hseg, hrelays, hfree hl⟩

end linear

end Relay
end GameNet
