import GameNet.Linearized

/-!
# GameNet.LockProgress

The lock of the relay's state is kept across await points by registrations only, while they bind
ports. Whoever holds it can go on whatever the others do, has at most as many steps left as ports to
try, and is the only one to change the state; and when it is free, everyone who waits for it can get
it (`lock_progress`). `Step.holder` is what one step does to the holder.
-/

namespace GameNet

/-- The task waits for the lock. -/
def Task.waitsForLock {Conn : Type} : Task Conn → Bool
  | .waiting _ _ _ | .closing _ _ | .cleanup _ _ => true
  | .binding _ _ | .sending _ _ | .tunnel _ _ => false

namespace Relay

variable {Conn : Type}

/-- The task that makes the step. -/
def Event.task : Event Conn → Option TaskId
  | .reordered | .refreshed _ => none
  | .arrived i | .began i | .refused i _ | .busy i | .registered i _ | .cancelled i | .sent i
  | .dropped i _ | .closed i | .finished i _ | .rotated i _ _ _ | .recovered i _ _ _ => some i

/-- The event is a step of the task. -/
def Event.isOf (i : TaskId) (e : Event Conn) : Bool := e.task == some i

section

variable {J : SerdeJson} {sha256 : Bytes32 → Bytes32} {r r' : Relay Conn} {e : Event Conn}
  {es : List (Event Conn)} {i : TaskId} {S : ServerState Conn} {reg : Registering Conn}
  {ports : List UInt16} {task : Task Conn}

/-- The task `i` binds, with these ports left, and holds the lock. -/
structure Holds (r : Relay Conn) (i : TaskId) (reg : Registering Conn) (ports : List UInt16) :
    Prop where
  locked : r.lock = some i
  binding : r.tasks.lookup i = some (.binding reg ports)

theorem Linear.holds (h : Linear sha256 r S) (hi : r.tasks.lookup i = some (.binding reg ports)) :
    r.Holds i reg ports := ⟨h.binds (bindingIn_of_lookup hi), hi⟩

/-- What a step does to the holder of the lock: a step of another task leaves it alone, and the
state with it; its own step is a port less, or the end of the registration. -/
theorem Step.holder (h : Linear sha256 r S) (hi : r.Holds i reg ports) (hs : Step J sha256 r e r') :
    (e.task ≠ some i ∧ r.server.Reordered r'.server ∧ r'.Holds i reg ports) ∨
      (e.task = some i ∧
        (r'.lock = none ∨ ∃ port rest, ports = port :: rest ∧ r'.Holds i reg rest)) := by
  obtain ⟨hlock, hbinding⟩ := hi
  -- nobody else gets the lock, or binds
  have hheld : r.lock ≠ none := by rw [hlock]; nofun
  have honly : ∀ {j reg' ports'}, r.tasks.lookup j = some (.binding reg' ports') → j = i := by
    intro j reg' ports' hj
    have hj := (h.holds hj).locked
    rw [hlock] at hj
    exact (Option.some.inj hj).symm
  have hother : ∀ {j task}, r.tasks.lookup j = some task → task.binding? = none → i ≠ j := by
    rintro j task hj ht rfl
    rw [hbinding] at hj
    cases hj
    cases ht
  have hinsert : ∀ {j task}, i ≠ j →
      (r.tasks.insert j task).lookup i = some (.binding reg ports) := by
    intro j task hne
    rw [KeyedMap.lookup_insert, if_neg hne, hbinding]
  have herase : ∀ {j}, i ≠ j → (r.tasks.erase j).lookup i = some (.binding reg ports) := by
    intro j hne
    rw [KeyedMap.lookup_erase, if_neg hne, hbinding]
  cases hs with
  | reorder hsame hn =>
    exact .inl ⟨nofun, ⟨hsame, hn, rfl, rfl, rfl⟩, hlock, hbinding⟩
  | @arrive j _ _ _ _ hj _ =>
    have hne : i ≠ j := by
      rintro rfl
      rw [hbinding] at hj
      cases hj
    exact .inl ⟨fun he => hne (Option.some.inj he).symm, .refl _, hlock, hinsert hne⟩
  | begin hl _ _ | refuse hl _ _ | finish hl _ _ | rotate hl _ _ | recover hl _ _ | refresh hl _ =>
    exact absurd hl hheld
  | @busy j reg' port rest hj =>
    obtain rfl := honly hj
    rw [hbinding] at hj
    cases hj
    exact .inr ⟨rfl, .inr ⟨port, rest, rfl, hlock, AList.lookup_insert _⟩⟩
  | exhaust hj | bindFail hj | register hj _ | commitFail hj _ | cancelBinding hj =>
    exact .inr ⟨congrArg some (honly hj), .inl rfl⟩
  | cancelWaiting hj =>
    have hne := hother hj rfl
    exact .inl ⟨fun he => hne (Option.some.inj he).symm, .refl _, hlock, herase hne⟩
  | sent hj | close hj =>
    have hne := hother hj rfl
    exact .inl ⟨fun he => hne (Option.some.inj he).symm, .refl _, hlock, hinsert hne⟩
  | @drop j l _ _ hj hl =>
    have hne := hother hj rfl
    have hnel : i ≠ l := by
      rintro rfl
      rw [hbinding] at hl
      cases hl
    refine .inl ⟨fun he => hne (Option.some.inj he).symm, .refl _, hlock, ?_⟩
    show AList.lookup i (AList.insert l _ (AList.erase j r.tasks)) = _
    rw [KeyedMap.lookup_insert, if_neg hnel, herase hne]

/-- Until the holder makes a step, it holds the lock and the state stays. -/
theorem Holds.waits (hi : r.Holds i reg ports) (hr : Reachable J sha256 r)
    (h : Trace (Step J sha256) r es r') (hothers : ∀ e ∈ es, e.task ≠ some i) :
    r.server.Reordered r'.server ∧ r'.Holds i reg ports := by
  induction h with
  | refl => exact ⟨.refl _, hi⟩
  | @cons r r₁ r' e es hs ht ih =>
    obtain ⟨hfirst, hrest⟩ := List.forall_mem_cons.mp hothers
    obtain ⟨S, hlinear⟩ := reachable_linear hr
    rcases hs.holder hlinear hi with ⟨-, hsame, hi'⟩ | ⟨he, -⟩
    · obtain ⟨hsame', hholds⟩ := ih hi' (hr.next hs) hrest
      exact ⟨hsame.trans hsame', hholds⟩
    · exact absurd he hfirst

/-- A run in which the holder makes more steps than it has ports to try passes through a state in
which the lock is free. -/
theorem Holds.releases (hi : r.Holds i reg ports) (hr : Reachable J sha256 r)
    (h : Trace (Step J sha256) r es r') (hmany : ports.length < es.countP (Event.isOf i)) :
    ∃ before after r₁, es = before ++ after ∧ Trace (Step J sha256) r before r₁ ∧
      Trace (Step J sha256) r₁ after r' ∧ r₁.lock = none ∧
      before.countP (Event.isOf i) ≤ ports.length + 1 := by
  induction h generalizing ports with
  | refl => cases hmany
  | @cons r r₁ r' e es hs ht ih =>
    obtain ⟨S, hlinear⟩ := reachable_linear hr
    rcases hs.holder hlinear hi with ⟨hne, -, hi'⟩ | ⟨he, hfree | ⟨port, rest, rfl, hi'⟩⟩
    · have hnot : Event.isOf i e = false := by
        rw [Event.isOf, beq_eq_false_iff_ne]
        exact hne
      rw [List.countP_cons_of_neg (by rw [hnot]; nofun)] at hmany
      obtain ⟨before, after, r₂, rfl, hb, ha, hfree, hcount⟩ := ih hi' (hr.next hs) hmany
      refine ⟨e :: before, after, r₂, rfl, .cons hs hb, ha, hfree, ?_⟩
      rw [List.countP_cons_of_neg (by rw [hnot]; nofun)]
      exact hcount
    · refine ⟨[e], es, r₁, rfl, .single hs, ht, hfree, ?_⟩
      have hone : [e].countP (Event.isOf i) ≤ 1 := List.countP_le_length
      omega
    · have his : Event.isOf i e = true := by
        rw [Event.isOf, he]
        exact beq_self_eq_true _
      rw [List.countP_cons_of_pos his, List.length_cons, Nat.add_lt_add_iff_right] at hmany
      obtain ⟨before, after, r₂, rfl, hb, ha, hfree, hcount⟩ := ih hi' (hr.next hs) hmany
      refine ⟨e :: before, after, r₂, rfl, .cons hs hb, ha, hfree, ?_⟩
      rw [List.countP_cons_of_pos his, List.length_cons]
      omega

/-- The holder of the lock can try its next port, or give up. -/
theorem Holds.advances (hi : r.Holds i reg ports) :
    ∃ e r', Step J sha256 r e r' ∧ e.task = some i ∧ e ≠ .cancelled i := by
  have hbinding := hi.binding
  cases ports with
  | nil => exact ⟨_, _, .exhaust hbinding, rfl, nofun⟩
  | cons port rest => exact ⟨_, _, .busy hbinding, rfl, nofun⟩

/-- A task that waits for the lock can do what it waits for when the lock is free. -/
theorem Step.of_waitsForLock (hl : r.lock = none) (hi : r.tasks.lookup i = some task)
    (ht : task.waitsForLock = true) :
    ∃ e r', Step J sha256 r e r' ∧ e.task = some i ∧ e ≠ .cancelled i := by
  cases task with
  | waiting peerIp connection request =>
    cases request with
    | register token recoveryId =>
      cases hb : r.server.beginRegistration sha256 token peerIp 0 with
      | mk answer server =>
        cases answer with
        | error e => exact ⟨_, _, .refuse hl hi hb, rfl, nofun⟩
        | ok candidates => exact ⟨_, _, .begin hl hi hb, rfl, nofun⟩
    | rotate old new =>
      exact ⟨_, _, @Step.rotate _ _ _ _ _ _ _ _ _ 0 .saved _ _ hl hi rfl, rfl, nofun⟩
    | recover secret new =>
      exact ⟨_, _, @Step.recover _ _ _ _ _ _ _ _ _ 0 .saved _ _ hl hi rfl, rfl, nofun⟩
  | closing k s =>
    exact ⟨_, _, @Step.finish _ _ _ _ _ _ _ 0 .saved _ _ hl (.inl hi) rfl, rfl, nofun⟩
  | cleanup k s =>
    exact ⟨_, _, @Step.finish _ _ _ _ _ _ _ 0 .saved _ _ hl (.inr hi) rfl, rfl, nofun⟩
  | binding | sending | tunnel => cases ht

/-- At most all ports of the pool are tried. -/
theorem Begun.length_le {server : ServerState Conn} (h : Begun sha256 S reg ports server) :
    ports.length ≤ 1000 := by
  obtain ⟨⟨token, tried, T, -, hbegin, -⟩, -⟩ := h
  have hlength := ServerState.length_of_begin (congrArg Prod.fst hbegin)
  rw [List.length_append] at hlength
  omega

/-- **The lock of the state is always got again.** A task keeps it across an await point exactly
while its registration binds ports. While it is free, whoever waits for it can go on. While it is
held, the holder can go on whatever else is done, the leases, the store and the connections are as
the holder left them until it makes a step of its own, and it has at most one step more than ports
left, of which there are at most 1000: a run in which it makes that many passes through a state in
which the lock is free. -/
theorem lock_progress (J : SerdeJson) (sha256 : Bytes32 → Bytes32) (r : Relay Conn)
    (h : Reachable J sha256 r) :
    (∀ i, r.lock = some i ↔ ∃ reg ports, r.tasks.lookup i = some (.binding reg ports)) ∧
    (r.lock = none → ∀ i task, r.tasks.lookup i = some task → task.waitsForLock = true →
      ∃ e r', Step J sha256 r e r' ∧ e.task = some i ∧ e ≠ .cancelled i) ∧
    ∀ i reg ports, r.tasks.lookup i = some (.binding reg ports) →
      ports.length ≤ 1000 ∧
      (∃ e r', Step J sha256 r e r' ∧ e.task = some i ∧ e ≠ .cancelled i) ∧
      (∀ es r', Trace (Step J sha256) r es r' → (∀ e ∈ es, e.task ≠ some i) →
        r.server.Reordered r'.server ∧ r'.lock = some i ∧
          r'.tasks.lookup i = some (.binding reg ports)) ∧
      ∀ es r', Trace (Step J sha256) r es r' → ports.length < es.countP (Event.isOf i) →
        ∃ before after r₁, es = before ++ after ∧ Trace (Step J sha256) r before r₁ ∧
          Trace (Step J sha256) r₁ after r' ∧ r₁.lock = none ∧
          before.countP (Event.isOf i) ≤ ports.length + 1 := by
  obtain ⟨S, hlinear⟩ := reachable_linear h
  refine ⟨fun i => ⟨fun hl => ?_, ?_⟩, fun hl i task hi ht => ?_, ?_⟩
  · obtain ⟨reg, ports, hbinds, -⟩ := hlinear.held hl
    exact ⟨reg, ports, lookup_of_bindingIn hbinds⟩
  · rintro ⟨reg, ports, hi⟩
    exact (hlinear.holds hi).locked
  · exact Step.of_waitsForLock hl hi ht
  · intro i reg ports hi
    have hholds := hlinear.holds hi
    refine ⟨(hlinear.begun (bindingIn_of_lookup hi)).length_le, hholds.advances, ?_, ?_⟩
    · intro es r' ht hothers
      obtain ⟨hsame, hholds'⟩ := hholds.waits h ht hothers
      exact ⟨hsame, hholds'.locked, hholds'.binding⟩
    · intro es r' ht hmany
      exact hholds.releases h ht hmany

/-- The first host begins to register: it has the lock and 1000 ports to try. -/
theorem lock_progress_one_host : ∃ r : Relay Unit, r.lock = some 0 ∧
    (∃ e r', Step sampleJson (fun _ => sampleDigest) r e r' ∧ e.task = some 0 ∧
      e ≠ .cancelled 0) := by
  have h₀ : Reachable sampleJson (fun _ => sampleDigest) ⟨ServerState.sampleServer, none, ∅⟩ :=
    .of_init ⟨rfl, rfl, ⟨none, .absent⟩, 0, ⟨.created, .saved, .saved⟩, rfl⟩
  obtain ⟨rest, hb⟩ : ∃ rest, ServerState.sampleServer.beginRegistration (fun _ => sampleDigest)
      (.replicate 32 7) sampleIp 1000 = (.ok (10000 :: rest), ServerState.sampleServer) := ⟨_, rfl⟩
  have h₁ := h₀.next (@Step.arrive _ _ _ _ 0 sampleIp ()
    (.register .tcp 25565 (.replicate 32 7) (.replicate 32 8)) _ rfl rfl)
  have h₂ := h₁.next (.begin rfl (AList.lookup_insert _) hb)
  obtain ⟨-, -, hheld⟩ := lock_progress _ _ _ h₂
  obtain ⟨-, hstep, -⟩ := hheld 0 _ _ (AList.lookup_insert _)
  exact ⟨_, rfl, hstep⟩

end

end Relay
end GameNet
