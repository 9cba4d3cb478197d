import GameNet.Credential

/-!
# GameNet.FromQuic

How the relay answers the first message of a connection (`Tunnel::from_quic` of
`crates/server/src/tunnel.rs`), as a program over its calls. Each call is an await point at which
the registration timeout can drop the program, or a step that cannot fail; the methods of the shared
state are one call each.

`serves` is the contract of the program: it reads one message, does the operation that the message
asks for, and sends what that operation answered, once. A displaced connection is closed before the
reply is sent, and a registration is guarded from then until the agent has its port. `Served.Sound`
is the invariant of whoever keeps the contract.
-/

namespace GameNet

inductive QuicCall (Conn : Type) where
  | acceptBi
  | recvMsg
  | rotate (old new : TunnelToken)
  | recover (secret new : TunnelToken)
  | register (token : TunnelToken) (recoveryId : Bytes32)
  /-- `Connection::close` -/
  | close (connection : Conn)
  /-- `PendingRegistration::new` -/
  | newPending (tokenId : TokenId) (sessionId : SessionId)
  | disarm
  | sendMsg (message : ControlMessage)
  | finish
  /-- `SendStream::stopped`, with a timeout in seconds. -/
  | stopped (timeout : Nat)

/-- What a call returns. `false`, and `none` for `recvMsg`, stand for an error of the transport. -/
abbrev QuicAnswer (Conn : Type) : QuicCall Conn → Type
  | .acceptBi => Bool
  | .recvMsg => Option (Option ControlMessage)
  | .rotate _ _ => Except ServerError (Option UInt16)
  | .recover _ _ => Except ServerError (UInt16 × Option Conn)
  | .register _ _ => Except ServerError Registration
  | .close _ => Unit
  | .newPending _ _ => Unit
  | .disarm => Unit
  | .sendMsg _ => Bool
  | .finish => Bool
  | .stopped _ => Bool

inductive FromQuicError where
  | transport
  | disconnected
  | unexpectedMessage
  | unsupported
  | registration (e : ServerError)

def FromQuicError.message : FromQuicError → Option String
  | .transport => none
  | .disconnected => some "Agent disconnected before registering"
  | .unexpectedMessage =>
    some "Expected Register, RotateIdentity, or RecoverIdentity as first control message"
  | .unsupported => some "Only TCP tunnels with a nonzero local port are supported"
  | .registration e => e.message

/-- The program can be dropped while it waits for the call; the other calls do not wait. -/
def QuicCall.awaits {Conn : Type} : QuicCall Conn → Bool
  | .acceptBi | .recvMsg | .rotate _ _ | .recover _ _ | .register _ _ | .sendMsg _ | .stopped _ =>
    true
  | .close _ | .newPending _ _ | .disarm | .finish => false

/-- What a `Tunnel` is opened with. -/
structure OpenedTunnel where
  registration : Registration
  localPort : UInt16

abbrev Handler (Conn : Type) := Program (QuicCall Conn) (QuicAnswer Conn) FromQuicError

namespace Handler

open Program (perform fail)

variable {Conn : Type}

abbrev quicCall (c : QuicCall Conn) : Handler Conn (QuicAnswer Conn c) := perform c

/-- The `?` of a call that may fail. -/
def orFail (c : Handler Conn Bool) : Handler Conn Unit := do
  if ← c then pure () else fail .transport

def sendRegistrationError (message : String) : Handler Conn Unit := do
  if ← quicCall (.sendMsg (.error message)) then
    let _ ← quicCall .finish
    let _ ← quicCall (.stopped 1)
    pure ()
  else pure ()

/-- The end of an identity request. -/
def finishReply : Handler Conn (Option OpenedTunnel) := do
  orFail (quicCall .finish)
  orFail (quicCall (.stopped 8))
  pure none

def unsupportedReason : String := "Only TCP tunnels with a nonzero local port are supported"

/-- The branches of `from_quic`. `text` prints an error. -/
def rotateIdentity (text : ServerError → String) (old new : TunnelToken) :
    Handler Conn (Option OpenedTunnel) := do
  match ← quicCall (.rotate old new) with
  | .ok publicPort => orFail (quicCall (.sendMsg (.identityRotated publicPort)))
  | .error e => sendRegistrationError (text e)
  finishReply

def recoverIdentity (text : ServerError → String) (secret new : TunnelToken) :
    Handler Conn (Option OpenedTunnel) := do
  match ← quicCall (.recover secret new) with
  | .ok (publicPort, oldConnection) =>
    match oldConnection with
    | some oldConnection => quicCall (.close oldConnection)
    | none => pure ()
    orFail (quicCall (.sendMsg (.identityRecovered publicPort)))
  | .error e => sendRegistrationError (text e)
  finishReply

def register (text : ServerError → String) (localPort : UInt16) (token : TunnelToken)
    (recoveryId : Bytes32) : Handler Conn (Option OpenedTunnel) := do
  match ← quicCall (.register token recoveryId) with
  | .error e =>
    sendRegistrationError (text e)
    fail (.registration e)
  | .ok registration =>
    quicCall (.newPending registration.tokenId registration.sessionId)
    orFail (quicCall (.sendMsg (.tunnelReady registration.publicPort)))
    quicCall .disarm
    pure (some ⟨registration, localPort⟩)

def fromQuic (text : ServerError → String) : Handler Conn (Option OpenedTunnel) := do
  orFail (quicCall .acceptBi)
  match ← quicCall .recvMsg with
  | none => fail .transport
  | some none => fail .disconnected
  | some (some (.register protocol localPort token recoveryId)) =>
    if protocol ≠ .tcp ∨ localPort = 0 then
      sendRegistrationError unsupportedReason
      fail .unsupported
    else register text localPort token recoveryId
  | some (some (.rotateIdentity old new)) => rotateIdentity text old new
  | some (some (.recoverIdentity secret new)) => recoverIdentity text secret new
  | some (some _) => fail .unexpectedMessage

end Handler

/-! ## What the relay has done for a connection -/

/-- The reply to an operation. -/
def ServerState.Outcome.reply {Conn : Type} (text : ServerError → String) :
    ServerState.Outcome Conn → Option ControlMessage
  | .registered (.ok registration) => some (.tunnelReady registration.publicPort)
  | .registered (.error e) => some (.error (text e))
  | .rotated (.ok port) => some (.identityRotated port)
  | .rotated (.error e) => some (.error (text e))
  | .recovered (.ok (port, _)) => some (.identityRecovered port)
  | .recovered (.error e) => some (.error (text e))
  | .ended _ | .refreshed _ => none

/-- The replies of `from_quic` are among those that `Credential` allows. -/
theorem ServerState.Outcome.replies_reply {Conn : Type} {text : ServerError → String}
    {outcome : ServerState.Outcome Conn} {message : ControlMessage}
    (h : outcome.reply text = some message) : outcome.Replies message := by
  unfold reply at h
  split at h
  · exact (Option.some.inj h).symm
  · exact ⟨_, (Option.some.inj h).symm⟩
  · exact (Option.some.inj h).symm
  · exact ⟨_, (Option.some.inj h).symm⟩
  · exact (Option.some.inj h).symm
  · exact ⟨_, (Option.some.inj h).symm⟩
  · cases h
  · cases h

structure Served (Conn : Type) where
  received : Option ControlMessage
  outcome : Option (ServerState.Outcome Conn)
  /-- The connection that was closed. -/
  closed : Option Conn
  /-- The reply, if the agent may have got it. -/
  sent : Option ControlMessage
  /-- The session of an armed guard. -/
  guard : Option (TokenId × SessionId)

namespace Served

variable {Conn : Type}

def start : Served Conn := ⟨none, none, none, none, none⟩

def observe (g : Served Conn) : (c : QuicCall Conn) → QuicAnswer Conn c → Served Conn
  | .recvMsg, some (some message) => { g with received := some message }
  | .rotate _ _, answer => { g with outcome := some (.rotated answer) }
  | .recover _ _, answer => { g with outcome := some (.recovered answer) }
  | .register _ _, answer => { g with outcome := some (.registered answer) }
  | .close connection, _ => { g with closed := some connection }
  | .newPending k s, _ => { g with guard := some (k, s) }
  | .disarm, _ => { g with guard := none }
  | .sendMsg message, _ => { g with sent := some message }
  | .recvMsg, _ | .acceptBi, _ | .finish, _ | .stopped _, _ => g

/-- An operation for the request may be done, and none was. -/
structure Asked (g : Served Conn) (request : Request) : Prop where
  received : ∃ message, g.received = some message ∧ Request.ofMessage message = some request
  first : g.outcome = none ∧ g.closed = none ∧ g.sent = none ∧ g.guard = none

/-- The session that was registered. -/
def session? (g : Served Conn) : Option (TokenId × SessionId) :=
  match g.outcome with
  | some (.registered (.ok registration)) => some (registration.tokenId, registration.sessionId)
  | _ => none

/-- The connection that was displaced. -/
def displaced? (g : Served Conn) : Option Conn :=
  match g.outcome with
  | some (.recovered (.ok (_, displaced))) => displaced
  | _ => none

/-- The message is what the relay has to say. -/
def Replies (text : ServerError → String) (g : Served Conn) (message : ControlMessage) : Prop :=
  match g.outcome with
  | some outcome => outcome.reply text = some message
  | none => message = .error Handler.unsupportedReason ∧
    ∃ protocol localPort token recoveryId,
      g.received = some (.register protocol localPort token recoveryId) ∧
        (protocol ≠ .tcp ∨ localPort = 0)

end Served

def serves {Conn : Type} (text : ServerError → String) :
    Program.Contract (QuicCall Conn) (QuicAnswer Conn) (Served Conn) where
  allowed g c :=
    match c with
    | .recvMsg => g = .start
    | .rotate old new => g.Asked (.rotate old new)
    | .recover secret new => g.Asked (.recover secret new)
    | .register token recoveryId => g.Asked (.register token recoveryId)
    | .close connection => g.displaced? = some connection ∧ g.sent = none
    | .newPending k s => g.session? = some (k, s) ∧ g.sent = none
    | .sendMsg message => g.sent = none ∧ g.Replies text message ∧ g.closed = g.displaced? ∧
      g.guard = g.session?
    | .disarm => ∃ message, g.sent = some message
    | .acceptBi | .stopped _ => g.guard = g.session?
    | .finish => True
  next g c answer g' := g' = g.observe c answer

/-! ## The program obeys the contract -/

section

variable {Conn : Type} {text : ServerError → String} {α β : Type} {g : Served Conn}

/-- A tunnel is opened for the registration that the agent was told of, and is not guarded any
more; without one the agent was told what the operation answered. -/
def Served.Ends (g : Served Conn) : Option OpenedTunnel → Prop
  | some tunnel => g.outcome = some (.registered (.ok tunnel.registration)) ∧
    g.sent = some (.tunnelReady tunnel.registration.publicPort) ∧ g.guard = none ∧
    ∃ token recoveryId, tunnel.localPort ≠ 0 ∧
      g.received = some (.register .tcp tunnel.localPort token recoveryId)
  | none => g.session? = none ∧ ∃ message, g.sent = some message

/-- A registration is guarded when the program fails, and the message is to blame for what the
program says about it. -/
structure Served.Fails (g : Served Conn) (e : FromQuicError) : Prop where
  guarded : g.guard = g.session?
  unexpected : e = .unexpectedMessage → ∃ message, g.received = some message ∧
    (∀ protocol localPort token recoveryId,
      message ≠ .register protocol localPort token recoveryId) ∧
    Request.ofMessage message = none
  unsupported : e = .unsupported → ∃ protocol localPort token recoveryId,
    g.received = some (.register protocol localPort token recoveryId) ∧
      (protocol ≠ .tcp ∨ localPort = 0)

theorem Served.Fails.transport (h : g.guard = g.session?) : g.Fails .transport :=
  ⟨h, nofun, nofun⟩

abbrev ServesMsg (text : ServerError → String) (p : Handler Conn α) (Q : α → Served Conn → Prop)
    (g : Served Conn) : Prop :=
  p.Obeys (serves text) Q (fun e g => g.Fails e) g

theorem serves_bind {p : Handler Conn β} {f : β → Handler Conn α} {Q : α → Served Conn → Prop}
    (h : ServesMsg text p (fun b g => ServesMsg text (f b) Q g) g) :
    ServesMsg text (p >>= f) Q g :=
  Program.obeys_bind.mpr h

theorem serves_call {c : QuicCall Conn} {Q : QuicAnswer Conn c → Served Conn → Prop}
    (ha : (serves text).allowed g c) (h : ∀ a, Q a (g.observe c a)) :
    ServesMsg text (Handler.quicCall c) Q g := by
  refine ⟨ha, ?_⟩
  rintro a g' rfl
  exact h a

theorem serves_orFail {p : Handler Conn Bool} {Q : Unit → Served Conn → Prop}
    (h : ServesMsg text p (fun ok g => if ok then Q () g else g.Fails .transport) g) :
    ServesMsg text (Handler.orFail p) Q g := by
  refine serves_bind (h.mono ?_ fun _ _ he => he)
  intro ok g' hok
  cases ok with
  | true => exact hok
  | false => exact hok

/-- The reply is an error. -/
theorem serves_sendRegistrationError {message : String} {Q : Unit → Served Conn → Prop}
    (ha : (serves text).allowed g (.sendMsg (.error message)))
    (h : Q () { g with sent := some (.error message) }) :
    ServesMsg text (Handler.sendRegistrationError message) Q g := by
  have hguard : g.guard = g.session? := ha.2.2.2
  refine serves_bind (serves_call ha ?_)
  intro ok
  cases ok with
  | true =>
    refine serves_bind (serves_call trivial fun _ => ?_)
    exact serves_bind (serves_call hguard fun _ => h)
  | false => exact h

theorem serves_finishReply (hg : g.guard = g.session?) (hs : g.session? = none)
    (hm : ∃ message, g.sent = some message) :
    ServesMsg text Handler.finishReply (fun tunnel g => g.Ends tunnel) g := by
  refine serves_bind (serves_orFail (serves_call trivial ?_))
  intro ok
  cases ok with
  | false => exact .transport hg
  | true =>
    refine serves_bind (serves_orFail (serves_call hg ?_))
    intro ok
    cases ok with
    | false => exact .transport hg
    | true => exact ⟨hs, hm⟩

theorem serves_rotateIdentity {old new : TunnelToken} (h : g.Asked (.rotate old new)) :
    ServesMsg text (Handler.rotateIdentity text old new) (fun tunnel g => g.Ends tunnel) g := by
  obtain ⟨-, hclosed, hsent, hguard⟩ := h.first
  refine serves_bind (serves_call h ?_)
  intro answer
  cases answer with
  | ok port =>
    refine serves_bind (serves_orFail (serves_call ⟨hsent, rfl, hclosed, hguard⟩ ?_))
    intro ok
    cases ok with
    | false => exact .transport hguard
    | true => exact serves_finishReply hguard rfl ⟨_, rfl⟩
  | error e =>
    refine serves_bind (serves_sendRegistrationError ⟨hsent, rfl, hclosed, hguard⟩ ?_)
    exact serves_finishReply hguard rfl ⟨_, rfl⟩

theorem serves_recoverIdentity {secret new : TunnelToken} (h : g.Asked (.recover secret new)) :
    ServesMsg text (Handler.recoverIdentity text secret new) (fun tunnel g => g.Ends tunnel) g := by
  obtain ⟨-, hclosed, hsent, hguard⟩ := h.first
  refine serves_bind (serves_call h ?_)
  intro answer
  cases answer with
  | ok result =>
    obtain ⟨port, displaced⟩ := result
    cases displaced with
    | none =>
      refine serves_bind (serves_orFail (serves_call ⟨hsent, rfl, hclosed, hguard⟩ ?_))
      intro ok
      cases ok with
      | false => exact .transport hguard
      | true => exact serves_finishReply hguard rfl ⟨_, rfl⟩
    | some connection =>
      refine serves_bind (serves_call ⟨rfl, hsent⟩ fun _ => ?_)
      refine serves_bind (serves_orFail (serves_call ⟨hsent, rfl, rfl, hguard⟩ ?_))
      intro ok
      cases ok with
      | false => exact .transport hguard
      | true => exact serves_finishReply hguard rfl ⟨_, rfl⟩
  | error e =>
    refine serves_bind (serves_sendRegistrationError ⟨hsent, rfl, hclosed, hguard⟩ ?_)
    exact serves_finishReply hguard rfl ⟨_, rfl⟩

theorem serves_register {localPort : UInt16} {token : TunnelToken} {recoveryId : Bytes32}
    (h : g.Asked (.register token recoveryId)) (hport : localPort ≠ 0)
    (hreceived : g.received = some (.register .tcp localPort token recoveryId)) :
    ServesMsg text (Handler.register text localPort token recoveryId)
      (fun tunnel g => g.Ends tunnel) g := by
  obtain ⟨-, hclosed, hsent, hguard⟩ := h.first
  refine serves_bind (serves_call h ?_)
  intro answer
  cases answer with
  | error e =>
    refine serves_bind (serves_sendRegistrationError ⟨hsent, rfl, hclosed, hguard⟩ ?_)
    exact ⟨hguard, nofun, nofun⟩
  | ok registration =>
    refine serves_bind (serves_call ⟨rfl, hsent⟩ fun _ => ?_)
    refine serves_bind (serves_orFail (serves_call ⟨hsent, rfl, hclosed, rfl⟩ ?_))
    intro ok
    cases ok with
    | false => exact .transport rfl
    | true =>
      refine serves_bind (serves_call ⟨_, rfl⟩ fun _ => ?_)
      exact ⟨rfl, rfl, rfl, token, recoveryId, hport, hreceived⟩

theorem serves_fromQuic :
    ServesMsg text (Handler.fromQuic text) (fun tunnel g => g.Ends tunnel)
      (.start : Served Conn) := by
  refine serves_bind (serves_orFail (serves_call rfl ?_))
  intro ok
  cases ok with
  | false => exact .transport rfl
  | true =>
    refine serves_bind (serves_call rfl ?_)
    intro received
    rcases received with _ | _ | message
    · exact .transport rfl
    · exact ⟨rfl, nofun, nofun⟩
    · cases message with
      | register protocol localPort token recoveryId =>
        show ServesMsg text (if _ then _ else _) _ _
        split
        · rename_i hunsupported
          refine serves_bind (serves_sendRegistrationError ⟨rfl, ⟨rfl, _, _, _, _, rfl,
            hunsupported⟩, rfl, rfl⟩ ?_)
          exact ⟨rfl, nofun, fun _ => ⟨_, _, _, _, rfl, hunsupported⟩⟩
        · rename_i hsupported
          obtain ⟨hprotocol, hport⟩ := not_or.mp hsupported
          obtain rfl := not_not.mp hprotocol
          refine serves_register ⟨⟨_, rfl, if_neg hsupported⟩, rfl, rfl, rfl, rfl⟩ hport rfl
      | rotateIdentity old new =>
        exact serves_rotateIdentity ⟨⟨_, rfl, rfl⟩, rfl, rfl, rfl, rfl⟩
      | recoverIdentity secret new =>
        exact serves_recoverIdentity ⟨⟨_, rfl, rfl⟩, rfl, rfl, rfl, rfl⟩
      | _ => exact ⟨rfl, fun _ => ⟨_, rfl, nofun, rfl⟩, nofun⟩

/-- A program that is dropped has guarded the session that it registered. -/
theorem serves_guarded {c : QuicCall Conn} (ha : (serves text).allowed g c)
    (hc : c.awaits = true) : g.guard = g.session? := by
  have hfirst : ∀ {request}, g.Asked request → g.guard = g.session? := by
    rintro request ⟨-, houtcome, -, -, hguard⟩
    rw [hguard, Served.session?, houtcome]
  cases c with
  | acceptBi => exact ha
  | recvMsg =>
    rw [show g = .start from ha]
    rfl
  | rotate old new => exact hfirst ha
  | recover secret new => exact hfirst ha
  | register token recoveryId => exact hfirst ha
  | sendMsg message => exact ha.2.2.2
  | stopped timeout => exact ha
  | close | newPending | disarm | finish => cases hc

/-! ## What is true after every call -/

/-- The outcome of the operation that the request asks for. -/
def Request.Gets : Request → ServerState.Outcome Conn → Prop
  | .register _ _, .registered _ => True
  | .rotate _ _, .rotated _ => True
  | .recover _ _, .recovered _ => True
  | _, _ => False

structure Served.Sound (text : ServerError → String) (g : Served Conn) : Prop where
  asked : ∀ outcome, g.outcome = some outcome → ∃ message request,
    g.received = some message ∧ Request.ofMessage message = some request ∧ request.Gets outcome
  replied : ∀ message, g.sent = some message → g.Replies text message
  closed : g.sent ≠ none → g.closed = g.displaced?

theorem Served.Sound.start : (Served.start : Served Conn).Sound text := ⟨nofun, nofun, nofun⟩

/-- The operation that was asked for is the only one, and comes before the reply. -/
theorem Served.Asked.sound {request : Request} {outcome : ServerState.Outcome Conn}
    (h : g.Asked request) (hg : request.Gets outcome) :
    ({ g with outcome := some outcome } : Served Conn).Sound text := by
  obtain ⟨⟨message, hreceived, hrequest⟩, -, -, hsent, -⟩ := h
  refine ⟨?_, ?_, fun hs => absurd hsent hs⟩
  · rintro _ ⟨⟩
    exact ⟨message, request, hreceived, hrequest, hg⟩
  · intro message' hs
    rw [hsent] at hs
    cases hs

theorem Served.Sound.observe (h : g.Sound text) {c : QuicCall Conn} (answer : QuicAnswer Conn c)
    (ha : (serves text).allowed g c) : (g.observe c answer).Sound text := by
  cases c with
  | recvMsg =>
    rw [show g = .start from ha]
    rcases answer with _ | _ | message
    · exact .start
    · exact .start
    · exact ⟨nofun, nofun, nofun⟩
  | rotate old new => exact Served.Asked.sound ha trivial
  | recover secret new => exact Served.Asked.sound ha trivial
  | register token recoveryId => exact Served.Asked.sound ha trivial
  | close connection =>
    obtain ⟨-, hsent⟩ := ha
    refine ⟨h.asked, ?_, fun hs => absurd hsent hs⟩
    intro message hs
    cases hsent.symm.trans hs
  | sendMsg message =>
    obtain ⟨-, hreplies, hclosed, -⟩ := ha
    refine ⟨h.asked, ?_, fun _ => hclosed⟩
    rintro _ ⟨⟩
    exact hreplies
  | newPending | disarm => exact ⟨h.asked, h.replied, h.closed⟩
  | acceptBi | finish | stopped => exact h

end
end GameNet
