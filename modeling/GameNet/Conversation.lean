import GameNet.Exchange
import GameNet.FromQuic
import GameNet.Serving

/-!
# GameNet.Conversation

A command of the CLI and `from_quic` at the two ends of a connection's control stream. Both are the
programs of the source. The files answer the command as they like, either side may lose the
connection at any call, the relay may drop its program where it waits, and other connections use the
shared state in between. An operation is one step here: see `Linearized`.

`Sound` joins the contracts of the two, `talks` and `serves`, over what is on its way in the stream:
each side gets only what its program can deal with.
-/

namespace GameNet

variable {Conn : Type}

/-- The messages that are sent and not received. -/
structure Stream where
  toRelay : List ControlMessage
  toHost : List ControlMessage

namespace Stream

/-- What a call of the command does to the stream. A file call is answered anything. -/
inductive Host : Stream → (c : Call) → Answer c → Stream → Prop where
  | sent {s : Stream} {message : ControlMessage} :
      Host s (.send message) () { s with toRelay := s.toRelay ++ [message] }
  | received {s : Stream} {message : ControlMessage} {rest : List ControlMessage} :
      s.toHost = message :: rest → Host s .receive (some message) { s with toHost := rest }
  | closed {s : Stream} : Host s .receive none s
  | quiet {s : Stream} {c : Call} {answer : Answer c} : c.talks = false → Host s c answer s

/-- What a call of the relay does to the stream. A message that could not be sent may arrive. -/
inductive Relay : Stream → (c : QuicCall Conn) → QuicAnswer Conn c → Stream → Prop where
  | received {s : Stream} {message : ControlMessage} {rest : List ControlMessage} :
      s.toRelay = message :: rest →
      Relay s .recvMsg (some (some message)) { s with toRelay := rest }
  | closed {s : Stream} : Relay s .recvMsg (some none) s
  | lost {s : Stream} : Relay s .recvMsg none s
  | sent {s : Stream} {message : ControlMessage} (ok : Bool) :
      Relay s (.sendMsg message) ok { s with toHost := s.toHost ++ [message] }
  | unsent {s : Stream} {message : ControlMessage} : Relay s (.sendMsg message) false s
  | accepted {s : Stream} (ok : Bool) : Relay s .acceptBi ok s
  | displaced {s : Stream} {connection : Conn} : Relay s (.close connection) () s
  | pending {s : Stream} {k : TokenId} {session : SessionId} : Relay s (.newPending k session) () s
  | disarmed {s : Stream} : Relay s .disarm () s
  | finished {s : Stream} (ok : Bool) : Relay s .finish ok s
  | stopped {s : Stream} {timeout : Nat} (ok : Bool) : Relay s (.stopped timeout) ok s

end Stream

/-- The call is the operation, and is answered with its outcome. -/
inductive QuicCall.Performs (peerIp : IpAddr) (connection : Conn) :
    (c : QuicCall Conn) → QuicAnswer Conn c → ServerState.Op Conn → ServerState.Outcome Conn →
      Prop where
  | register {token : TunnelToken} {recoveryId : Bytes32} {bind : UInt16 → BindOutcome}
      {answer : Except ServerError Registration} :
      Performs peerIp connection (.register token recoveryId) answer
        (.register token (some recoveryId) peerIp (some connection) bind) (.registered answer)
  | rotate {old new : TunnelToken} {answer : Except ServerError (Option UInt16)} :
      Performs peerIp connection (.rotate old new) answer (.rotate old new) (.rotated answer)
  | recover {secret new : TunnelToken} {answer : Except ServerError (UInt16 × Option Conn)} :
      Performs peerIp connection (.recover secret new) answer (.recover secret new peerIp)
        (.recovered answer)

structure Conversation (Conn : Type) where
  host : Prog ControlMessage
  view : View
  stream : Stream
  /-- `none` when it was dropped. -/
  relay : Option (Handler Conn (Option OpenedTunnel))
  served : Served Conn
  server : ServerState Conn

namespace Conversation

inductive Event (Conn : Type) where
  | host
  | relay
  | operation (e : ServerState.Event Conn)
  | cancelled
  /-- An operation for another connection, or the relay's own. -/
  | other (e : ServerState.Event Conn)

/-- The operations of this connection. -/
def operations (es : List (Event Conn)) : List (ServerState.Event Conn) :=
  es.filterMap fun
    | .operation e => some e
    | _ => none

def start (sha256 : Bytes32 → Bytes32) (text : ServerError → String) (command : Command)
    (server : ServerState Conn) : Conversation Conn where
  host := command.exchange sha256
  view := .start
  stream := ⟨[], []⟩
  relay := some (Handler.fromQuic text)
  served := .start
  server := server

inductive Step (J : SerdeJson) (sha256 : Bytes32 → Bytes32) (peerIp : IpAddr) (connection : Conn) :
    Conversation Conn → Event Conn → Conversation Conn → Prop where
  | host {s : Conversation Conn} {c : Call} {k : Answer c → Prog ControlMessage}
      {answer : Answer c} {stream : Stream} : s.host = .call c k → s.stream.Host c answer stream →
      Step J sha256 peerIp connection s .host
        { s with host := k answer, view := s.view.observe c answer, stream := stream }
  | relay {s : Conversation Conn} {c : QuicCall Conn}
      {k : QuicAnswer Conn c → Handler Conn (Option OpenedTunnel)} {answer : QuicAnswer Conn c}
      {stream : Stream} : s.relay = some (.call c k) → s.stream.Relay c answer stream →
      Step J sha256 peerIp connection s .relay
        { s with relay := some (k answer), served := s.served.observe c answer, stream := stream }
  | operation {s : Conversation Conn} {c : QuicCall Conn}
      {k : QuicAnswer Conn c → Handler Conn (Option OpenedTunnel)} {answer : QuicAnswer Conn c}
      {e : ServerState.Event Conn} {server : ServerState Conn} : s.relay = some (.call c k) →
      c.Performs peerIp connection answer e.op e.outcome →
      ServerState.Serves J sha256 s.server e server →
      Step J sha256 peerIp connection s (.operation e)
        { s with relay := some (k answer), served := s.served.observe c answer, server := server }
  | cancel {s : Conversation Conn} {c : QuicCall Conn}
      {k : QuicAnswer Conn c → Handler Conn (Option OpenedTunnel)} : s.relay = some (.call c k) →
      c.awaits = true → Step J sha256 peerIp connection s .cancelled { s with relay := none }
  | other {s : Conversation Conn} {e : ServerState.Event Conn} {server : ServerState Conn} :
      ServerState.Serves J sha256 s.server e server →
      Step J sha256 peerIp connection s (.other e) { s with server := server }

section

variable {J : SerdeJson} {sha256 : Bytes32 → Bytes32} {peerIp : IpAddr} {connection : Conn}
  {text : ServerError → String} {command : Command} {s s' : Conversation Conn}
  {e : Event Conn} {es past : List (Event Conn)} {server : ServerState Conn} {g : Served Conn}
  {message : ControlMessage} {request : Request} {outcome : ServerState.Outcome Conn}

/-! ## What the two sides agree on -/

/-- The reply to a request of a command is one that the command can deal with. -/
theorem expects_reply {reply : ControlMessage} (hr : command.Requests message)
    (ho : Request.ofMessage message = some request) (hg : request.Gets outcome)
    (hreply : outcome.reply text = some reply) : command.Expects reply := by
  cases command with
  | host localPort =>
    cases message with
    | register protocol localPort' token recoveryId =>
      obtain ⟨-, ⟨⟩⟩ := Option.ite_none_left_eq_some.mp ho
      cases outcome with
      | registered r => cases r with | ok | error => cases hreply; trivial
      | _ => exact hg.elim
    | _ => exact hr.elim
  | rotateIdentity =>
    cases message with
    | rotateIdentity old new =>
      cases ho
      cases outcome with
      | rotated r => cases r with | ok | error => cases hreply; trivial
      | _ => exact hg.elim
    | _ => exact hr.elim
  | recoverIdentity useBackupCode =>
    cases message with
    | recoverIdentity secret new =>
      cases ho
      cases outcome with
      | recovered r => cases r with | ok | error => cases hreply; trivial
      | _ => exact hg.elim
    | _ => exact hr.elim

/-- The call is an operation for the request that was received. -/
theorem performs_asked {c : QuicCall Conn} {answer : QuicAnswer Conn c} {op : ServerState.Op Conn}
    (hp : c.Performs peerIp connection answer op outcome) (ha : (serves text).allowed g c) :
    ∃ request, g.Asked request ∧ request.Calls peerIp op ∧
      g.observe c answer = { g with outcome := some outcome } := by
  cases hp with
  | register => exact ⟨_, ha, ⟨_, _, rfl⟩, rfl⟩
  | rotate => exact ⟨_, ha, rfl, rfl⟩
  | recover => exact ⟨_, ha, rfl, rfl⟩

/-! ## The invariant -/

structure Sound (text : ServerError → String) (command : Command) (s : Conversation Conn) :
    Prop where
  host : Talks command s.host
    (fun reply v => v.reply = some reply ∧ ∀ message, reply ≠ .error message) s.view
  relay : ∀ p, s.relay = some p → ServesMsg text p (fun tunnel g => g.Ends tunnel) s.served
  dropped : s.relay = none → s.served.guard = s.served.session?
  served : s.served.Sound text
  request : ∀ message, s.view.request = some message → command.Requests message
  unread : s.served.received = none → s.stream.toRelay = s.view.request.toList
  read : ∀ message, s.served.received = some message → s.view.request = some message
  onWay : ∀ message ∈ s.stream.toHost, s.served.sent = some message
  reply : ∀ message, s.view.reply = some message → s.served.sent = some message

/-- What the relay has sent. -/
theorem Sound.expects (h : s.Sound text command) (hm : s.served.sent = some message) :
    command.Expects message := by
  have hreplies := h.served.replied message hm
  unfold Served.Replies at hreplies
  split at hreplies
  · rename_i outcome houtcome
    obtain ⟨request, r, hreceived, hr, hg⟩ := h.served.asked outcome houtcome
    exact expects_reply (h.request _ (h.read _ hreceived)) hr hg hreplies
  · obtain ⟨rfl, -⟩ := hreplies
    exact command.expects_error _

theorem sound_start : (start sha256 text command server).Sound text command where
  host := command.talks_exchange rfl
  relay := by
    rintro p ⟨⟩
    exact serves_fromQuic
  dropped := nofun
  served := .start
  request := nofun
  unread _ := rfl
  read := nofun
  onWay := nofun
  reply := nofun

/-- A step of the command. -/
theorem Sound.host_step {c : Call} {k : Answer c → Prog ControlMessage} {answer : Answer c}
    {stream : Stream} (h : s.Sound text command) (hk : s.host = .call c k)
    (hstream : s.stream.Host c answer stream) :
    ({ s with host := k answer, view := s.view.observe c answer, stream := stream } :
      Conversation Conn).Sound text command := by
  have hhost := h.host
  rw [hk] at hhost
  have hallowed := hhost.1
  cases hstream with
  | @sent message =>
    -- the stream is empty, and nothing was received
    obtain ⟨hnone, hrequests⟩ := hallowed
    have hunread : s.served.received = none := by
      cases hreceived : s.served.received with
      | none => rfl
      | some m => cases hnone.symm.trans (h.read m hreceived)
    have hempty : s.stream.toRelay = [] := by
      rw [h.unread hunread, hnone]
      rfl
    refine ⟨hhost.answer ⟨rfl, trivial⟩, h.relay, h.dropped, h.served, ?_, ?_, ?_, h.onWay, nofun⟩
    · rintro _ ⟨⟩
      exact hrequests
    · intro _
      show s.stream.toRelay ++ [message] = _
      rw [hempty]
      rfl
    · intro m hm
      cases hunread.symm.trans hm
  | @received message rest hto =>
    have hmem : ∀ {m}, m ∈ message :: rest → s.served.sent = some m := fun {m} hm =>
      h.onWay m (hto ▸ hm)
    have hsent := hmem List.mem_cons_self
    refine ⟨hhost.answer ⟨rfl, h.expects hsent⟩, h.relay, h.dropped, h.served, h.request, h.unread,
      h.read, fun m hm => hmem (List.mem_cons_of_mem _ hm), ?_⟩
    rintro _ ⟨⟩
    exact hsent
  | closed =>
    exact ⟨hhost.answer ⟨rfl, trivial⟩, h.relay, h.dropped, h.served, h.request, h.unread, h.read,
      h.onWay, nofun⟩
  | quiet hc =>
    have hsend : ∀ message, c ≠ .send message := by
      rintro message rfl
      cases hc
    have hreceive : c ≠ .receive := by
      rintro rfl
      cases hc
    have hrequest : (s.view.observe c answer).request = s.view.request :=
      View.observe_request hsend
    have hreply : (s.view.observe c answer).reply = s.view.reply :=
      View.observe_reply hsend hreceive
    refine ⟨hhost.answer ⟨rfl, Command.hears_of_quiet hc answer⟩, h.relay, h.dropped, h.served,
      ?_, ?_, ?_, h.onWay, ?_⟩
    · exact hrequest ▸ h.request
    · exact hrequest ▸ h.unread
    · exact hrequest ▸ h.read
    · exact hreply ▸ h.reply

/-- Calls that are no message leave the relay with what it has read and sent. -/
theorem observe_streams {c : QuicCall Conn} (answer : QuicAnswer Conn c) (hc : c ≠ .recvMsg)
    (hs : ∀ message, c ≠ .sendMsg message) :
    (g.observe c answer).received = g.received ∧ (g.observe c answer).sent = g.sent := by
  cases c with
  | recvMsg => exact absurd rfl hc
  | sendMsg message => exact absurd rfl (hs message)
  | _ => exact ⟨rfl, rfl⟩

/-- A call of the relay that is no message. -/
theorem Sound.quiet_step {c : QuicCall Conn}
    {k : QuicAnswer Conn c → Handler Conn (Option OpenedTunnel)} {answer : QuicAnswer Conn c}
    (h : s.Sound text command) (hk : s.relay = some (.call c k)) (hc : c ≠ .recvMsg)
    (hs : ∀ message, c ≠ .sendMsg message) (server : ServerState Conn) :
    ({ s with relay := some (k answer), served := s.served.observe c answer, server := server } :
      Conversation Conn).Sound text command := by
  have hrelay := h.relay _ hk
  obtain ⟨hreceived, hsent⟩ := observe_streams (g := s.served) answer hc hs
  refine ⟨h.host, ?_, nofun, h.served.observe answer hrelay.1, h.request, ?_, ?_, ?_, ?_⟩
  · rintro _ ⟨⟩
    exact hrelay.answer rfl
  · exact hreceived ▸ h.unread
  · exact hreceived ▸ h.read
  · exact hsent ▸ h.onWay
  · exact hsent ▸ h.reply

/-- A reply that is sent, or may have been. -/
theorem Sound.sent_step {k : Bool → Handler Conn (Option OpenedTunnel)} {ok : Bool}
    {toHost : List ControlMessage} (h : s.Sound text command)
    (hk : s.relay = some (.call (.sendMsg message) k))
    (hto : ∀ m ∈ toHost, m = message ∨ m ∈ s.stream.toHost) :
    ({ s with
      relay := some (k ok)
      served := s.served.observe (.sendMsg message) ok
      stream := { s.stream with toHost := toHost } } : Conversation Conn).Sound text command := by
  have hrelay := h.relay _ hk
  obtain ⟨hnone, -⟩ := id hrelay.1
  refine ⟨h.host, ?_, nofun, h.served.observe ok hrelay.1, h.request, h.unread, h.read, ?_, ?_⟩
  · rintro _ ⟨⟩
    exact hrelay.answer rfl
  · intro m hm
    rcases hto m hm with rfl | hm
    · rfl
    · cases hnone.symm.trans (h.onWay m hm)
  · intro m hm
    cases hnone.symm.trans (h.reply m hm)

/-- A call of the relay that is no operation. -/
theorem Sound.relay_step {c : QuicCall Conn}
    {k : QuicAnswer Conn c → Handler Conn (Option OpenedTunnel)} {answer : QuicAnswer Conn c}
    {stream : Stream} (h : s.Sound text command) (hk : s.relay = some (.call c k))
    (hstream : s.stream.Relay c answer stream) :
    ({ s with relay := some (k answer), served := s.served.observe c answer, stream := stream } :
      Conversation Conn).Sound text command := by
  have hrelay := h.relay _ hk
  have hserved := h.served.observe answer hrelay.1
  cases hstream with
  | @received message rest hto =>
    have hstart : s.served = .start := hrelay.1
    -- the request is all that was on its way
    have hrequest : s.view.request = some message := by
      have hunread := h.unread (by rw [hstart]; rfl)
      rw [hto] at hunread
      cases hq : s.view.request with
      | none =>
        rw [hq] at hunread
        cases hunread
      | some m =>
        rw [hq] at hunread
        cases hunread
        rfl
    refine ⟨h.host, ?_, nofun, hserved, h.request, nofun, ?_, h.onWay, h.reply⟩
    · rintro _ ⟨⟩
      exact hrelay.answer rfl
    · rintro _ ⟨⟩
      exact hrequest
  | closed | lost =>
    refine ⟨h.host, ?_, nofun, h.served, h.request, h.unread, h.read, h.onWay, h.reply⟩
    rintro _ ⟨⟩
    exact hrelay.answer rfl
  | sent =>
    refine h.sent_step hk fun m hm => ?_
    rcases List.mem_append.mp hm with hm | hm
    · exact .inr hm
    · exact .inl (List.mem_singleton.mp hm)
  | unsent => exact h.sent_step hk fun m hm => .inr hm
  | accepted | displaced | pending | disarmed | finished | stopped =>
    exact h.quiet_step hk nofun nofun s.server

theorem performs_quiet {c : QuicCall Conn} {answer : QuicAnswer Conn c} {op : ServerState.Op Conn}
    (hp : c.Performs peerIp connection answer op outcome) :
    c ≠ .recvMsg ∧ ∀ message, c ≠ .sendMsg message := by
  cases hp with
  | register | rotate | recover => exact ⟨nofun, nofun⟩

theorem Step.sound (hs : Step J sha256 peerIp connection s e s') (h : s.Sound text command) :
    s'.Sound text command := by
  cases hs with
  | host hk hstream => exact h.host_step hk hstream
  | relay hk hstream => exact h.relay_step hk hstream
  | operation hk hp =>
    obtain ⟨hc, hsend⟩ := performs_quiet hp
    exact h.quiet_step hk hc hsend _
  | cancel hk hc =>
    exact ⟨h.host, nofun, fun _ => serves_guarded (h.relay _ hk).1 hc, h.served, h.request,
      h.unread, h.read, h.onWay, h.reply⟩
  | other => exact ⟨h.host, h.relay, h.dropped, h.served, h.request, h.unread, h.read, h.onWay,
      h.reply⟩

/-! ## The operations -/

/-- The operation is the one that the message asks for. -/
def AsksFor (peerIp : IpAddr) (message : ControlMessage) (op : ServerState.Op Conn) : Prop :=
  ∃ request, Request.ofMessage message = some request ∧ request.Calls peerIp op

/-- `ops` is the operation of the connection, if there was one. -/
structure Recorded (peerIp : IpAddr) (g : Served Conn) (ops : List (ServerState.Event Conn)) :
    Prop where
  idle : g.outcome = none → ops = []
  once : ∀ outcome, g.outcome = some outcome → ∃ e message, ops = [e] ∧ e.outcome = outcome ∧
    g.received = some message ∧ AsksFor peerIp message e.op

theorem operations_append_of_none (h : operations [e] = []) :
    operations (past ++ [e]) = operations past := by
  unfold operations at *
  rw [List.filterMap_append, h, List.append_nil]

theorem operations_append_operation (e : ServerState.Event Conn) :
    operations (past ++ [.operation e]) = operations past ++ [e] := by
  unfold operations
  rw [List.filterMap_append]
  rfl

/-- A call that is no operation changes the outcome of none, and a message is received first. -/
theorem Recorded.relay {ops : List (ServerState.Event Conn)} {c : QuicCall Conn}
    {answer : QuicAnswer Conn c} {stream stream' : Stream} (h : Recorded peerIp g ops)
    (ha : (serves text).allowed g c) (hstream : stream.Relay c answer stream') :
    Recorded peerIp (g.observe c answer) ops := by
  cases hstream with
  | received =>
    obtain rfl : g = .start := ha
    exact ⟨fun _ => h.idle rfl, nofun⟩
  | closed | lost | sent | unsent | accepted | displaced | pending | disarmed | finished
  | stopped => exact ⟨h.idle, h.once⟩

/-- An operation is the first. -/
theorem Recorded.operation {ops : List (ServerState.Event Conn)} {c : QuicCall Conn}
    {answer : QuicAnswer Conn c} {e : ServerState.Event Conn} (h : Recorded peerIp g ops)
    (ha : (serves text).allowed g c) (hp : c.Performs peerIp connection answer e.op e.outcome) :
    Recorded peerIp (g.observe c answer) (ops ++ [e]) := by
  obtain ⟨request, hasked, hcalls, hobserve⟩ := performs_asked hp ha
  obtain ⟨⟨message, hreceived, hrequest⟩, hfirst, -⟩ := hasked
  rw [hobserve, h.idle hfirst]
  refine ⟨nofun, ?_⟩
  rintro _ ⟨⟩
  exact ⟨e, message, rfl, rfl, hreceived, request, hrequest, hcalls⟩

theorem Step.recorded (hs : Step J sha256 peerIp connection s e s') (h : s.Sound text command)
    (hr : Recorded peerIp s.served (operations past)) :
    Recorded peerIp s'.served (operations (past ++ [e])) := by
  cases hs with
  | host | cancel | other =>
    rw [operations_append_of_none rfl]
    exact hr
  | relay hk hstream =>
    rw [operations_append_of_none rfl]
    exact hr.relay (h.relay _ hk).1 hstream
  | operation hk hp =>
    rw [operations_append_operation]
    exact hr.operation (h.relay _ hk).1 hp

theorem sound_of_trace
    (h : Trace (Step J sha256 peerIp connection) (start sha256 text command server) es s) :
    s.Sound text command ∧ Recorded peerIp s.served (operations es) := by
  refine h.history
    (R := fun s past => s.Sound text command ∧ Recorded peerIp s.served (operations past)) ?_
    ⟨sound_start, fun _ => rfl, nofun⟩
  rintro s e s' past ⟨hsound, hr⟩ hs
  exact ⟨hs.sound hsound, hs.recorded hsound hr⟩

theorem Recorded.performed {ops : List (ServerState.Event Conn)} (h : Recorded peerIp g ops)
    {e : ServerState.Event Conn} (he : e ∈ ops) : g.outcome = some e.outcome ∧
      ∃ message, g.received = some message ∧ AsksFor peerIp message e.op := by
  cases ho : g.outcome with
  | none =>
    rw [h.idle ho] at he
    cases he
  | some outcome =>
    obtain ⟨e', message, rfl, rfl, hreceived, hasks⟩ := h.once outcome ho
    obtain rfl := List.mem_singleton.mp he
    exact ⟨rfl, message, hreceived, hasks⟩

theorem Recorded.length_le {ops : List (ServerState.Event Conn)} (h : Recorded peerIp g ops) :
    ops.length ≤ 1 := by
  cases ho : g.outcome with
  | none =>
    rw [h.idle ho]
    exact Nat.zero_le 1
  | some outcome =>
    obtain ⟨e, -, rfl, -⟩ := h.once outcome ho
    exact Nat.le_refl 1

theorem Sound.reads (h : s.Sound text command) (hr : s.served.received = some message) :
    command.Requests message := h.request _ (h.read _ hr)

/-- The relay refuses a request of a command only if the command asks for port 0. -/
theorem Sound.unsupported (h : s.Sound text command) {protocol : Protocol} {localPort : UInt16}
    {token : TunnelToken} {recoveryId : Bytes32}
    (hr : s.served.received = some (.register protocol localPort token recoveryId))
    (hu : protocol ≠ .tcp ∨ localPort = 0) : command = .host 0 := by
  have hrequests := h.reads hr
  cases command with
  | host port =>
    obtain ⟨rfl, rfl⟩ := hrequests
    obtain rfl : localPort = 0 := hu.resolve_left (absurd rfl)
    rfl
  | rotateIdentity | recoverIdentity => exact hrequests.elim

/-- What the command was told is what the operation answered. -/
theorem Sound.told (h : s.Sound text command)
    (hr : Recorded peerIp s.served (operations es)) {reply : ControlMessage}
    (hreply : s.view.reply = some reply) :
    (∃ e ∈ operations es, e.outcome.reply text = some reply) ∨
      command = .host 0 ∧ reply = .error Handler.unsupportedReason := by
  have hreplies := h.served.replied reply (h.reply reply hreply)
  unfold Served.Replies at hreplies
  split at hreplies
  · rename_i outcome houtcome
    obtain ⟨e, -, hops, rfl, -⟩ := hr.once outcome houtcome
    exact .inl ⟨e, hops ▸ List.mem_singleton_self e, hreplies⟩
  · obtain ⟨rfl, protocol, localPort, token, recoveryId, hreceived, hu⟩ := hreplies
    exact .inr ⟨h.unsupported hreceived hu, rfl⟩

/-- The program of the relay is over, but has opened no tunnel. -/
def Abandoned (s : Conversation Conn) : Prop :=
  s.relay = none ∨ ∃ e, s.relay = some (.fail e)

/-- **Request and reply.** In every run of a command and the relay over a connection at most one
operation is done, the one that the command's request asks for. The command succeeds with what the
operation has answered, and a rejection is its error, unless the command asks for port 0. No reply
is one that the command cannot make sense of, and no request one that the relay cannot. The two
never wait for each other. A connection that a recovery displaces is closed before the command
knows, and a registration whose program is dropped or fails is guarded. -/
theorem request_reply (J : SerdeJson) (sha256 : Bytes32 → Bytes32) (peerIp : IpAddr)
    (connection : Conn) (text : ServerError → String) (command : Command)
    (server : ServerState Conn) (s : Conversation Conn) (es : List (Event Conn))
    (h : Trace (Step J sha256 peerIp connection) (start sha256 text command server) es s) :
    (operations es).length ≤ 1 ∧
    (∀ e ∈ operations es, ∃ message, s.view.request = some message ∧ command.Requests message ∧
      AsksFor peerIp message e.op) ∧
    (∀ reply, s.host = .pure reply → ∃ e ∈ operations es, e.outcome.reply text = some reply) ∧
    (∀ e, s.host = .fail e → e.unexpected = false ∧ ∀ reason, e.rejection = some reason →
      (∃ e ∈ operations es, e.outcome.reply text = some (.error reason)) ∨
        command = .host 0 ∧ reason = Handler.unsupportedReason) ∧
    (∀ e, s.relay = some (.fail e) → e ≠ .unexpectedMessage ∧
      (e = .unsupported → command = .host 0)) ∧
    (∀ k k', s.host = .call .receive k → s.relay = some (.call .recvMsg k') →
      s.stream.toRelay ≠ []) ∧
    (∀ e ∈ operations es, ∀ port displaced, e.outcome = .recovered (.ok (port, some displaced)) →
      s.view.reply ≠ none → s.served.closed = some displaced) ∧
    (s.Abandoned → ∀ e ∈ operations es, ∀ registration,
      e.outcome = .registered (.ok registration) →
        s.served.guard = some (registration.tokenId, registration.sessionId)) := by
  obtain ⟨hsound, hrecorded⟩ := sound_of_trace h
  have hhost := hsound.host
  refine ⟨hrecorded.length_le, fun e he => ?_, fun reply hp => ?_, fun e hf => ?_, fun e hf => ?_,
    fun k k' hk hk' => ?_, fun e he port displaced ho hreply => ?_,
    fun habandoned e he registration ho => ?_⟩
  · obtain ⟨-, message, hreceived, hasks⟩ := hrecorded.performed he
    exact ⟨message, hsound.read _ hreceived, hsound.reads hreceived, hasks⟩
  · rw [hp] at hhost
    obtain ⟨hreply, hne⟩ := hhost
    rcases hsound.told hrecorded hreply with hop | ⟨-, rfl⟩
    · exact hop
    · exact absurd rfl (hne _)
  · rw [hf] at hhost
    obtain ⟨hunexpected, hblames⟩ := hhost
    refine ⟨hunexpected, fun reason hr => ?_⟩
    rcases hsound.told hrecorded (hblames reason hr) with hop | ⟨hzero, hreason⟩
    · exact .inl hop
    · cases hreason
      exact .inr ⟨hzero, rfl⟩
  · have hfails : s.served.Fails e := hsound.relay _ hf
    constructor
    · intro hunexpected
      obtain ⟨message, hreceived, hregister, hnone⟩ := hfails.unexpected hunexpected
      have hrequests := hsound.reads hreceived
      cases message with
      | register protocol localPort token recoveryId => exact hregister _ _ _ _ rfl
      | rotateIdentity | recoverIdentity => cases hnone
      | _ => cases command <;> exact hrequests.elim
    · intro hunsupported
      obtain ⟨protocol, localPort, token, recoveryId, hreceived, hu⟩ :=
        hfails.unsupported hunsupported
      exact hsound.unsupported hreceived hu
  · rw [hk] at hhost
    obtain ⟨-, message, hrequest⟩ := hhost.1
    have hstart : s.served = .start := (hsound.relay _ hk').1
    rw [hsound.unread (by rw [hstart]; rfl), hrequest]
    nofun
  · obtain ⟨houtcome, -⟩ := hrecorded.performed he
    obtain ⟨reply, hr⟩ := Option.ne_none_iff_exists'.mp hreply
    have hsent : s.served.sent ≠ none := by
      rw [hsound.reply reply hr]
      nofun
    rw [hsound.served.closed hsent, Served.displaced?, houtcome, ho]
  · obtain ⟨houtcome, -⟩ := hrecorded.performed he
    have hguard : s.served.guard = s.served.session? := by
      rcases habandoned with hnone | ⟨error, hf⟩
      · exact hsound.dropped hnone
      · exact (hsound.relay _ hf).guarded
    rw [hguard, Served.session?, houtcome, ho]

/-! ## One rotation -/

/-- The command goes through a part that uses the files only. -/
theorem Step.run {α : Type} {p : Prog α} {f : α → Prog ControlMessage} {a : α}
    (hp : p.Returns (fun c => c.talks = false) a) (hk : s.host = p.bind f) : ∃ view es,
      Trace (Step J sha256 peerIp connection) s es { s with host := f a, view := view } := by
  induction hp generalizing s with
  | pure =>
    refine ⟨s.view, [], ?_⟩
    rw [show f _ = s.host from hk.symm]
    exact .refl
  | @call c k a answer hc _ ih =>
    obtain ⟨view, es, ht⟩ := ih
      (s := { s with host := (k answer).bind f, view := s.view.observe c answer }) rfl
    exact ⟨view, _, .cons (.host hk (.quiet hc)) ht⟩

theorem returns_readExisting (path : Path) (token : TunnelToken) :
    (readExisting path).Returns (fun c => c.talks = false) token := by
  have htoken : toToken token.toList = some token := toToken_eq_some.mpr rfl
  refine .call (some .regular) rfl (.call (some token.toList) rfl ?_)
  simp only [Program.bind, htoken]
  exact .pure

theorem returns_loadOrCreateAt (path : Path) (token : TunnelToken) :
    (loadOrCreateAt path).Returns (fun c => c.talks = false) token :=
  .call (some .regular) rfl (returns_readExisting path token)

theorem returns_prepareRotation {old new : TunnelToken} (hne : old ≠ new) :
    prepareRotation.Returns (fun c => c.talks = false) ⟨old, new⟩ := by
  refine .bind (returns_readExisting .identity old) (.bind (returns_loadOrCreateAt .pending new) ?_)
  rw [if_neg hne]
  exact .pure

theorem returns_finish (p : PendingRotation) :
    p.finish.Returns (fun c => c.talks = false) () := by
  refine .bind (returns_readExisting .identity p.oldToken) ?_
  rw [if_neg (not_not.mpr rfl)]
  refine .bind (returns_readExisting .pending p.newToken) ?_
  rw [if_neg (not_not.mpr rfl)]
  exact .call true rfl .pure

/-- A host without a claim rotates its identity. -/
theorem request_reply_rotation : ∃ (s : Conversation Unit) (es : List (Event Unit)),
    s.host = .pure (.identityRotated none) ∧
    ∃ e ∈ operations es, e.outcome.reply (fun _ => "") = some (.identityRotated none) := by
  have hne : (.replicate 32 7 : TunnelToken) ≠ .replicate 32 8 := by decide
  have hserves : ServerState.Serves sampleJson id ServerState.sampleServer
      ⟨.rotate (.replicate 32 7) (.replicate 32 8), 0, .saved, .rotated (.ok none)⟩
      ServerState.sampleServer :=
    .mk (.refl _) rfl rfl
  obtain ⟨view, es₁, h₁⟩ : ∃ view es, Trace (Step sampleJson id sampleIp ())
      (start id (fun _ => "") .rotateIdentity ServerState.sampleServer) es
      { start id (fun _ => "") .rotateIdentity ServerState.sampleServer with
        host := (rotateOnConnection ⟨.replicate 32 7, .replicate 32 8⟩).bind
          fun port => .pure (.identityRotated port)
        view := view } :=
    Step.run (f := fun p => (rotateOnConnection p).bind fun port => .pure (.identityRotated port))
      (returns_prepareRotation hne) Program.bind_assoc
  obtain ⟨s₂, es₂, h₂, hk⟩ : ∃ s es, Trace (Step sampleJson id sampleIp ())
      { start id (fun _ => "") .rotateIdentity ServerState.sampleServer with
        host := (rotateOnConnection ⟨.replicate 32 7, .replicate 32 8⟩).bind
          fun port => .pure (.identityRotated port)
        view := view } es s ∧
      s.host = ((PendingRotation.finish ⟨.replicate 32 7, .replicate 32 8⟩).bind
        fun _ => .pure none).bind fun port => .pure (.identityRotated port) :=
    ⟨_, _,
      .cons (.host rfl .sent) <|
      .cons (.relay rfl (.accepted true)) <|
      .cons (.relay rfl (.received rfl)) <|
      .cons (.operation rfl .rotate hserves) <|
      .cons (.relay rfl (.sent true)) <|
      .single (.host rfl (.received rfl)),
      rfl⟩
  obtain ⟨view', es₃, h₃⟩ : ∃ view es, Trace (Step sampleJson id sampleIp ()) s₂ es
      { s₂ with host := .pure (.identityRotated none), view := view } :=
    Step.run (f := fun _ => .pure (.identityRotated none)) (returns_finish _)
      (hk.trans Program.bind_assoc)
  obtain ⟨-, -, hresult, -⟩ := request_reply _ _ _ _ _ _ _ _ _ ((h₁.trans h₂).trans h₃)
  exact ⟨{ s₂ with host := .pure (.identityRotated none), view := view' }, _, rfl, hresult _ rfl⟩

end

end Conversation
end GameNet
