import GameNet.Custody
import GameNet.Machine
import GameNet.Registration
import GameNet.StateText

/-!
# GameNet.Credential

One machine and the relay, which keeps its leases in a file. The machine runs one command at a
time, which may crash between any two calls; a request or a reply may be lost; the relay serves a
request at most once, and not after the next one is sent; it may restart from its file. Other
clients use the relay too.

The invariant (`Sound`) is that memory and file respect the custody of the machine: its live claims
are at the tokens in `identity.bin` and `identity.bin.pending`. From the confirmation of a rotation
or of a recovery on, they are at the token that was confirmed, so the rename of the pending file
loses none.
-/

namespace GameNet

variable {Conn : Type}

/-- The method of `ServerState` that serves a request from `peerIp`. -/
def Request.Calls (peerIp : IpAddr) : Request → ServerState.Op Conn → Prop
  | .register token recoveryId, op =>
    ∃ connection bind, op = .register token (some recoveryId) peerIp connection bind
  | .rotate old new, op => op = .rotate old new
  | .recover secret new, op => op = .recover secret new peerIp

/-- The reply to a request that was served. -/
def ServerState.Outcome.Replies : Outcome Conn → ControlMessage → Prop
  | .registered (.ok registration), reply => reply = .tunnelReady registration.publicPort
  | .rotated (.ok port), reply => reply = .identityRotated port
  | .recovered (.ok (port, _)), reply => reply = .identityRecovered port
  | _, reply => ∃ text, reply = .error text

namespace ServerState.Outcome.Replies

variable {outcome : Outcome Conn} {reply : ControlMessage}

/-- A reply that is no error says how the operation went. -/
theorem ok (h : outcome.Replies reply) (hne : ∀ text, reply ≠ .error text) :
    (∃ registration, outcome = .registered (.ok registration) ∧
        reply = .tunnelReady registration.publicPort) ∨
      (∃ port, outcome = .rotated (.ok port) ∧ reply = .identityRotated port) ∨
      ∃ port displaced, outcome = .recovered (.ok (port, displaced)) ∧
        reply = .identityRecovered port := by
  have hno : ¬∃ text, reply = .error text := fun ⟨text, he⟩ => hne text he
  cases outcome with
  | registered r =>
    cases r with
    | ok registration => exact .inl ⟨registration, rfl, h⟩
    | error e => exact absurd h hno
  | ended r => exact absurd h hno
  | rotated r =>
    cases r with
    | ok port => exact .inr (.inl ⟨port, rfl, h⟩)
    | error e => exact absurd h hno
  | recovered r =>
    cases r with
    | ok result => exact .inr (.inr ⟨result.1, result.2, rfl, h⟩)
    | error e => exact absurd h hno
  | refreshed r => exact absurd h hno

theorem rotated {port : Option UInt16} (h : outcome.Replies (.identityRotated port)) :
    outcome = .rotated (.ok port) := by
  rcases h.ok nofun with ⟨_, -, he⟩ | ⟨_, rfl, he⟩ | ⟨_, _, -, he⟩
  · cases he
  · cases he
    rfl
  · cases he

theorem recovered {port : UInt16} (h : outcome.Replies (.identityRecovered port)) :
    ∃ displaced, outcome = .recovered (.ok (port, displaced)) := by
  rcases h.ok nofun with ⟨_, -, he⟩ | ⟨_, -, he⟩ | ⟨_, displaced, rfl, he⟩
  · cases he
  · cases he
  · cases he
    exact ⟨displaced, rfl⟩

end ServerState.Outcome.Replies

/-- The reply confirms that the request has moved the claim to the token, and names its port. A
rotation without a port has found no claim. -/
def Acknowledges : ControlMessage → ControlMessage → TunnelToken → Option UInt16 → Prop
  | .rotateIdentity _ new, .identityRotated publicPort, token, port =>
    token = new ∧ port = publicPort
  | .recoverIdentity _ new, .identityRecovered publicPort, token, port =>
    token = new ∧ port = some publicPort
  | _, _, _, _ => False

theorem Acknowledges.confirmed {view : View} {request reply : ControlMessage}
    {token : TunnelToken} {port : Option UInt16} (h : Acknowledges request reply token port)
    (hrequest : view.request = some request) (hreply : view.reply = some reply) :
    view.Confirmed token := by
  cases request with
  | rotateIdentity old new =>
    cases reply with
    | identityRotated publicPort =>
      obtain ⟨rfl, rfl⟩ := h
      exact .inl ⟨old, _, hrequest, hreply⟩
    | _ => cases h
  | recoverIdentity secret new =>
    cases reply with
    | identityRecovered publicPort =>
      obtain ⟨rfl, rfl⟩ := h
      exact .inr ⟨secret, _, hrequest, hreply⟩
    | _ => cases h
  | _ => cases h

namespace View

variable {view : View} {c : Call} {answer : Answer c} {token : TunnelToken}

theorem observe_request (hc : ∀ message, c ≠ .send message) :
    (view.observe c answer).request = view.request := by
  cases c with
  | send message => exact absurd rfl (hc message)
  | persistNoclobber path token =>
    simp only [observe]
    split <;> rfl
  | rename source target =>
    simp only [observe]
    split <;> rfl
  | _ => rfl

theorem observe_reply (hc : ∀ message, c ≠ .send message) (hr : c ≠ .receive) :
    (view.observe c answer).reply = view.reply := by
  cases c with
  | send message => exact absurd rfl (hc message)
  | receive => exact absurd rfl hr
  | persistNoclobber path token =>
    simp only [observe]
    split <;> rfl
  | rename source target =>
    simp only [observe]
    split <;> rfl
  | _ => rfl

theorem Confirmed.acknowledged (h : view.Confirmed token) : ∃ request reply port,
    view.request = some request ∧ view.reply = some reply ∧
      Acknowledges request reply token port := by
  rcases h with ⟨old, port, hrequest, hreply⟩ | ⟨secret, port, hrequest, hreply⟩
  · exact ⟨_, _, _, hrequest, hreply, rfl, rfl⟩
  · exact ⟨_, _, _, hrequest, hreply, rfl, rfl⟩

end View

namespace Machine

variable {sha256 : Bytes32 → Bytes32} {fresh : TunnelToken → Prop} {secret token : TunnelToken}
  {m m' : Machine} {e : Event} {k : TokenId} {port : Option UInt16}

/-- The token is in `identity.bin` or in `identity.bin.pending`. -/
def Keeps (sha256 : Bytes32 → Bytes32) (m : Machine) (k : TokenId) : Prop :=
  ∃ token, (m.files.Has .identity token ∨ m.files.Has .pending token) ∧
    .fromToken sha256 token = k

/-- The command that runs has the token confirmed, or will have when it receives the reply. -/
def Acknowledged (m : Machine) (token : TunnelToken) (port : Option UInt16) : Prop :=
  ∃ r request reply, m.running = some r ∧ r.view.request = some request ∧
    (r.view.reply = some reply ∨ m.answer = some reply) ∧ Acknowledges request reply token port

/-- A request that is on its way is the last one of the command that runs, if it has sent any. -/
def Current (m : Machine) : Prop :=
  ∀ r request message, m.running = some r → r.view.request = some request →
    m.inFlight = some message → message = request

/-- The random token that is not in a file yet. -/
def drawn (m : Machine) : Option TunnelToken := m.running.bind fun r => r.view.drawn

theorem drawn_eq_some : m.drawn = some token ↔ m.Holds .drawn token := Option.bind_eq_some_iff

theorem Acknowledged.of_step (hs : Step sha256 fresh secret m e m')
    (h : m'.Acknowledged token port) : m.Acknowledged token port := by
  obtain ⟨r, request, reply, hr, hrequest, hreply, hack⟩ := h
  cases hs with
  | start =>
    cases hr
    cases hrequest
  | stop => cases hr
  | lose => exact ⟨r, request, reply, hr, hrequest, hreply, hack⟩
  | @call c _ view env answer files hr' ho hs =>
    cases hr
    by_cases hsend : ∃ message, c = .send message
    · obtain ⟨message, rfl⟩ := hsend
      rcases hreply with hreply | hreply <;> cases hreply
    · have hsend : ∀ message, c ≠ .send message := fun message he => hsend ⟨message, he⟩
      have hrequest := (View.observe_request hsend).symm.trans hrequest
      by_cases hc : c = .receive
      · subst hc
        rcases hreply with hreply | hreply
        · -- what is received is what was in the mailbox
          cases hs
          rcases ho.reply rfl with hn | ha
          · rw [hn] at hreply
            cases hreply
          · exact ⟨_, request, reply, hr', hrequest, .inr (ha.symm.trans hreply), hack⟩
        · cases hreply
      · refine ⟨_, request, reply, hr', hrequest, ?_, hack⟩
        rcases hreply with hreply | hreply
        · exact .inl ((View.observe_reply hsend hc).symm.trans hreply)
        · refine .inr ?_
          cases c with
          | send message => exact absurd rfl (hsend message)
          | receive => exact absurd rfl hc
          | _ => exact hreply

theorem Current.step (h : m.Current) (hs : Step sha256 fresh secret m e m') : m'.Current := by
  intro r request message hr hrequest hin
  cases hs with
  | start =>
    cases hr
    cases hrequest
  | stop => cases hr
  | lose => cases hin
  | @call c _ view env answer files hr' ho hs =>
    cases hr
    by_cases hsend : ∃ message', c = .send message'
    · obtain ⟨message', rfl⟩ := hsend
      cases hin
      exact Option.some.inj hrequest
    · have hsend : ∀ message', c ≠ .send message' := fun message' he => hsend ⟨message', he⟩
      refine h _ _ _ hr' ((View.observe_request hsend).symm.trans hrequest) ?_
      cases c with
      | send message' => exact absurd rfl (hsend message')
      | _ => exact hin

theorem current_answered {reply : Option ControlMessage} : (m.answered reply).Current := by
  intro r request message _ _ hin
  cases hin

/-- The files keep what they have, but for the rename that installs a confirmed token. -/
theorem Changes.keeps (sha256 : Bytes32 → Bytes32) (h : Changes fresh m m') :
    (∀ {k}, m.Keeps sha256 k → m'.Keeps sha256 k) ∨
      ∃ token port, m.Acknowledged token port ∧ m'.files.Has .identity token := by
  cases h with
  | quiet hf =>
    refine .inl fun {k} hk => ?_
    simp only [Keeps, hf]
    exact hk
  | drew _ hf =>
    refine .inl fun {k} hk => ?_
    simp only [Keeps, hf]
    exact hk
  | @created path token _ hnone _ hf _ =>
    -- the file that is created was not there
    have hkept : ∀ {p token'}, m.files.Has p token' → m'.files.Has p token' := by
      intro p token' hh
      have hne : p ≠ path := by
        rintro rfl
        rw [Files.Has, hnone] at hh
        cases hh
      rw [Files.Has, hf, Files.set, if_neg hne]
      exact hh
    refine .inl ?_
    rintro k ⟨token', hh, rfl⟩
    exact ⟨token', hh.imp hkept hkept, rfl⟩
  | @renamed r token hr hc _ hf _ =>
    obtain ⟨request, reply, port, hrequest, hreply, hack⟩ := hc.acknowledged
    refine .inr ⟨token, port, ⟨r, request, reply, hr, hrequest, .inl hreply, hack⟩, ?_⟩
    rw [Files.Has, hf]
    rfl

end Machine

/-- A machine with the tokens it has ever had, and the relay. -/
structure Link (Conn : Type) where
  machine : Machine
  issued : List TunnelToken
  relay : ServerState.Run Conn

namespace Link

inductive Event (Conn : Type) where
  | moved (e : Machine.Event)
  | served (e : ServerState.Event Conn)
  /-- Another client's request, or the relay's own doing. -/
  | other (e : ServerState.Event Conn)
  | restarted

/-- The machine has had a token of this fingerprint. -/
def Issued (sha256 : Bytes32 → Bytes32) (s : Link Conn) (k : TokenId) : Prop :=
  ∃ token ∈ s.issued, .fromToken sha256 token = k

/-- Other clients have neither the machine's tokens nor its recovery secret. -/
def Foreign (sha256 : Bytes32 → Bytes32) (secret : TunnelToken) (s : Link Conn) :
    ServerState.Op Conn → Prop
  | .register token recoveryId _ _ _ => ¬s.Issued sha256 (.fromToken sha256 token) ∧
    recoveryId ≠ some (recoveryFingerprint sha256 secret)
  | .rotate old new => ¬s.Issued sha256 (.fromToken sha256 old) ∧
    ¬s.Issued sha256 (.fromToken sha256 new)
  | .recover other new _ => TokenId.fromToken sha256 other ≠ .fromToken sha256 secret ∧
    ¬s.Issued sha256 (.fromToken sha256 new)
  | .endSession _ _ | .refreshAndSave => True

inductive Step (J : SerdeJson) (sha256 : Bytes32 → Bytes32) (secret : TunnelToken) :
    Link Conn → Event Conn → Link Conn → Prop where
  /-- A random token collides with none that the relay knows. -/
  | move {s : Link Conn} {e : Machine.Event} {m : Machine} :
      Machine.Step sha256 (fun token => Custody.Unknown J s.relay (.fromToken sha256 token)) secret
        s.machine e m →
      Step J sha256 secret s (.moved e)
        { s with machine := m, issued := m.drawn.toList ++ s.issued }
  | serve {s : Link Conn} {message : ControlMessage} {request : Request} {peerIp : IpAddr}
      {e : ServerState.Event Conn} {relay : ServerState.Run Conn}
      {reply : Option ControlMessage} :
      s.machine.inFlight = some message → Request.ofMessage message = some request →
      request.Calls peerIp e.op → ServerState.Step J sha256 s.relay e relay →
      (∀ m ∈ reply, e.outcome.Replies m) →
      Step J sha256 secret s (.served e)
        { s with machine := s.machine.answered reply, relay := relay }
  | other {s : Link Conn} {e : ServerState.Event Conn} {relay : ServerState.Run Conn} :
      s.Foreign sha256 secret e.op → ServerState.Step J sha256 s.relay e relay →
      Step J sha256 secret s (.other e) { s with relay := relay }
  | restart {s : Link Conn} {now : UInt64} {io : LoadIo} {server : ServerState Conn}
      {store : LeaseStore} : s.relay.clock ≤ now →
      ServerState.loadOrNew J sha256 s.relay.server.store now io = (.ok server, store) →
      Step J sha256 secret s .restarted { s with relay := ⟨server, now, now⟩ }

/-- A claim at a token of the machine, or enrolled with its recovery key. -/
def Owns (sha256 : Bytes32 → Bytes32) (secret : TunnelToken) (s : Link Conn) (k : TokenId)
    (lease : Lease) : Prop :=
  s.Issued sha256 k ∨ lease.recoveryId = some (.fromToken sha256 secret)

/-- `P` holds of the token and the port of every live claim of the machine. -/
def Claims (sha256 : Bytes32 → Bytes32) (secret : TunnelToken) (s : Link Conn)
    (P : TokenId → UInt16 → Prop) : Prop :=
  ∀ k lease now, s.relay.clock ≤ now → s.relay.server.leases.leases.lookup k = some lease →
    lease.expired now = false → s.Owns sha256 secret k lease → P k lease.port

/-- No command runs, and a relay that has just been started has no claim of the machine. -/
structure Initial (J : SerdeJson) (sha256 : Bytes32 → Bytes32) (secret : TunnelToken)
    (s : Link Conn) : Prop where
  idle : s.machine.running = none ∧ s.machine.inFlight = none
  recovery : s.machine.files.Has .recovery secret
  issued : ∀ {slot token}, s.machine.Holds slot token → token ∈ s.issued
  started : ServerState.Started J sha256 s.relay
  unclaimed : s.Claims sha256 secret fun _ _ => False

/-- Where the claims of the machine may be: at the tokens in its files. -/
def custody (sha256 : Bytes32 → Bytes32) (secret : TunnelToken) (s : Link Conn) : Custody where
  mine := s.Issued sha256
  recoveryId := .fromToken sha256 secret
  place k _ := s.machine.Keeps sha256 k

structure Sound (J : SerdeJson) (sha256 : Bytes32 → Bytes32) (secret : TunnelToken)
    (s : Link Conn) : Prop where
  machine : s.machine.Sound sha256 secret
  current : s.machine.Current
  issued : ∀ {slot token}, s.machine.Holds slot token → token ∈ s.issued
  synced : ServerState.Synced J s.relay
  custody : (s.custody sha256 secret).Relay J s.relay
  settled : ∀ {token port}, s.machine.Acknowledged token port →
    ((s.custody sha256 secret).settled (.fromToken sha256 token) port).Relay J s.relay

variable {J : SerdeJson} {sha256 : Bytes32 → Bytes32} {secret token : TunnelToken}
  {s s' : Link Conn} {e : Event Conn} {k : TokenId} {port : Option UInt16}

/-! ## What the relay is asked for -/

/-- The machine's requests are for its own claims. -/
theorem Sound.permits {message : ControlMessage} {request : Request} {peerIp : IpAddr}
    {op : ServerState.Op Conn} {tableOp : LeaseTable.Op} (h : s.Sound J sha256 secret)
    (hin : s.machine.inFlight = some message) (hr : Request.ofMessage message = some request)
    (hc : request.Calls peerIp op) (hop : op.Performs sha256 tableOp) :
    (s.custody sha256 secret).Permits tableOp := by
  have hasked := h.machine.asked hin
  -- a token in the files is one of the machine's, and a claim may be there
  have hmine : ∀ slot {token}, s.machine.Holds slot token →
      (s.custody sha256 secret).mine (.fromToken sha256 token) :=
    fun _ _ hh => ⟨_, h.issued hh, rfl⟩
  cases message with
  | register protocol localPort token recoveryId =>
    obtain ⟨hidentity, rfl⟩ := hasked
    simp only [Request.ofMessage] at hr
    split at hr
    · cases hr
    · cases hr
      obtain ⟨_, _, rfl⟩ := hc
      obtain ⟨_, rfl⟩ := hop
      refine ⟨iff_of_true (hmine .identity hidentity) rfl, ?_⟩
      exact fun _ _ => ⟨token, .inl hidentity, rfl⟩
  | rotateIdentity old new =>
    obtain ⟨hold, hnew⟩ := hasked
    cases hr
    obtain rfl := hc
    obtain rfl := hop
    refine ⟨iff_of_true (hmine .pending hnew) (hmine .identity hold), ?_⟩
    exact fun _ _ => ⟨new, .inr hnew, rfl⟩
  | recoverIdentity recoverySecret new =>
    obtain ⟨rfl, hnew⟩ := hasked
    cases hr
    obtain rfl := hc
    obtain rfl := hop
    refine ⟨iff_of_true (hmine .pending hnew) rfl, ?_⟩
    exact fun _ _ => ⟨new, .inr hnew, rfl⟩
  | _ => cases hr

theorem Foreign.permits {op : ServerState.Op Conn} {tableOp : LeaseTable.Op} {c : Custody}
    (hf : s.Foreign sha256 secret op) (hop : op.Performs sha256 tableOp)
    (hmine : c.mine = s.Issued sha256) (hkey : c.recoveryId = .fromToken sha256 secret) :
    c.Permits tableOp := by
  cases op with
  | register token recoveryId peerIp connection bind =>
    obtain ⟨_, rfl⟩ := hop
    have hne : ¬c.mine (.fromToken sha256 token) := by
      rw [hmine]
      exact hf.1
    refine ⟨iff_of_false hne ?_, fun hk => absurd hk hne⟩
    rw [hkey]
    intro he
    obtain ⟨id, hid, he⟩ := Option.map_eq_some_iff.mp he
    refine hf.2 ?_
    rw [hid]
    exact congrArg some (TokenId.mk.inj he)
  | endSession tokenId sessionId =>
    obtain rfl := hop
    trivial
  | rotate old new =>
    obtain rfl := hop
    have hne : ¬c.mine (.fromToken sha256 new) := by
      rw [hmine]
      exact hf.2
    refine ⟨iff_of_false hne ?_, fun hk => absurd hk hne⟩
    rw [hmine]
    exact hf.1
  | recover other new peerIp =>
    obtain rfl := hop
    have hne : ¬c.mine (.fromToken sha256 new) := by
      rw [hmine]
      exact hf.2
    refine ⟨iff_of_false hne ?_, fun hk => absurd hk hne⟩
    rw [hkey]
    exact hf.1
  | refreshAndSave =>
    obtain rfl := hop
    trivial

/-! ## Steps -/

theorem Sound.move {event : Machine.Event} {m : Machine} (h : s.Sound J sha256 secret)
    (hs : Machine.Step sha256 (fun token => Custody.Unknown J s.relay (.fromToken sha256 token))
      secret s.machine event m) :
    Sound J sha256 secret { s with machine := m, issued := m.drawn.toList ++ s.issued } := by
  have hchanges := h.machine.changes hs
  obtain ⟨before, hcomes⟩ := hchanges.comes
  have hissued : ∀ k,
      (Issued sha256 { s with machine := m, issued := m.drawn.toList ++ s.issued } k ↔
        s.Issued sha256 k) ∨ Custody.Unknown J s.relay k := by
    intro k
    by_cases hk : s.Issued sha256 k
    · obtain ⟨token, htoken, rfl⟩ := hk
      exact .inl (iff_of_true ⟨token, List.mem_append_right _ htoken, rfl⟩ ⟨token, htoken, rfl⟩)
    · by_cases hk' : Issued sha256
          { s with machine := m, issued := m.drawn.toList ++ s.issued } k
      · obtain ⟨token, htoken, rfl⟩ := hk'
        rcases List.mem_append.mp htoken with hd | htoken
        · have hd := Machine.drawn_eq_some.mp (Option.mem_toList.mp hd)
          rcases hcomes.origin hd with ⟨-, hfresh⟩ | hheld
          · exact .inr hfresh
          · exact absurd ⟨token, h.issued hheld, rfl⟩ hk
        · exact absurd ⟨token, htoken, rfl⟩ hk
      · exact .inl (iff_of_false hk' hk)
  constructor
  · exact h.machine.step hs
  · exact h.current.step hs
  · intro slot token hh
    rcases hcomes.origin hh with ⟨rfl, -⟩ | hh
    · exact List.mem_append_left _ (Option.mem_toList.mpr (Machine.drawn_eq_some.mpr hh))
    · exact List.mem_append_right _ (h.issued hh)
  · exact h.synced
  · rcases hchanges.keeps sha256 with hkeeps | ⟨token, port, hack, hidentity⟩
    · exact h.custody.mono rfl hissued hkeeps
    · -- the claims are at the token that goes to `identity.bin`
      refine (h.settled hack).mono rfl hissued ?_
      rintro k p ⟨rfl, -⟩
      exact ⟨token, .inl hidentity, rfl⟩
  · intro token port hack
    exact (h.settled (hack.of_step hs)).mono rfl hissued id

/-- The reply to the command's request is about the claims the relay has. -/
theorem Sound.acknowledge {message reply : ControlMessage} {request : Request} {peerIp : IpAddr}
    {event : ServerState.Event Conn} {relay : ServerState.Run Conn} (hJ : J.Lawful)
    (h : s.Sound J sha256 secret) (hin : s.machine.inFlight = some message)
    (hr : Request.ofMessage message = some request) (hc : request.Calls peerIp event.op)
    (hs : ServerState.Step J sha256 s.relay event relay) (hreply : event.outcome.Replies reply)
    (hack : Acknowledges message reply token port) :
    ((s.custody sha256 secret).settled (.fromToken sha256 token) port).Relay J relay := by
  have hasked := h.machine.asked hin
  have hp : ∀ tableOp, event.op.Performs sha256 tableOp →
      (s.custody sha256 secret).Permits tableOp := fun _ hop => h.permits hin hr hc hop
  obtain ⟨op, now, io, outcome⟩ := event
  cases message with
  | rotateIdentity old new =>
    cases reply with
    | identityRotated publicPort =>
      obtain ⟨rfl, rfl⟩ := hack
      obtain ⟨hold, hnew⟩ := hasked
      cases hr
      obtain rfl := hc
      obtain rfl := hreply.rotated
      have hidentity : s.machine.Holds .identity old := hold
      have hpending : s.machine.Holds .pending token := hnew
      refine h.custody.rotated hJ h.synced (hp _ rfl) ⟨_, h.issued hpending, rfl⟩ ?_ hs
      rintro k p ⟨token', hh | hh, rfl⟩
      · have hh : s.machine.Holds .identity token' := hh
        exact .inl (congrArg _ (hh.unique hidentity))
      · have hh : s.machine.Holds .pending token' := hh
        exact .inr (congrArg _ (hh.unique hpending))
    | _ => cases hack
  | recoverIdentity recoverySecret new =>
    cases reply with
    | identityRecovered publicPort =>
      obtain ⟨rfl, rfl⟩ := hack
      obtain ⟨rfl, hnew⟩ := hasked
      cases hr
      obtain rfl := hc
      obtain ⟨displaced, rfl⟩ := hreply.recovered
      exact h.custody.recovered hJ h.synced rfl (hp _ rfl) hs
    | _ => cases hack
  | _ => cases hack

theorem Sound.step (hJ : J.Lawful) (h : s.Sound J sha256 secret)
    (hs : Step J sha256 secret s e s') : s'.Sound J sha256 secret := by
  have hw := h.synced.wellFormed
  cases hs with
  | move hs => exact h.move hs
  | @serve message request peerIp event relay reply hin hr hc hs hreply =>
    have hp : ∀ tableOp, event.op.Performs sha256 tableOp →
        (s.custody sha256 secret).Permits tableOp := fun _ hop => h.permits hin hr hc hop
    refine ⟨h.machine.answered, Machine.current_answered, ?_, hs.synced hJ h.synced,
      h.custody.step hJ hw hp hs, ?_⟩
    · intro slot token hh
      have hh : s.machine.Holds slot token := by cases slot <;> exact hh
      exact h.issued hh
    · rintro token port ⟨r, request', reply', hrun, hrequest, hreply', hack⟩
      rcases hreply' with hreply' | hanswer
      · -- a command that has its reply has no request on its way
        have hnone := h.machine.replied hrun (.inl (by rw [hreply']; rfl))
        rw [hin] at hnone
        cases hnone
      · obtain rfl := h.current _ _ _ hrun hrequest hin
        have hreply' : reply = some reply' := by
          simp only [Machine.answered] at hanswer
          split at hanswer
          · exact hanswer
          · cases hanswer
        have hsettled := h.acknowledge hJ hin hr hc hs (hreply _ hreply') hack
        exact hsettled
  | @other event relay hf hs =>
    refine ⟨h.machine, h.current, h.issued, hs.synced hJ h.synced, ?_, fun hack => ?_⟩
    · exact h.custody.step hJ hw (fun _ hop => hf.permits hop rfl rfl) hs
    · exact (h.settled hack).step hJ hw (fun _ hop => hf.permits hop rfl rfl) hs
  | @restart now io server store hle hload =>
    have hsynced : ServerState.Synced J ⟨server, now, now⟩ := by
      obtain ⟨records, hstores, -⟩ := h.custody.store
      have hstarted : ServerState.Started J sha256 ⟨server, now, now⟩ :=
        ⟨_, io, Custody.current_of_stores hstores, by rw [hload], rfl⟩
      exact hstarted.synced
    exact ⟨h.machine, h.current, h.issued, hsynced, h.custody.restart hle hload,
      fun hack => (h.settled hack).restart hle hload⟩

theorem Initial.sound (h : s.Initial J sha256 secret) : s.Sound J sha256 secret := by
  obtain ⟨hrunning, hin⟩ := h.idle
  have hsynced := h.started.synced
  have htable : (s.custody sha256 secret).Table s.relay.clock s.relay.server.leases := by
    intro k lease hl hx
    have hno := h.unclaimed k lease s.relay.clock UInt64.le_rfl hl hx
    exact ⟨iff_of_false (fun hk => hno (.inl hk)) fun hkey => hno (.inr hkey),
      fun hk => (hno (.inl hk)).elim⟩
  refine ⟨⟨h.recovery, ?_, ?_, ?_, ?_, ?_⟩, ?_, h.issued, hsynced,
    .of_table hsynced h.started.healthy htable, ?_⟩
  · simp [hrunning]
  · simp [hrunning]
  · simp [hrunning]
  · simp [hin]
  · simp [hrunning]
  · intro r request message hr
    rw [hrunning] at hr
    cases hr
  · rintro token port ⟨r, _, _, hr, -⟩
    rw [hrunning] at hr
    cases hr

/-! ## The credential -/

/-- The token is in `identity.bin`, and every live claim of the machine is at this token, on the
port. -/
def Installed (sha256 : Bytes32 → Bytes32) (secret : TunnelToken) (s : Link Conn)
    (token : TunnelToken) (port : UInt16) : Prop :=
  s.machine.files.Has .identity token ∧
    s.Claims sha256 secret fun k p => k = .fromToken sha256 token ∧ p = port

theorem claims_of_relay {c : Custody} (h : c.Relay J s.relay) (hmine : c.mine = s.Issued sha256)
    (hkey : c.recoveryId = .fromToken sha256 secret) : s.Claims sha256 secret c.place := by
  intro k lease now hle hl hx hown
  have hc := h.table k lease hl (Lease.not_expired_mono hle hx)
  refine hc.placed ?_
  rcases hown with hk | hk
  · rw [hmine]
    exact hk
  · rw [hc.enrolled, hkey]
    exact hk

/-- What the command that runs has had confirmed, it has installed when it has returned. -/
theorem Sound.installed {view : View} {request reply : ControlMessage} {port : UInt16}
    (h : s.Sound J sha256 secret) (hr : s.machine.Returned view)
    (hrequest : view.request = some request) (hreply : view.reply = some reply)
    (hack : Acknowledges request reply token (some port)) :
    s.Installed sha256 secret token port := by
  have hconfirmed : view.Confirmed token := hack.confirmed hrequest hreply
  have hsettled := h.settled ⟨_, request, reply, hr, hrequest, .inl hreply, hack⟩
  refine ⟨h.machine.returned hr hconfirmed, ?_⟩
  intro k lease now hle hl hx hown
  obtain ⟨hk, hp⟩ := claims_of_relay hsettled rfl rfl k lease now hle hl hx hown
  exact ⟨hk, (Option.some.inj hp).symm⟩

/-- **Rotation and recovery lose no claim.** Every live claim of the machine is at the token in
`identity.bin` or `identity.bin.pending`. A rotation or a recovery returns right after its `finish`
has succeeded: from then on, and until the process is gone, `identity.bin` has the token that the
relay's acknowledgement is about, and every live claim of the machine is at this token, on the port
that the acknowledgement names. -/
theorem credential_kept (hJ : J.Lawful)
    (h : Trace.Reached (Initial J sha256 secret) (Step J sha256 secret) s) :
    (s.Claims sha256 secret fun k _ => s.machine.Keeps sha256 k) ∧
      ∀ view request reply token port, s.machine.Returned view →
        view.request = some request → view.reply = some reply →
        Acknowledges request reply token (some port) → s.Installed sha256 secret token port := by
  have hsound : s.Sound J sha256 secret :=
    h.invariant (fun _ => Initial.sound) fun _ _ _ hi hs => hi.step hJ hs
  refine ⟨claims_of_relay hsound.custody rfl rfl, ?_⟩
  intro view request reply token port hr hrequest hreply hack
  exact hsound.installed hr hrequest hreply hack

/-! ## One recovery

A host registers. Its machine has a token pending, which a recovery then moves the claim to. -/

/-- The next call of the command that runs, if it can make it. -/
def advance (s : Link Conn) : Link Conn :=
  match s.machine.proceed with
  | none => s
  | some m => { s with machine := m, issued := m.drawn.toList ++ s.issued }

def start (sha256 : Bytes32 → Bytes32) (command : Command) (s : Link Conn) : Link Conn :=
  { s with
    machine :=
      { s.machine with running := some ⟨command.program sha256, .start⟩, answer := none } }

/-- The relay has served the request at `now`. -/
def served (J : SerdeJson) (sha256 : Bytes32 → Bytes32) (op : ServerState.Op Conn) (now : UInt64)
    (reply : ControlMessage) (s : Link Conn) : Link Conn :=
  let done := s.relay.server.perform J sha256 now .saved op
  { s with
    machine := s.machine.answered (some reply)
    relay := ⟨done.2, now, if s.relay.server.saved sha256 now op done.1 then now
      else s.relay.lastSave⟩ }

theorem reached_advance (n : Nat) (h : Trace.Reached (Initial J sha256 secret)
    (Step J sha256 secret) s) :
    Trace.Reached (Initial J sha256 secret) (Step J sha256 secret) (advance^[n] s) := by
  induction n generalizing s with
  | zero => exact h
  | succ n ih =>
    refine ih ?_
    unfold advance
    split
    · exact h
    · rename_i hm
      obtain ⟨e, he⟩ := Machine.proceed_step hm
      exact h.next (.move he)

theorem reached_start (command : Command) (h : Trace.Reached (Initial J sha256 secret)
    (Step J sha256 secret) s) :
    Trace.Reached (Initial J sha256 secret) (Step J sha256 secret) (s.start sha256 command) := by
  cases hr : s.machine.running with
  | none => exact h.next (.move (.start hr))
  | some r => exact (h.next (.move (.stop hr))).next (.move (.start rfl))

theorem reached_served {message reply : ControlMessage} {request : Request} {peerIp : IpAddr}
    {op : ServerState.Op Conn} {now : UInt64}
    (h : Trace.Reached (Initial J sha256 secret) (Step J sha256 secret) s)
    (hin : s.machine.inFlight = some message) (hr : Request.ofMessage message = some request)
    (hc : request.Calls peerIp op) (hle : s.relay.clock ≤ now)
    (hreply : (s.relay.server.perform J sha256 now .saved op).1.Replies reply) :
    Trace.Reached (Initial J sha256 secret) (Step J sha256 secret)
      (s.served J sha256 op now reply) := by
  refine h.next (.serve hin hr hc (.mk (.refl _) rfl hle Prod.mk.eta.symm) ?_)
  rintro m ⟨⟩
  exact hreply

def sampleFiles : Files
  | .identity => some (.file (List.replicate 32 7))
  | .pending => some (.file (List.replicate 32 9))
  | .recovery => some (.file (List.replicate 32 8))

/-- The claim as it is registered at 1000 and saved. -/
def registeredRecord : LeaseRecord :=
  { tokenId := ⟨sampleDigest⟩, retiredTokenIds := []
    recoveryId := some (.fromToken sampleSha256 (.replicate 32 8)), port := 10000
    lastIp := some sampleIp, expiresAtMs := 301000 }

/-- The claim as it is recovered at 2000 and saved. -/
def recoveredRecord : LeaseRecord :=
  { tokenId := .fromToken sampleSha256 (.replicate 32 9), retiredTokenIds := [⟨sampleDigest⟩]
    recoveryId := some (.fromToken sampleSha256 (.replicate 32 8)), port := 10000
    lastIp := some sampleIp, expiresAtMs := 302000 }

def savedState (record : LeaseRecord) : PersistedV2 := ⟨2, [PersistedLease.fromRecord record]⟩

def recoveryJson : SerdeJson :=
  .printing [savedState registeredRecord, savedState recoveredRecord]

theorem recoveryJson_lawful : recoveryJson.Lawful := by
  have hne : (savedState registeredRecord).toJson.toBytes ≠
      (savedState recoveredRecord).toJson.toBytes := by decide +kernel
  refine SerdeJson.printing_lawful fun a ha b hb he => ?_
  simp only [List.mem_cons, List.not_mem_nil, or_false] at ha hb
  rcases ha with rfl | rfl
  · rcases hb with rfl | rfl
    · rfl
    · exact absurd he hne
  · rcases hb with rfl | rfl
    · exact absurd he.symm hne
    · rfl

theorem recoveryJson_saves {record : LeaseRecord} (store : LeaseStore)
    (h : record = registeredRecord ∨ record = recoveredRecord) :
    ∃ bytes, store.save recoveryJson [record] .saved =
      (.ok (), { store with file := some bytes }) := by
  have hprint : recoveryJson.toVecPretty (savedState record) =
      some (savedState record).toJson.toBytes := by
    rcases h with rfl | rfl
    · simp [recoveryJson, SerdeJson.printing]
    · simp [recoveryJson, SerdeJson.printing]
  have hlen : ¬maxStateBytes < (savedState record).toJson.toBytes.length := by
    rcases h with rfl | rfl
    · decide +kernel
    · decide +kernel
  exact ⟨_, LeaseStore.save_singleton hprint hlen store .saved⟩

def registering : ServerState.Op Unit :=
  .register (.replicate 32 7) (some (recoveryFingerprint sampleSha256 (.replicate 32 8))) sampleIp
    none fun _ => .bound

def recovering : ServerState.Op Unit := .recover (.replicate 32 8) (.replicate 32 9) sampleIp

def registeredTable : LeaseTable :=
  (LeaseTable.new.activateWithRecovery ⟨sampleDigest⟩
    (some (.fromToken sampleSha256 (.replicate 32 8))) sampleIp 10000 1000).2

theorem perform_registering : ∃ s,
    ServerState.sampleServer.perform recoveryJson sampleSha256 1000 .saved registering =
      (.registered (.ok ⟨10000, ⟨sampleDigest⟩, ⟨1⟩⟩), s) ∧
    s.persistenceHealthy = true ∧ s.leases = registeredTable := by
  have hloop : ServerState.sampleServer.registerWithRecovery recoveryJson sampleSha256
      (.replicate 32 7) (some (recoveryFingerprint sampleSha256 (.replicate 32 8))) sampleIp 1000
      none (fun _ => .bound) .saved =
      ServerState.sampleServer.commitRegistration recoveryJson ⟨sampleDigest⟩
        (some (.fromToken sampleSha256 (.replicate 32 8))) sampleIp 1000 none 10000 .saved := rfl
  have hact : ServerState.sampleServer.leases.activateWithRecovery ⟨sampleDigest⟩
      (some (.fromToken sampleSha256 (.replicate 32 8))) sampleIp 10000 1000 =
      (.ok ⟨1⟩, registeredTable) := rfl
  have hsnap : registeredTable.snapshot 1000 = [registeredRecord] := rfl
  obtain ⟨bytes, hsave⟩ := recoveryJson_saves ServerState.sampleServer.store (.inl rfl)
  simp only [registering, ServerState.perform, hloop, ServerState.commitRegistration, hact, hsnap,
    hsave]
  exact ⟨_, rfl, rfl, rfl⟩

theorem perform_recovering {s : ServerState Unit} (hh : s.persistenceHealthy = true)
    (ht : s.leases = registeredTable) : ∃ displaced s',
    s.perform recoveryJson sampleSha256 2000 .saved recovering =
      (.recovered (.ok (10000, displaced)), s') ∧
    (s'.leases.leases.lookup (.fromToken sampleSha256 (.replicate 32 9))).map (·.port) =
      some 10000 := by
  obtain ⟨r, t, hq⟩ : ∃ r t, registeredTable.recoverClaim
      (.fromToken sampleSha256 (.replicate 32 8)) (.fromToken sampleSha256 (.replicate 32 9))
      sampleIp 2000 = (r, t) :=
    ⟨_, _, Prod.mk.eta.symm⟩
  have hr : (registeredTable.recoverClaim (.fromToken sampleSha256 (.replicate 32 8))
      (.fromToken sampleSha256 (.replicate 32 9)) sampleIp 2000).1.toOption.map
        (fun result => (result.port, result.changed)) = some (10000, true) := by decide +kernel
  have hsnap : (registeredTable.recoverClaim (.fromToken sampleSha256 (.replicate 32 8))
      (.fromToken sampleSha256 (.replicate 32 9)) sampleIp 2000).2.snapshot 2000 =
        [recoveredRecord] := by decide +kernel
  have hport : ((registeredTable.recoverClaim (.fromToken sampleSha256 (.replicate 32 8))
      (.fromToken sampleSha256 (.replicate 32 9)) sampleIp 2000).2.leases.lookup
        (.fromToken sampleSha256 (.replicate 32 9))).map (·.port) = some 10000 := by decide +kernel
  rw [hq] at hr hsnap hport
  obtain ⟨bytes, hsave⟩ := recoveryJson_saves s.store (.inr rfl)
  cases r with
  | error e => cases hr
  | ok result =>
    obtain ⟨hresult, hchanged⟩ := Prod.mk.inj (Option.some.inj hr)
    simp only [recovering, ServerState.perform, ServerState.recover, hh, ht, hq, hchanged, hsnap,
      hsave, hresult, Bool.not_true, Bool.false_eq_true, if_false]
    exact ⟨_, _, rfl, hport⟩

def begun : Link Unit :=
  ⟨⟨sampleFiles, none, none, none⟩, [.replicate 32 7, .replicate 32 9],
    ⟨ServerState.sampleServer, 0, 0⟩⟩

def hosting : Link Unit := advance^[7] (begun.start sampleSha256 (.host 7777))

def hosted : Link Unit :=
  hosting.served recoveryJson sampleSha256 registering 1000 (.tunnelReady 10000)

def recoveryAsked : Link Unit := advance^[9] (hosted.start sampleSha256 (.recoverIdentity false))

/-- The machine has the reply and has renamed the pending file. -/
def recoveryFinished : Link Unit :=
  advance^[7]
    (recoveryAsked.served recoveryJson sampleSha256 recovering 2000 (.identityRecovered 10000))

theorem initial_begun : begun.Initial recoveryJson sampleSha256 (.replicate 32 8) where
  idle := ⟨rfl, rfl⟩
  recovery := rfl
  issued {slot token} hh := by
    cases slot with
    | identity =>
      have ht := Entry.file.inj (Option.some.inj hh)
      exact List.mem_cons.mpr (.inl (Machine.toList_injective ht.symm))
    | pending =>
      have ht := Entry.file.inj (Option.some.inj hh)
      exact List.mem_cons_of_mem _ (List.mem_singleton.mpr (Machine.toList_injective ht.symm))
    | drawn =>
      obtain ⟨r, hr, -⟩ := hh
      cases hr
  started := ⟨⟨none, .absent⟩, ⟨.created, .saved, .saved⟩, nofun, rfl, rfl⟩
  unclaimed k lease now _ hl := by cases hl

theorem advance_relay (n : Nat) : (advance^[n] s).relay = s.relay := by
  induction n generalizing s with
  | zero => rfl
  | succ n ih =>
    refine ih.trans ?_
    unfold advance
    split <;> rfl

theorem hosted_registered : ∃ s lastSave, hosted.relay = ⟨s, 1000, lastSave⟩ ∧
    hosting.relay = ⟨ServerState.sampleServer, 0, 0⟩ ∧
    ServerState.sampleServer.perform recoveryJson sampleSha256 1000 .saved registering =
      (.registered (.ok ⟨10000, ⟨sampleDigest⟩, ⟨1⟩⟩), s) ∧
    s.persistenceHealthy = true ∧ s.leases = registeredTable := by
  obtain ⟨s, hs, hh, ht⟩ := perform_registering
  have hrelay : hosting.relay = ⟨ServerState.sampleServer, 0, 0⟩ := advance_relay 7
  refine ⟨s, 1000, ?_, hrelay, hs, hh, ht⟩
  simp only [hosted, served, hrelay, hs]
  rfl

theorem reached_hosted : Trace.Reached (Initial recoveryJson sampleSha256 (.replicate 32 8))
    (Step recoveryJson sampleSha256 (.replicate 32 8)) hosted := by
  obtain ⟨s, -, -, hrelay, hs, -⟩ := hosted_registered
  have hin : hosting.machine.inFlight = some (.register .tcp 7777 (.replicate 32 7)
      (recoveryFingerprint sampleSha256 (.replicate 32 8))) := by decide
  have hreached := reached_advance 7 (reached_start (.host 7777) (.of_init initial_begun))
  refine reached_served hreached hin rfl ⟨none, fun _ => .bound, rfl⟩ ?_ ?_
  · show hosting.relay.clock ≤ 1000
    rw [hrelay]
    decide
  · show (ServerState.perform _ _ hosting.relay.server _ _ _).1.Replies _
    rw [hrelay, hs]
    rfl

theorem reached_recoveryFinished :
    Trace.Reached (Initial recoveryJson sampleSha256 (.replicate 32 8))
      (Step recoveryJson sampleSha256 (.replicate 32 8)) recoveryFinished ∧
    (recoveryFinished.relay.server.leases.leases.lookup
      (.fromToken sampleSha256 (.replicate 32 9))).map (·.port) = some 10000 := by
  obtain ⟨s, lastSave, hrelay, -, -, hh, ht⟩ := hosted_registered
  obtain ⟨displaced, s', hs, hport⟩ := perform_recovering hh ht
  have hrelay : recoveryAsked.relay = ⟨s, 1000, lastSave⟩ := (advance_relay 9).trans hrelay
  have hin : recoveryAsked.machine.inFlight =
      some (.recoverIdentity (.replicate 32 8) (.replicate 32 9)) := by decide
  have hreached := reached_advance 9 (reached_start (.recoverIdentity false) reached_hosted)
  constructor
  · have hcalls : Request.Calls sampleIp (.recover (.replicate 32 8) (.replicate 32 9))
      recovering := rfl
    refine reached_advance 7 (reached_served hreached hin rfl hcalls ?_ ?_)
    · rw [show recoveryAsked.relay.clock = 1000 from congrArg ServerState.Run.clock hrelay]
      decide
    · show (ServerState.perform _ _ recoveryAsked.relay.server _ _ _).1.Replies _
      rw [hrelay, hs]
      rfl
  · rw [recoveryFinished, advance_relay]
    simp only [served, hrelay, hs]
    exact hport

/-- The recovery has returned: its token is in `identity.bin`, and the claim is at it, on the port that
the relay named. -/
theorem credential_kept_recovery :
    (recoveryFinished.relay.server.leases.leases.lookup
      (.fromToken sampleSha256 (.replicate 32 9))).map (·.port) = some 10000 ∧
    recoveryFinished.Installed sampleSha256 (.replicate 32 8) (.replicate 32 9) 10000 := by
  obtain ⟨hreached, hport⟩ := reached_recoveryFinished
  have hreturned : (recoveryFinished.machine.running.map fun r =>
      (r.program.result?, r.view.request, r.view.reply)) =
      some (some (), some (.recoverIdentity (.replicate 32 8) (.replicate 32 9)),
        some (.identityRecovered 10000)) := by decide
  obtain ⟨⟨program, view⟩, hr, he⟩ := Option.map_eq_some_iff.mp hreturned
  simp only [Prod.mk.injEq] at he
  obtain ⟨hresult, hrequest, hreply⟩ := he
  obtain rfl : program = _ := Program.result?_eq_some hresult
  exact ⟨hport, (credential_kept recoveryJson_lawful hreached).2 view _ _ (.replicate 32 9) 10000 hr
    hrequest hreply ⟨rfl, rfl⟩⟩

end Link
end GameNet
