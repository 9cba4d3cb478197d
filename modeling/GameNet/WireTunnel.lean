import GameNet.TunnelPair
import GameNet.Wire

/-!
# GameNet.WireTunnel

The two ends of a tunnel with the bytes of its control stream between them. What is one step in
`TunnelPair`, that a message is sent or read, takes as many writes and reads here as the transport
likes; the relay's end may be dropped in the middle of a message, and the agent may read before the
rest of a message is written.

`Carries` says which messages the bytes are. It makes every run here one of `TunnelPair`, whose
control stream is a queue of messages (`control_stream`).
-/

namespace GameNet

/-- A `TunnelPair` in which `send_msg` of `accept_player` and `recv_msg` of `connect` or of the control
task are under way, with what was written to the control `stream` and not read. -/
structure WireTunnel where
  relay : Tunnel
  players : List PlayerTask
  opened : Nat
  finished : Bool
  closed : Bool
  agent : AgentTunnel
  sending : Writing Empty Unit
  stream : List UInt8
  receiving : Reading Message.RecvError (Option ControlMessage)

section

variable {q q' : Semaphore × Tunnel} {e : Tunnel.Event}

theorem Tunnel.Step.admitted (hs : Tunnel.Step q e q') (he : e = .accepted .admitting) :
    q.2.phase = .accepting ∧ q'.2.phase = .admitting := by
  cases hs with
  | @accepted g t hp =>
    have ha : (t.acceptPlayer g).1 = .admitting := Tunnel.Event.accepted.inj he
    refine ⟨hp, ?_⟩
    rw [(Tunnel.acceptPlayer_phase hp).2.2, if_pos ha]
  | _ => cases he

theorem Tunnel.Step.announces {streamId : UInt64} (hs : Tunnel.Step q (.sent streamId) q') :
    q.2.phase = .admitting ∧ q'.2.phase = .accepting := by
  cases hs with
  | sent hp => exact ⟨hp, rfl⟩

/-- A step that neither begins nor ends to admit a player. -/
theorem Tunnel.Step.stays (hs : Tunnel.Step q e q') (he : e ≠ .accepted .admitting)
    (hsent : ∀ streamId, e ≠ .sent streamId)
    (hp : q'.2.phase = .accepting ∨ q'.2.phase = .admitting) :
    q.2.phase = q'.2.phase ∧ q.2.streamCounter = q'.2.streamCounter := by
  cases hs with
  | agentClosed | acceptFailed => simp [Tunnel.finish] at hp
  | sendFailed => simp [Tunnel.failPlayer, Tunnel.finish] at hp
  | returned => simp at hp
  | dropped =>
    simp only [Tunnel.drop] at hp
    split at hp <;> simp at hp
  | @accepted g t =>
    rw [Tunnel.acceptPlayer_rejected fun ha => he (congrArg Tunnel.Event.accepted ha)]
    exact ⟨rfl, rfl⟩
  | sent => exact absurd rfl (hsent _)
  | playerEnded | joined => exact ⟨rfl, rfl⟩

theorem TunnelPair.Step.control_sent {p p' : TunnelPair} {streamId : UInt64}
    (hs : TunnelPair.Step p (.relay (.sent streamId)) p') :
    p'.control = p.control ++ [.newConnection streamId] := by
  cases hs with
  | alone he => cases he
  | sent => rfl

end

namespace WireTunnel

/-- The tunnel with messages for bytes. -/
def pair (w : WireTunnel) (control : List ControlMessage) : TunnelPair :=
  ⟨w.relay, w.players, w.opened, control, w.finished, w.closed, w.agent⟩

/-- With the last of its bytes a message is sent or read; a part of it may be written or received
before. -/
inductive Event where
  | pair (e : TunnelPair.Event)
  | wrote
  | received
  | malformed (e : Message.RecvError)

def Event.whole : Event → Option TunnelPair.Event
  | .pair e => some e
  | .wrote | .received | .malformed _ => none

/-- The agent waits for a message. -/
def receives (w : WireTunnel) : Prop := w.agent.phase = .connecting ∨ w.agent.reading = true

inductive Step : WireTunnel → Event → WireTunnel → Prop where
  -- a step that is possible whatever messages are on their way
  | quiet {w w' : WireTunnel} {e : TunnelPair.Event} (he : e ≠ .relay (.accepted .admitting))
      (hs : ∀ control, TunnelPair.Step (w.pair control) e (w'.pair control))
      (hsending : w'.sending = w.sending) (hstream : w'.stream = w.stream)
      (hreceiving : w'.receiving = w.receiving) : Step w (.pair e) w'
  | admitting {w : WireTunnel} {g g' : Semaphore} {t : Tunnel}
      (hs : Tunnel.Step (g, w.relay) (.accepted .admitting) (g', t)) :
      Step w (.pair (.relay (.accepted .admitting)))
        { w with relay := t, sending := Wire.sendMsg (.newConnection t.streamCounter) }
  | wrote {w : WireTunnel} {c c' : WriteCall} {k k' : { n : Nat // 0 < n } → Writing Empty Unit}
      (n : { n : Nat // 0 < n }) (hp : w.relay.phase = .admitting) (hc : w.closed = false)
      (hw : w.sending = .call c k) (hn : n.val ≤ c.bytes.length) (hk : k n = .call c' k') :
      Step w .wrote { w with sending := k n, stream := w.stream ++ c.bytes.take n }
  -- the last write of `send_msg`
  | sent {w : WireTunnel} {c : WriteCall} {k : { n : Nat // 0 < n } → Writing Empty Unit}
      {g g' : Semaphore} {t : Tunnel} (n : { n : Nat // 0 < n }) (hc : w.closed = false)
      (hw : w.sending = .call c k) (hn : n.val ≤ c.bytes.length) (hk : k n = .pure ())
      (hs : Tunnel.Step (g, w.relay) (.sent w.relay.streamCounter) (g', t)) :
      Step w (.pair (.relay (.sent w.relay.streamCounter)))
        { w with
          relay := t
          players := w.players ++ [.opening]
          sending := k n
          stream := w.stream ++ c.bytes.take n }
  | received {w : WireTunnel} {c c' : ReadCall}
      {k k' : List UInt8 → Reading Message.RecvError (Option ControlMessage)}
      {bytes rest : List UInt8} (hr : w.receives) (hw : w.receiving = .call c k)
      (hb : w.stream = bytes ++ rest) (hne : bytes ≠ []) (hn : bytes.length ≤ c.size)
      (hk : k bytes = .call c' k') :
      Step w .received { w with receiving := k bytes, stream := rest }
  -- the last read of `recv_msg`
  | ready {w : WireTunnel} {c : ReadCall}
      {k : List UInt8 → Reading Message.RecvError (Option ControlMessage)}
      {bytes rest : List UInt8} {port : UInt16} (hr : w.agent.phase = .connecting)
      (hw : w.receiving = .call c k) (hb : w.stream = bytes ++ rest) (hne : bytes ≠ [])
      (hn : bytes.length ≤ c.size) (hk : k bytes = .pure (some (.tunnelReady port))) :
      Step w (.pair (.ready port))
        { w with agent := w.agent.start, receiving := Wire.recvMsg, stream := rest }
  | read {w : WireTunnel} {c : ReadCall}
      {k : List UInt8 → Reading Message.RecvError (Option ControlMessage)}
      {bytes rest : List UInt8} {message : ControlMessage} (hr : w.agent.reading = true)
      (hw : w.receiving = .call c k) (hb : w.stream = bytes ++ rest) (hne : bytes ≠ [])
      (hn : bytes.length ≤ c.size) (hk : k bytes = .pure (some message)) :
      Step w (.pair (.read message)) { w with receiving := Wire.recvMsg, stream := rest }
  -- the end of the stream may be within a message
  | readEnded {w : WireTunnel} {c : ReadCall}
      {k : List UInt8 → Reading Message.RecvError (Option ControlMessage)}
      (hr : w.agent.reading = true) (hw : w.receiving = .call c k) (hf : w.finished = true)
      (hb : w.stream = []) (hk : k [] = .pure none ∨ ∃ e, k [] = .fail e) :
      Step w (.pair .readEnded) { w with agent := { w.agent with reading := false } }
  | malformed {w : WireTunnel} {c : ReadCall}
      {k : List UInt8 → Reading Message.RecvError (Option ControlMessage)}
      {bytes rest : List UInt8} {e : Message.RecvError} (hr : w.receives)
      (hw : w.receiving = .call c k) (hb : w.stream = bytes ++ rest) (hne : bytes ≠ [])
      (hn : bytes.length ≤ c.size) (hk : k bytes = .fail e) :
      Step w (.malformed e)
        { w with
          agent :=
            if w.agent.phase = .connecting then w.agent.fail
            else { w.agent with reading := false }
          stream := rest }

/-- `from_quic` has written its answer, and `connect` calls `recv_msg`. -/
def start (localPort publicPort : UInt16) : WireTunnel :=
  { relay := .opened
    players := []
    opened := 0
    finished := false
    closed := false
    agent := .connecting localPort
    sending := .pure ()
    stream := Message.sendMsg (.tunnelReady publicPort)
    receiving := Wire.recvMsg }

/-! ## The messages that the bytes are -/

/-- `control` was sent and not read; `part` is what is written of the message that the relay sends,
and `got` what the agent has read of the first message. -/
structure Carries (w : WireTunnel) (control : List ControlMessage) (got part : List UInt8) :
    Prop where
  channel : Wire.code.Channel .unexpectedEof w.receiving got w.stream control part
  accepting : w.relay.phase = .accepting → part = []
  admitting : w.relay.phase = .admitting →
    Wire.code.Sends (.newConnection w.relay.streamCounter) w.sending part ∧
      ∃ c k, w.sending = .call c k

variable {w w' : WireTunnel} {e : Event} {control : List ControlMessage} {got part : List UInt8}
  {message : ControlMessage} {localPort publicPort : UInt16}

theorem admits_newConnection (streamId : UInt64) : Wire.code.admits (.newConnection streamId) := by
  show (Bincode.leBytes 4 2 ++ Bincode.leBytes 8 streamId.toNat).length ≤ 65536
  rw [List.length_append, Bincode.length_leBytes, Bincode.length_leBytes]
  omega

theorem admits_tunnelReady (port : UInt16) : Wire.code.admits (.tunnelReady port) := by
  show (Bincode.leBytes 4 1 ++ Bincode.leBytes 2 port.toNat).length ≤ 65536
  rw [List.length_append, Bincode.length_leBytes, Bincode.length_leBytes]
  omega

theorem pending_recvMsg : ∃ c k, Wire.recvMsg = .call c k := ⟨_, _, rfl⟩

theorem pending_sendMsg : ∃ c k, Wire.sendMsg message = .call c k := ⟨_, _, Wire.sendMsg_eq⟩

theorem carries_start :
    (start localPort publicPort).Carries [.tunnelReady publicPort] [] [] where
  channel :=
    { split := by simp [start, Wire.code]
      admits := by simpa using admits_tunnelReady publicPort
      part := ⟨_, FrameCode.begins_nil (admits_tunnelReady publicPort)⟩
      first := fun _ _ _ => List.nil_prefix
      reader := Wire.receives_recvMsg
      pending := pending_recvMsg }
  accepting _ := rfl
  admitting h := by cases h

/-- What the relay's end has to do with the messages. -/
theorem Carries.of_relay {control' : List ControlMessage} {got' : List UInt8}
    (h : w.Carries control got part) (hsending : w'.sending = w.sending)
    (hphase : w'.relay.phase = .accepting ∨ w'.relay.phase = .admitting →
      w.relay.phase = w'.relay.phase ∧ w.relay.streamCounter = w'.relay.streamCounter)
    (hc : Wire.code.Channel .unexpectedEof w'.receiving got' w'.stream control' part) :
    w'.Carries control' got' part where
  channel := hc
  accepting hp := h.accepting ((hphase (.inl hp)).1.trans hp)
  admitting hp := by
    obtain ⟨hsame, hcounter⟩ := hphase (.inr hp)
    rw [hsending, ← hcounter]
    exact h.admitting (hsame.trans hp)

theorem Carries.quiet {e : TunnelPair.Event} (h : w.Carries control got part)
    (he : e ≠ .relay (.accepted .admitting))
    (hs : ∀ control, TunnelPair.Step (w.pair control) e (w'.pair control))
    (hsending : w'.sending = w.sending) (hstream : w'.stream = w.stream)
    (hreceiving : w'.receiving = w.receiving) : w'.Carries control got part := by
  refine h.of_relay hsending ?_ ?_
  · intro hp
    cases e with
    | relay e =>
      obtain ⟨g, g', ht⟩ := (hs []).relay_step
      refine ht.stays (fun heq => he (heq ▸ rfl)) ?_ hp
      rintro streamId rfl
      have hcontrol := (hs []).control_sent
      simp [pair] at hcontrol
    | _ =>
      have hsame : w'.relay = w.relay := (hs []).relay_same (by simp)
      rw [hsame]
      exact ⟨rfl, rfl⟩
  · rw [hreceiving, hstream]
    exact h.channel

/-- Every step is one of `TunnelPair`, or none of its steps, and no message is malformed. -/
theorem Carries.step (h : w.Carries control got part) (hs : Step w e w') :
    (∀ err, e ≠ .malformed err) ∧ ∃ control' got' part',
      Trace TunnelPair.Step (w.pair control) e.whole.toList (w'.pair control') ∧
        w'.Carries control' got' part' := by
  cases hs with
  | quiet he hs hsending hstream hreceiving =>
    exact ⟨by simp, control, got, part, .single (hs control),
      h.quiet he hs hsending hstream hreceiving⟩
  | @admitting g g' t hs =>
    obtain ⟨haccepting, hadmitting⟩ := hs.admitted rfl
    have hpart := h.accepting haccepting
    refine ⟨by simp, control, got, part, .single (.alone rfl hs), h.channel, fun hp => ?_,
      fun _ => ⟨?_, pending_sendMsg⟩⟩
    · cases hadmitting.symm.trans hp
    · rw [hpart]
      exact Wire.sends_sendMsg
  | @wrote c c' k k' n hp hc hw hn hk =>
    obtain ⟨hsends, -⟩ := h.admitting hp
    rw [hw] at hsends
    have hsends := FrameCode.sends_answer n hsends
    have hbegins := hsends
    rw [hk] at hbegins
    refine ⟨by simp, control, got, part ++ c.bytes.take n, .refl,
      h.channel.write (FrameCode.begins_of_sends hbegins (admits_newConnection _)), ?_,
      fun _ => ⟨hsends, _, _, hk⟩⟩
    intro haccepting
    cases hp.symm.trans haccepting
  | @sent c k g g' t n hc hw hn hk hs =>
    obtain ⟨hadmitting, haccepting⟩ := hs.announces
    obtain ⟨hsends, -⟩ := h.admitting hadmitting
    rw [hw] at hsends
    have hsends := FrameCode.sends_answer n hsends
    rw [hk] at hsends
    have hframe : part ++ c.bytes.take n =
        Wire.code.frame (.newConnection w.relay.streamCounter) := hsends
    have hchannel := h.channel.put (admits_newConnection w.relay.streamCounter) hframe
    refine ⟨by simp, control ++ [.newConnection w.relay.streamCounter], got, [],
      .single (.sent hc hs), hchannel, fun _ => rfl, fun hp => ?_⟩
    cases haccepting.symm.trans hp
  | @received c c' k k' bytes rest hr hw hb hne hn hk =>
    have hchannel := h.channel
    rw [hw, hb] at hchannel
    exact ⟨by simp, control, got ++ bytes, part, .refl,
      h.of_relay rfl (fun _ => ⟨rfl, rfl⟩) (hchannel.read hne hn ⟨_, _, hk⟩)⟩
  | @ready c k bytes rest port hr hw hb hne hn hk =>
    have hchannel := h.channel
    rw [hw, hb] at hchannel
    obtain ⟨control', rfl, hnext⟩ :=
      hchannel.take hne hn hk Wire.receives_recvMsg pending_recvMsg
    exact ⟨by simp, control', [], part, .single (.ready hr rfl),
      h.of_relay rfl (fun _ => ⟨rfl, rfl⟩) hnext⟩
  | @read c k bytes rest message hr hw hb hne hn hk =>
    have hchannel := h.channel
    rw [hw, hb] at hchannel
    obtain ⟨control', rfl, hnext⟩ :=
      hchannel.take hne hn hk Wire.receives_recvMsg pending_recvMsg
    exact ⟨by simp, control', [], part, .single (.read hr rfl),
      h.of_relay rfl (fun _ => ⟨rfl, rfl⟩) hnext⟩
  | @readEnded c k hr hw hf hb hk =>
    have hempty : control = [] := by
      by_contra hne
      exact h.channel.nonempty hne hb
    exact ⟨by simp, control, got, part, .single (.readEnded hr (.inr ⟨hf, hempty⟩)),
      h.of_relay rfl (fun _ => ⟨rfl, rfl⟩) h.channel⟩
  | @malformed c k bytes rest err hr hw hb hne hn hk =>
    have hchannel := h.channel
    rw [hw, hb] at hchannel
    exact absurd hk ((hchannel.not_ended hne hn).2 err)

/-! ## Every message can be read -/

/-- However little a read returns, the first message is read in as many reads as it has bytes. -/
theorem Carries.completes {rest : List ControlMessage}
    (h : w.Carries (message :: rest) got part) (hr : w.receives)
    (hready : w.agent.phase = .connecting → message = .tunnelReady publicPort) :
    ∃ n e w', n + got.length < (Message.sendMsg message).length ∧ e.reads = some message ∧
      Trace Step w (List.replicate n .received ++ [.pair e]) w' := by
  generalize hm : (Message.sendMsg message).length - got.length = m
  induction m using Nat.strongRecOn generalizing w got with
  | ind m ih =>
    obtain ⟨a, ha, hfirst⟩ := h.channel.inside
    obtain rfl := hfirst message rest rfl
    have hshort : got.length < (Message.sendMsg a).length := ha.short
    obtain ⟨c, k, hw⟩ := h.channel.pending
    obtain ⟨b, stream, hb⟩ := List.exists_cons_of_ne_nil
      (h.channel.nonempty (List.cons_ne_nil a rest))
    have hb : w.stream = [b] ++ stream := hb
    have hchannel := h.channel
    rw [hw, hb] at hchannel
    have hn : [b].length ≤ c.size := hchannel.reader.1.2.1
    have hne : [b] ≠ [] := List.cons_ne_nil b []
    obtain ⟨hnone, hfail⟩ := hchannel.not_ended hne hn
    cases hk : k [b] with
    | call c' k' =>
      have hstep : Step w .received { w with receiving := k [b], stream := stream } :=
        .received hr hw hb hne hn hk
      have hcarries : Carries { w with receiving := k [b], stream := stream } (a :: rest)
          (got ++ [b]) part :=
        h.of_relay rfl (fun _ => ⟨rfl, rfl⟩) (hchannel.read hne hn ⟨_, _, hk⟩)
      have hlength : (got ++ [b]).length = got.length + 1 := by simp
      obtain ⟨n, e, w', hlt, he, ht⟩ := ih _ (by omega) hcarries hr hready rfl
      exact ⟨n + 1, e, w', by omega, he, .cons hstep ht⟩
    | fail err => exact absurd hk (hfail err)
    | pure result =>
      cases result with
      | none => exact absurd hk hnone
      | some message' =>
        obtain ⟨_, hqueue, -⟩ := hchannel.take hne hn hk Wire.receives_recvMsg pending_recvMsg
        obtain ⟨rfl, -⟩ := List.cons.inj hqueue
        rcases hr with hconnecting | hreading
        · rw [hready hconnecting] at hk
          exact ⟨0, .ready publicPort, _, by omega, by rw [hready hconnecting]; rfl,
            .single (.ready hconnecting hw hb hne hn hk)⟩
        · exact ⟨0, .read a, _, by omega, rfl, .single (.read hreading hw hb hne hn hk)⟩

/-- **The control stream is a queue.** However the relay's writes and the agent's reads are cut and
interleaved, and wherever the relay's end is dropped: no message is malformed, and the run is one of
`TunnelPair`, step by step for the steps that finish a message or have to do with none. What is on
its way is whole messages, which the agent gets in the order in which they were sent, and then at
most a part of one, which the relay is sending or has given up. While the agent waits for a message
and a whole one is on its way, reads of its own get it, at most as many as the message has bytes. -/
theorem control_stream (localPort publicPort : UInt16) (w : WireTunnel) (es : List Event)
    (h : Trace Step (start localPort publicPort) es w) :
    (∀ err, .malformed err ∉ es) ∧
    ∃ control got part,
      Trace TunnelPair.Step (.start localPort publicPort) (es.filterMap Event.whole)
        (w.pair control) ∧
      (es.filterMap Event.whole).filterMap TunnelPair.Event.reads ++ control =
        .tunnelReady publicPort ::
          (es.filterMap Event.whole).filterMap TunnelPair.Event.sends ∧
      got ++ w.stream = control.flatMap Message.sendMsg ++ part ∧
      (∃ message, part <+: Message.sendMsg message ∧ part ≠ Message.sendMsg message) ∧
      (w.relay.phase = .accepting → part = []) ∧
      ∀ message rest, control = message :: rest → got <+: Message.sendMsg message ∧
        (w.receives → ∃ n e w', n < (Message.sendMsg message).length ∧ e.reads = some message ∧
          Trace Step w (List.replicate n .received ++ [.pair e]) w') := by
  have hrun : (∀ err, .malformed err ∉ es) ∧ ∃ control got part,
      Trace TunnelPair.Step (.start localPort publicPort) (es.filterMap Event.whole)
        (w.pair control) ∧ w.Carries control got part := by
    refine h.history (R := fun w es => (∀ err, .malformed err ∉ es) ∧ ∃ control got part,
      Trace TunnelPair.Step (.start localPort publicPort) (es.filterMap Event.whole)
        (w.pair control) ∧ w.Carries control got part) ?_
      ⟨by simp, _, _, _, .refl, carries_start⟩
    rintro w e w' past ⟨hnot, control, got, part, ht, hc⟩ hs
    obtain ⟨he, control', got', part', hseg, hc'⟩ := hc.step hs
    refine ⟨fun err hmem => ?_, control', got', part', ?_, hc'⟩
    · rcases List.mem_append.mp hmem with hmem | hmem
      · exact hnot err hmem
      · exact he err (List.mem_singleton.mp hmem).symm
    · have hwhole : [e].filterMap Event.whole = e.whole.toList := by
        cases hw : e.whole <;> simp [hw]
      rw [List.filterMap_append, hwhole]
      exact ht.trans hseg
  obtain ⟨hnot, control, got, part, ht, hc⟩ := hrun
  obtain ⟨-, -, hf⟩ := TunnelPair.run_sound ht
  obtain ⟨begun, hbegun⟩ := hc.channel.part
  refine ⟨hnot, control, got, part, ht, hf.control, hc.channel.split,
    ⟨begun, hbegun.isPrefix, fun heq => ?_⟩, hc.accepting, ?_⟩
  · have hshort := hbegun.short
    rw [heq] at hshort
    exact absurd hshort (lt_irrefl _)
  · rintro message rest rfl
    refine ⟨hc.channel.first _ _ rfl, fun hr => ?_⟩
    have hready : w.agent.phase = .connecting → message = .tunnelReady publicPort := by
      intro hconnecting
      have hcontrol := hf.control
      rw [hf.connecting hconnecting, List.nil_append] at hcontrol
      exact (List.cons.inj hcontrol).1
    obtain ⟨n, e, w', hlt, he, ht'⟩ := hc.completes hr hready
    exact ⟨n, e, w', by omega, he, ht'⟩

/-- A player comes in before the agent has read the answer, and the length of `NewConnection` is
written. -/
theorem control_stream_one_player : ∃ w,
    Trace Step (start 25565 10000) [.pair (.relay (.accepted .admitting)), .wrote] w ∧
      w.relay.phase = .admitting ∧ ∃ n e w', e.reads = some (.tunnelReady 10000) ∧
        Trace Step w (List.replicate n .received ++ [.pair e]) w' := by
  let g : Semaphore := ⟨1⟩
  have hk : ∃ c' k', (Writing.writeAll [] >>= fun _ =>
      Writing.writeAll (Message.serialize (.newConnection 1)) : Writing Empty Unit) =
        .call c' k' := by
    rw [Writing.writeAll, if_pos rfl]
    exact ⟨_, _, Writing.writeAll_of_ne (by decide)⟩
  obtain ⟨c', k', hk⟩ := hk
  have ht : Trace Step (start 25565 10000) [.pair (.relay (.accepted .admitting)), .wrote] _ :=
    .cons (.admitting (g := g) (.accepted rfl)) <|
    .single (.wrote ⟨4, by decide⟩ rfl rfl Wire.sendMsg_eq (by decide) hk)
  obtain ⟨-, control, got, part, -, hcontrol, -, -, -, hfirst⟩ :=
    control_stream 25565 10000 _ _ ht
  have hcontrol : control = [.tunnelReady 10000] := hcontrol
  obtain ⟨n, e, w', -, he, ht'⟩ := (hfirst _ _ hcontrol).2 (.inl rfl)
  exact ⟨_, ht, rfl, n, e, w', he, ht'⟩

end WireTunnel
end GameNet
