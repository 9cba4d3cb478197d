import GameNet.Lib.TryJoin

/-!
# GameNet.Bridge

The bridge between a player's TCP connection and a QUIC stream (`copy_halves` of
`crates/core/src/bridge.rs`): two directions, each of which copies from a reader to a writer until
the reader's end and then shuts the writer down, joined by `try_join!`.

A direction's steps are the operations on its reader and its writer that are done, in whatever
pieces and whenever they are ready. What a reader has returned and a writer has accepted is recorded
in them. What happens to a half that is dropped is the transport's business.
-/

namespace GameNet

structure Reader where
  read : List UInt8
  ended : Bool
deriving DecidableEq

structure Writer where
  written : List UInt8
  shutDown : Bool
deriving DecidableEq

def Reader.new : Reader := ⟨[], false⟩

def Writer.new : Writer := ⟨[], false⟩

inductive CopyPhase where
  | copying
  | shuttingDown
  | done
deriving DecidableEq

/-- One `async` block of `copy_halves`. The buffer is `copy`'s, without what was written of it. -/
structure CopyHalf where
  reader : Reader
  writer : Writer
  phase : CopyPhase
  buffer : List UInt8
deriving DecidableEq

/-- A flush that fails, or a write of nothing, is a failed write. -/
inductive IoOperation where
  | read
  | write
  | shutdown

structure IoFailure (E : Type) where
  operation : IoOperation
  error : E

namespace CopyHalf

def start (reader : Reader) (writer : Writer) : CopyHalf := ⟨reader, writer, .copying, []⟩

/-- A read returns the bytes; none is the end of the stream. -/
def fill (h : CopyHalf) (bytes : List UInt8) : CopyHalf :=
  { h with
    reader := ⟨h.reader.read ++ bytes, bytes.isEmpty⟩
    buffer := h.buffer ++ bytes }

def drain (h : CopyHalf) (n : Nat) : CopyHalf :=
  { h with
    writer := { h.writer with written := h.writer.written ++ h.buffer.take n }
    buffer := h.buffer.drop n }

inductive Event where
  | read (bytes : List UInt8)
  | wrote (n : Nat)
  | copied
  | shutDown

inductive Step : CopyHalf → Event → CopyHalf → Prop where
  | read {h : CopyHalf} (bytes : List UInt8) (hp : h.phase = .copying)
      (he : h.reader.ended = false) : Step h (.read bytes) (h.fill bytes)
  | wrote {h : CopyHalf} {n : Nat} (hp : h.phase = .copying) (hpos : 0 < n)
      (hn : n ≤ h.buffer.length) : Step h (.wrote n) (h.drain n)
  | copied {h : CopyHalf} (hp : h.phase = .copying) (he : h.reader.ended = true)
      (hb : h.buffer = []) : Step h .copied { h with phase := .shuttingDown }
  | shutDown {h : CopyHalf} (hp : h.phase = .shuttingDown) :
      Step h .shutDown { h with phase := .done, writer := { h.writer with shutDown := true } }

/-- The operations that may fail. -/
def Fails {E : Type} (h : CopyHalf) (failure : IoFailure E) : Prop :=
  match failure.operation with
  | .read => h.phase = .copying ∧ h.reader.ended = false
  | .write => h.phase = .copying
  | .shutdown => h.phase = .shuttingDown

def done (h : CopyHalf) : Bool := h.phase = .done

/-- What was read was written, or is in the buffer. -/
structure Sound (h : CopyHalf) : Prop where
  conserved : h.reader.read = h.writer.written ++ h.buffer
  copied : h.phase ≠ .copying → h.reader.ended = true ∧ h.buffer = []
  shutDown : h.writer.shutDown = true ↔ h.phase = .done

variable {h h' : CopyHalf} {e : Event}

theorem sound_start : (start .new .new).Sound where
  conserved := rfl
  copied hp := absurd rfl hp
  shutDown := iff_of_false nofun nofun

theorem Sound.step (hs : h.Sound) (hstep : Step h e h') : h'.Sound := by
  cases hstep with
  | read bytes hp he =>
    refine ⟨?_, fun hc => absurd hp hc, hs.shutDown⟩
    show h.reader.read ++ bytes = h.writer.written ++ (h.buffer ++ bytes)
    rw [hs.conserved, List.append_assoc]
  | @wrote n hp hpos hn =>
    refine ⟨?_, fun hc => absurd hp hc, hs.shutDown⟩
    show h.reader.read = h.writer.written ++ h.buffer.take n ++ h.buffer.drop n
    rw [List.append_assoc, List.take_append_drop]
    exact hs.conserved
  | copied hp he hb =>
    refine ⟨hs.conserved, fun _ => ⟨he, hb⟩, iff_of_false ?_ nofun⟩
    rw [hs.shutDown, hp]
    nofun
  | shutDown hp =>
    refine ⟨hs.conserved, fun _ => hs.copied ?_, iff_of_true rfl rfl⟩
    rw [hp]
    nofun

theorem Sound.isPrefix (hs : h.Sound) : h.writer.written <+: h.reader.read :=
  ⟨h.buffer, hs.conserved.symm⟩

/-- A direction that has left `copy` has written all it was to read. -/
theorem Sound.delivered (hs : h.Sound) (hp : h.phase ≠ .copying) :
    h.reader.ended = true ∧ h.writer.written = h.reader.read := by
  obtain ⟨he, hb⟩ := hs.copied hp
  have hc := hs.conserved
  rw [hb, List.append_nil] at hc
  exact ⟨he, hc.symm⟩

end CopyHalf

inductive Direction where
  | toQuic
  | toTcp
deriving DecidableEq

instance : Fintype Direction where
  elems := {.toQuic, .toTcp}
  complete d := by cases d <;> decide

abbrev Bridge (E : Type) := TryJoin Direction CopyHalf (IoFailure E)

namespace Bridge

abbrev Event (E : Type) := TryJoin.Event Direction CopyHalf.Event (IoFailure E)

abbrev Step {E : Type} : Bridge E → Event E → Bridge E → Prop :=
  TryJoin.Step CopyHalf.Step CopyHalf.Fails CopyHalf.done

end Bridge

def copyHalves (tcpRead : Reader) (tcpWrite : Writer) (quicRead : Reader) (quicWrite : Writer) :
    Direction → CopyHalf
  | .toQuic => .start tcpRead quicWrite
  | .toTcp => .start quicRead tcpWrite

/-- `bridge_tcp_to_quic`, with the two halves of its TCP stream. -/
def bridgeTcpToQuic (tcp : Reader × Writer) (quicSend : Writer) (quicRecv : Reader) :
    Direction → CopyHalf :=
  copyHalves tcp.1 tcp.2 quicRecv quicSend

/-- **Both directions are delivered.** In every state of every run, what each direction has written
is a prefix of what it has read, and it shuts its writer down only when it has read the end of the
stream and written everything.
A step of one direction is no step of the other, and what a direction can do next it can do whatever
the other does. `copy_halves` returns `Ok` when both directions are delivered and shut down, and an
error when an operation has failed; and no direction makes a step after it has returned. -/
theorem copy_halves_delivers {E : Type} {s : Bridge E} {es : List (Bridge.Event E)}
    (h : Trace Bridge.Step (.start (copyHalves .new .new .new .new)) es s) :
    (∀ d, (s.parts d).writer.written <+: (s.parts d).reader.read) ∧
    (∀ d, (s.parts d).phase ≠ .copying ∨ (s.parts d).writer.shutDown = true →
      (s.parts d).reader.ended = true ∧ (s.parts d).writer.written = (s.parts d).reader.read) ∧
    (∀ e s', Bridge.Step s e s' → ∀ d, s'.parts d = s.parts d ∨
      ∃ e', e = .step d e' ∧ CopyHalf.Step (s.parts d) e' (s'.parts d)) ∧
    (s.status = .pending → ∀ d e half, CopyHalf.Step (s.parts d) e half →
      ∃ s', Bridge.Step s (.step d e) s' ∧ s'.parts d = half ∧
        ∀ d', d' ≠ d → s'.parts d' = s.parts d') ∧
    (s.status = .ok ↔ ∀ d, (s.parts d).reader.ended = true ∧
      (s.parts d).writer.written = (s.parts d).reader.read ∧
      (s.parts d).writer.shutDown = true) ∧
    (∀ failure, s.status = .error failure ↔ ∃ d, .failed d failure ∈ es) ∧
    (s.status ≠ .pending → ∀ e s', ¬Bridge.Step s e s') := by
  have hstart : ∀ d, (copyHalves .new .new .new .new d).Sound := by
    intro d
    cases d with
    | toQuic => exact CopyHalf.sound_start
    | toTcp => exact CopyHalf.sound_start
  have hsound : ∀ d, (s.parts d).Sound :=
    TryJoin.part_invariant (fun _ _ _ hs => hs.step) h hstart
  have hok := TryJoin.status_ok_iff h fun hd => by cases hd .toQuic
  refine ⟨fun d => (hsound d).isPrefix, fun d hd => (hsound d).delivered ?_,
    fun e s' hstep => hstep.part, fun hp d e half => TryJoin.advances hp, ?_,
    TryJoin.status_error_iff h, fun hp e s' hstep => hp hstep.pending⟩
  · rcases hd with hd | hd
    · exact hd
    · rw [(hsound d).shutDown.mp hd]
      nofun
  · rw [hok]
    refine forall_congr' fun d => ?_
    unfold CopyHalf.done
    rw [decide_eq_true_iff, ← (hsound d).shutDown]
    constructor
    · intro hd
      have hdelivered := (hsound d).delivered (by rw [(hsound d).shutDown.mp hd]; nofun)
      exact ⟨hdelivered.1, hdelivered.2, hd⟩
    · intro hd
      exact hd.2.2

/-- A request whose sender closes at once is answered after that. -/
theorem copy_halves_delivers_answer : ∃ s : Bridge Unit, s.status = .ok ∧
    (s.parts .toQuic).writer = ⟨[1], true⟩ ∧ (s.parts .toTcp).writer = ⟨[2], true⟩ := by
  let bridge := bridgeTcpToQuic (.new, .new) .new .new
  have hrun : ∃ es s, Trace (Bridge.Step (E := Unit)) (.start bridge) es s ∧
      s.parts .toQuic = ⟨⟨[1], true⟩, ⟨[1], true⟩, .done, []⟩ ∧
      s.parts .toTcp = ⟨⟨[2], true⟩, ⟨[2], true⟩, .done, []⟩ :=
    ⟨_, _,
      .cons (.step (i := .toQuic) rfl (.read [1] rfl rfl)) <|
      .cons (.step (i := .toQuic) rfl (.wrote (n := 1) rfl (by decide) (by decide))) <|
      .cons (.step (i := .toQuic) rfl (.read [] rfl rfl)) <|
      .cons (.step (i := .toQuic) rfl (.copied rfl rfl rfl)) <|
      .cons (.step (i := .toQuic) rfl (.shutDown rfl)) <|
      .cons (.step (i := .toTcp) rfl (.read [2] rfl rfl)) <|
      .cons (.step (i := .toTcp) rfl (.wrote (n := 1) rfl (by decide) (by decide))) <|
      .cons (.step (i := .toTcp) rfl (.read [] rfl rfl)) <|
      .cons (.step (i := .toTcp) rfl (.copied rfl rfl rfl)) <|
      .single (.step (i := .toTcp) rfl (.shutDown rfl)),
      rfl, rfl⟩
  obtain ⟨es, s, ht, hq, hc⟩ := hrun
  obtain ⟨-, -, -, -, hok, -⟩ := copy_halves_delivers ht
  refine ⟨s, hok.mpr fun d => ?_, congrArg CopyHalf.writer hq, congrArg CopyHalf.writer hc⟩
  cases d with
  | toQuic =>
    rw [hq]
    exact ⟨rfl, rfl, rfl⟩
  | toTcp =>
    rw [hc]
    exact ⟨rfl, rfl, rfl⟩

end GameNet
