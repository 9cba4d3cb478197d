import GameNet.Lib.Framing
import GameNet.Message

/-!
# GameNet.Wire

`send_msg` and `recv_msg` (`crates/core/src/message.rs`) as programs, a write or a read at a time.
What they write and read is what `Message` says (`run_recvMsg`), and they obey the contracts of the
frames of control messages, so a control stream is a queue of messages.
-/

namespace GameNet
namespace Wire

open Bincode
open Message (serialize deserialize maxControlMsgBytes RecvError)
open Reading (read readExact)
open Writing (writeAll)

/-- It has no errors but those of the stream. -/
def sendMsg (msg : ControlMessage) : Writing Empty Unit := do
  let payload := serialize msg
  writeAll (beBytes 4 (payload.length % 2 ^ 32))
  writeAll payload

/-- `recv_msg` from where it has the length. -/
def recvPayload (len : Nat) : Reading RecvError (Option ControlMessage) :=
  if maxControlMsgBytes < len then Program.fail (.tooLarge len)
  else do
    let data ← readExact .unexpectedEof len
    match deserialize data with
    | none => Program.fail .bincode
    | some msg => pure (some msg)

def recvMsg : Reading RecvError (Option ControlMessage) := do
  let first ← read 1
  if first = [] then pure none
  else do
    let rest ← readExact .unexpectedEof 3
    recvPayload (beValue (first ++ rest))

/-- Alone on a stream that is cut into chunks it is `Message.recvMsg`. -/
theorem run_recvMsg (reader : ByteStream) : recvMsg.run reader = Message.recvMsg reader := by
  unfold recvMsg Message.recvMsg
  rw [Reading.run_bind]
  show Reading.run _ (reader.read 1).2 = _
  cases reader.read 1 with
  | mk first reader₁ =>
    cases first with
    | nil => rfl
    | cons b bytes =>
      dsimp only
      rw [if_neg (List.cons_ne_nil b bytes), Reading.run_bind, Reading.run_readExact]
      cases reader₁.readExact 3 with
      | mk rest reader₂ =>
        cases rest with
        | none => rfl
        | some rest =>
          dsimp only
          unfold recvPayload
          by_cases hmax : maxControlMsgBytes < beValue (b :: bytes ++ rest)
          · rw [if_pos hmax, if_pos hmax]
            rfl
          · rw [if_neg hmax, if_neg hmax, Reading.run_bind, Reading.run_readExact]
            cases reader₂.readExact (beValue (b :: bytes ++ rest)) with
            | mk data reader₃ =>
              cases data with
              | none => rfl
              | some data =>
                dsimp only
                cases deserialize data with
                | none => rfl
                | some msg => rfl

/-! ## The frames of control messages -/

variable {msg : ControlMessage} {header data : List UInt8}

theorem length_sendMsg (msg : ControlMessage) :
    (Message.sendMsg msg).length = 4 + (serialize msg).length := by
  rw [Message.sendMsg, List.length_append, length_beBytes]

theorem sendMsg_eq : sendMsg msg =
    .call ⟨beBytes 4 ((serialize msg).length % 2 ^ 32)⟩ fun n =>
      writeAll ((beBytes 4 ((serialize msg).length % 2 ^ 32)).drop n) >>= fun _ =>
        writeAll (serialize msg) := by
  have hne : beBytes 4 ((serialize msg).length % 2 ^ 32) ≠ [] := by
    intro hnil
    have hlength := length_beBytes 4 ((serialize msg).length % 2 ^ 32)
    rw [hnil] at hlength
    cases hlength
  rw [sendMsg, Writing.writeAll_of_ne hne]
  rfl

/-- The frames that a receiver takes. -/
def code : FrameCode ControlMessage where
  frame := Message.sendMsg
  admits msg := (serialize msg).length ≤ maxControlMsgBytes
  nonempty msg h := by
    have hlength := length_sendMsg msg
    rw [h, List.length_nil] at hlength
    omega

/-- A length goes with a frame only if it is that of the payload. -/
theorem header_of_meets (hmsg : code.admits msg) (hlen : header.length = 4)
    (h : code.Meets (header ++ data) msg) : beValue header = (serialize msg).length ∧
      (data.length = (serialize msg).length →
        data = serialize msg ∧ header ++ data = code.frame msg) := by
  have hmax : maxControlMsgBytes = 65536 := rfl
  have hle : (serialize msg).length ≤ maxControlMsgBytes := hmsg
  have hframe : code.frame msg = beBytes 4 (serialize msg).length ++ serialize msg :=
    Message.sendMsg_eq_frame hle
  have hfour : header.length = (beBytes 4 (serialize msg).length).length := by
    rw [hlen, length_beBytes]
  have hvalue : beValue (beBytes 4 (serialize msg).length) = (serialize msg).length :=
    beValue_beBytes (by omega)
  unfold FrameCode.Meets at h
  rw [hframe] at h
  have hboth : header = beBytes 4 (serialize msg).length ∧
      (data <+: serialize msg ∨ serialize msg <+: data) := by
    rcases h with ⟨rest, hrest⟩ | ⟨rest, hrest⟩
    · rw [List.append_assoc] at hrest
      obtain ⟨hheader, hdata⟩ := List.append_inj hrest hfour
      exact ⟨hheader, .inl ⟨rest, hdata⟩⟩
    · rw [List.append_assoc] at hrest
      obtain ⟨hheader, hdata⟩ := List.append_inj hrest hfour.symm
      exact ⟨hheader.symm, .inr ⟨rest, hdata⟩⟩
  obtain ⟨rfl, hdata⟩ := hboth
  refine ⟨hvalue, fun hlength => ?_⟩
  have heq : data = serialize msg := by
    rcases hdata with hdata | hdata
    · exact hdata.eq_of_length hlength
    · exact (hdata.eq_of_length hlength.symm).symm
  rw [hframe, heq]
  exact ⟨rfl, rfl⟩

/-! ## The programs obey -/

theorem sends_sendMsg : code.Sends msg (sendMsg msg) [] := by
  have hframe : Message.sendMsg msg =
      beBytes 4 ((serialize msg).length % 2 ^ 32) ++ serialize msg := rfl
  refine Program.obeys_bind.mpr (FrameCode.writes_writeAll ?_ ?_)
  · rw [List.nil_append]
    exact ⟨serialize msg, hframe.symm⟩
  · exact FrameCode.writes_writeAll (List.prefix_refl _) hframe.symm

/-- What follows the length. -/
theorem receives_recvPayload (hlen : header.length = 4) :
    code.Receives .unexpectedEof (recvPayload (beValue header)) ⟨header, false⟩ := by
  unfold recvPayload
  by_cases hmax : maxControlMsgBytes < beValue header
  · rw [if_pos hmax]
    refine .inr ⟨rfl, fun msg hmsg hmeets => ?_⟩
    rw [← List.append_nil header] at hmeets
    have hvalue := (header_of_meets hmsg hlen hmeets).1
    have hle : (serialize msg).length ≤ maxControlMsgBytes := hmsg
    omega
  rw [if_neg hmax]
  refine Program.obeys_bind.mpr (FrameCode.reads_readExact rfl ?_ ?_ fun _ => .inl ⟨rfl, rfl⟩)
  · intro msg hmsg hstart
    have hmeets : code.Meets (header ++ []) msg := by
      rw [List.append_nil]
      exact .inl hstart
    show header.length + _ ≤ (Message.sendMsg msg).length
    rw [hlen, (header_of_meets hmsg hlen hmeets).1, length_sendMsg]
  · intro data hdata
    -- what was read is a whole frame, if it goes with one
    have hwhole : ∀ msg, code.admits msg → code.Meets (header ++ data) msg →
        header ++ data = code.frame msg ∧ deserialize data = some msg := by
      intro msg hmsg hmeets
      obtain ⟨hvalue, hwhole⟩ := header_of_meets hmsg hlen hmeets
      obtain ⟨heq, hframe⟩ := hwhole (hdata.trans hvalue)
      have hle : (serialize msg).length ≤ maxControlMsgBytes := hmsg
      have hmaximum : maxControlMsgBytes = 65536 := rfl
      have hread := Message.deserialize_serialize msg [] (by omega)
      rw [List.append_nil, ← heq] at hread
      exact ⟨hframe, hread⟩
    cases hd : deserialize data with
    | none =>
      refine .inr ⟨rfl, fun msg hmsg hmeets => ?_⟩
      have hread := (hwhole msg hmsg hmeets).2
      rw [hd] at hread
      cases hread
    | some msg =>
      refine ⟨rfl, fun msg' hmsg' hmeets => ?_⟩
      obtain ⟨hframe, hread⟩ := hwhole msg' hmsg' hmeets
      rw [hd] at hread
      exact ⟨Option.some.inj hread, hframe⟩

/-- It reads no more than a frame, and takes nothing for a message but the frame of it. -/
theorem receives_recvMsg : code.Receives .unexpectedEof recvMsg ⟨[], false⟩ := by
  refine ⟨⟨rfl, Nat.one_pos, fun msg _ _ => ?_⟩, ?_⟩
  · show 0 + 1 ≤ (Message.sendMsg msg).length
    rw [length_sendMsg]
    omega
  rintro first _ ⟨hone, rfl⟩
  have hone : first.length ≤ 1 := hone
  show (if first = [] then pure none else _ :
    Reading RecvError (Option ControlMessage)).Obeys _ _ _ _
  by_cases hfirst : first = []
  · rw [if_pos hfirst, hfirst]
    exact ⟨rfl, rfl⟩
  have hpos := List.length_pos_of_ne_nil hfirst
  rw [if_neg hfirst, List.nil_append]
  refine Program.obeys_bind.mpr (FrameCode.reads_readExact ?_ ?_ ?_ fun _ => .inl ⟨rfl, rfl⟩)
  · exact List.isEmpty_eq_false_iff.mpr hfirst
  · intro msg _ _
    show first.length + 3 ≤ (Message.sendMsg msg).length
    rw [length_sendMsg]
    omega
  · intro rest hrest
    refine receives_recvPayload ?_
    rw [List.length_append]
    omega

end Wire
end GameNet
