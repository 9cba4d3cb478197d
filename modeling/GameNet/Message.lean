import GameNet.Lib.Bincode
import GameNet.Lib.ByteStream
import GameNet.Protocol

/-!
# GameNet.Message

Control messages on the wire (`crates/core/src/message.rs`). A message is one frame: the length of
its payload, four bytes with the highest first, and the payload, which is `bincode`'s serialization.

A receiver reads one byte, and only if there is none the stream has ended cleanly. It then reads
the rest of the length, refuses a length above the limit, and reads the payload. So a stream of
frames is received message by message however it is cut into reads; and a stream that ends inside a
frame is received up to that frame, which is an error.
-/

namespace GameNet

open Bincode

/-! ## Payloads -/

def Protocol.encode : Protocol → List UInt8
  | .tcp => leBytes 4 0
  | .udp => leBytes 4 1

def Protocol.decode : Decoder Protocol := do
  match ← u32 with
  | 0 => pure .tcp
  | 1 => pure .udp
  | _ => failure

namespace ControlMessage

def encode : ControlMessage → List UInt8
  | .register protocol localPort token recoveryId =>
    leBytes 4 0 ++
      (protocol.encode ++ (leBytes 2 localPort.toNat ++ (token.toList ++ recoveryId.toList)))
  | .tunnelReady publicPort => leBytes 4 1 ++ leBytes 2 publicPort.toNat
  | .newConnection streamId => leBytes 4 2 ++ leBytes 8 streamId.toNat
  | .error message => leBytes 4 3 ++ encodeString message
  | .rotateIdentity oldToken newToken => leBytes 4 4 ++ (oldToken.toList ++ newToken.toList)
  | .identityRotated publicPort =>
    leBytes 4 5 ++ encodeOption (fun port : UInt16 => leBytes 2 port.toNat) publicPort
  | .recoverIdentity recoverySecret newToken =>
    leBytes 4 6 ++ (recoverySecret.toList ++ newToken.toList)
  | .identityRecovered publicPort => leBytes 4 7 ++ leBytes 2 publicPort.toNat

def decode : Decoder ControlMessage := do
  match ← u32 with
  | 0 =>
    let protocol ← Protocol.decode
    let localPort ← u16
    let token ← array 32
    let recoveryId ← array 32
    pure (.register protocol localPort token recoveryId)
  | 1 => tunnelReady <$> u16
  | 2 => newConnection <$> u64
  | 3 => error <$> string
  | 4 =>
    let oldToken ← array 32
    let newToken ← array 32
    pure (.rotateIdentity oldToken newToken)
  | 5 => identityRotated <$> option u16
  | 6 =>
    let recoverySecret ← array 32
    let newToken ← array 32
    pure (.recoverIdentity recoverySecret newToken)
  | 7 => identityRecovered <$> u16
  | _ => failure

end ControlMessage

namespace Message

/-- `bincode::serialize` -/
def serialize (msg : ControlMessage) : List UInt8 := msg.encode

/-- `bincode::deserialize`, which ignores what follows the message. -/
def deserialize (bytes : List UInt8) : Option ControlMessage :=
  (ControlMessage.decode.run bytes).map Prod.fst

/-! ## Frames -/

def maxControlMsgBytes : Nat := 64 * 1024

/-- What is written: the length as a `u32` and the payload. -/
def sendMsg (msg : ControlMessage) : List UInt8 :=
  let payload := serialize msg
  beBytes 4 (payload.length % 2 ^ 32) ++ payload

inductive RecvError where
  /-- `read_exact` at the end of the stream. -/
  | unexpectedEof
  | tooLarge (len : Nat)
  /-- An error of `bincode`. -/
  | bincode
deriving DecidableEq

/-- The texts of the errors made here. -/
def RecvError.message : RecvError → Option String
  | .unexpectedEof => none
  | .tooLarge len =>
    some ("Control message too large: " ++ toString len ++ " bytes (max " ++
      toString maxControlMsgBytes ++ ")")
  | .bincode => none

def recvMsg (reader : ByteStream) : Except RecvError (Option ControlMessage) × ByteStream :=
  match reader.read 1 with
  | ([], reader) => (.ok none, reader)
  | (first, reader) =>
    match reader.readExact 3 with
    | (none, reader) => (.error .unexpectedEof, reader)
    | (some rest, reader) =>
      let len := beValue (first ++ rest)
      if maxControlMsgBytes < len then (.error (.tooLarge len), reader)
      else
        match reader.readExact len with
        | (none, reader) => (.error .unexpectedEof, reader)
        | (some data, reader) =>
          match deserialize data with
          | none => (.error .bincode, reader)
          | some msg => (.ok (some msg), reader)

/-- The results of `n` calls in a row. -/
def recvMsgs : Nat → ByteStream → List (Except RecvError (Option ControlMessage)) × ByteStream
  | 0, reader => ([], reader)
  | n + 1, reader =>
    let r := recvMsg reader
    let tail := recvMsgs n r.2
    (r.1 :: tail.1, tail.2)

/-! ## Payloads are read back -/

theorem reads_protocol (protocol : Protocol) : Reads Protocol.decode protocol.encode protocol := by
  cases protocol with
  | tcp => exact (reads_u32 0).bind (.pure _)
  | udp => exact (reads_u32 1).bind (.pure _)

theorem reads_encode {msg : ControlMessage} (h : (serialize msg).length < 256 ^ 8) :
    Reads ControlMessage.decode msg.encode msg := by
  cases msg with
  | register protocol localPort token recoveryId =>
    refine (reads_u32 0).bind ((reads_protocol protocol).bind ?_)
    refine (reads_u16 localPort).bind ((reads_array token).bind ?_)
    exact (reads_array recoveryId).map
  | tunnelReady publicPort => exact (reads_u32 1).bind (reads_u16 publicPort).map
  | newConnection streamId => exact (reads_u32 2).bind (reads_u64 streamId).map
  | error message =>
    refine (reads_u32 3).bind (reads_string ?_).map
    simp only [serialize, ControlMessage.encode, encodeString, List.length_append] at h
    omega
  | rotateIdentity oldToken newToken =>
    exact (reads_u32 4).bind ((reads_array oldToken).bind (reads_array newToken).map)
  | identityRotated publicPort =>
    exact (reads_u32 5).bind (reads_option fun port _ => reads_u16 port).map
  | recoverIdentity recoverySecret newToken =>
    exact (reads_u32 6).bind ((reads_array recoverySecret).bind (reads_array newToken).map)
  | identityRecovered publicPort => exact (reads_u32 7).bind (reads_u16 publicPort).map

theorem consumes_protocol :
    Consumes Protocol.decode fun protocol used => used = protocol.encode := by
  refine consumes_u32.bind ?_
  rintro tag used rfl
  split
  · exact .pure rfl
  · exact .pure rfl
  · exact .failure

/-- A message is made of its own encoding only. -/
theorem consumes_decode : Consumes ControlMessage.decode fun msg used => used = msg.encode := by
  refine consumes_u32.bind ?_
  rintro tag used rfl
  split
  · refine consumes_protocol.bind ?_
    rintro protocol used rfl
    refine consumes_u16.bind ?_
    rintro localPort used rfl
    refine (consumes_array 32).bind ?_
    rintro token used rfl
    refine (consumes_array 32).bind ?_
    rintro recoveryId used rfl
    exact .pure (by simp [ControlMessage.encode])
  · refine (consumes_u16.mono ?_).map
    rintro publicPort used rfl
    rfl
  · refine (consumes_u64.mono ?_).map
    rintro streamId used rfl
    rfl
  · refine (consumes_string.mono ?_).map
    rintro message used rfl
    rfl
  · refine (consumes_array 32).bind ?_
    rintro oldToken used rfl
    refine (consumes_array 32).bind ?_
    rintro newToken used rfl
    exact .pure (by simp [ControlMessage.encode])
  · refine ((consumes_option consumes_u16).mono ?_).map
    rintro publicPort used rfl
    rfl
  · refine (consumes_array 32).bind ?_
    rintro recoverySecret used rfl
    refine (consumes_array 32).bind ?_
    rintro newToken used rfl
    exact .pure (by simp [ControlMessage.encode])
  · refine (consumes_u16.mono ?_).map
    rintro publicPort used rfl
    rfl
  · exact .failure

/-- What is serialized is deserialized, also when more bytes follow. -/
theorem deserialize_serialize (msg : ControlMessage) (rest : List UInt8)
    (h : (serialize msg).length < 256 ^ 8) :
    deserialize (serialize msg ++ rest) = some msg := by
  rw [deserialize, serialize, reads_encode h rest]
  rfl

theorem of_deserialize {bytes : List UInt8} {msg : ControlMessage}
    (h : deserialize bytes = some msg) : serialize msg <+: bytes := by
  obtain ⟨⟨msg', rest⟩, hd, he⟩ := Option.map_eq_some_iff.mp h
  obtain rfl : msg' = msg := he
  obtain ⟨used, rfl, rfl⟩ := consumes_decode bytes msg' rest hd
  exact List.prefix_append _ _

/-! ## Streams of frames -/

open ByteStream (content read_one readExact_append readExact_short content_eq_nil)

variable {reader : ByteStream} {msg : ControlMessage} {rest : List UInt8}

/-- At the end of the stream there is no message. -/
theorem recvMsg_end (h : content reader = []) : recvMsg reader = (.ok none, []) := by
  rw [content_eq_nil.mp h]
  rfl

/-- Once the length is read, it decides. -/
theorem recvMsg_length {len : Nat} (hlen : len < 256 ^ 4)
    (h : content reader = beBytes 4 len ++ rest) :
    ∃ reader', content reader' = rest ∧ recvMsg reader =
      if maxControlMsgBytes < len then (.error (.tooLarge len), reader')
      else
        match reader'.readExact len with
        | (none, reader) => (.error .unexpectedEof, reader)
        | (some data, reader) =>
          match deserialize data with
          | none => (.error .bincode, reader)
          | some msg => (.ok (some msg), reader) := by
  have hfour := length_beBytes 4 len
  cases hb : beBytes 4 len with
  | nil =>
    rw [hb] at hfour
    cases hfour
  | cons b bytes =>
    rw [hb] at h hfour
    obtain ⟨reader₁, hread, hc₁⟩ := read_one h
    obtain ⟨reader₂, hexact, hc₂⟩ := readExact_append hc₁ (by simpa using hfour)
    have hvalue : beValue ([b] ++ bytes) = len := by
      rw [List.singleton_append, ← hb, beValue_beBytes hlen]
    refine ⟨reader₂, hc₂, ?_⟩
    simp only [recvMsg, hread, hexact, hvalue]

/-- A frame is received, and nothing after it is read. -/
theorem recvMsg_frame (hmsg : (serialize msg).length ≤ maxControlMsgBytes)
    (h : content reader = sendMsg msg ++ rest) :
    ∃ reader', recvMsg reader = (.ok (some msg), reader') ∧ content reader' = rest := by
  have hmax : maxControlMsgBytes = 65536 := rfl
  have hmod : (serialize msg).length % 2 ^ 32 = (serialize msg).length :=
    Nat.mod_eq_of_lt (by omega)
  rw [sendMsg, hmod, List.append_assoc] at h
  obtain ⟨reader₁, hc, hr⟩ := recvMsg_length (by omega) h
  obtain ⟨reader₂, hexact, hc₂⟩ := readExact_append hc rfl
  have hd := deserialize_serialize msg [] (by omega)
  rw [List.append_nil] at hd
  rw [hr, if_neg (by omega), hexact]
  simp only [hd]
  exact ⟨reader₂, rfl, hc₂⟩

example : sendMsg (.tunnelReady 10000) = [0, 0, 0, 6, 1, 0, 0, 0, 0x10, 0x27] := by decide

/-- A length above the limit is refused as soon as it is read. -/
theorem recvMsg_tooLarge {len : Nat} (hlen : len < 256 ^ 4) (hmax : maxControlMsgBytes < len)
    (h : content reader = beBytes 4 len ++ rest) :
    ∃ reader', recvMsg reader = (.error (.tooLarge len), reader') ∧ content reader' = rest := by
  obtain ⟨reader', hc, hr⟩ := recvMsg_length hlen h
  rw [if_pos hmax] at hr
  exact ⟨reader', hr, hc⟩

/-- A stream that ends within the length. -/
theorem recvMsg_short {b : UInt8} {bytes : List UInt8} (hlen : bytes.length < 3)
    (h : content reader = b :: bytes) : recvMsg reader = (.error .unexpectedEof, []) := by
  obtain ⟨reader', hread, hc⟩ := read_one h
  have hshort : (content reader').length < 3 := hc ▸ hlen
  simp only [recvMsg, hread, readExact_short hshort]

/-- A stream that ends inside a frame ends unexpectedly. -/
theorem recvMsg_cut {n : Nat} (hmsg : (serialize msg).length ≤ maxControlMsgBytes) (h₀ : 0 < n)
    (hn : n < (sendMsg msg).length) (h : content reader = (sendMsg msg).take n) :
    recvMsg reader = (.error .unexpectedEof, []) := by
  have hmax : maxControlMsgBytes = 65536 := rfl
  have hmod : (serialize msg).length % 2 ^ 32 = (serialize msg).length :=
    Nat.mod_eq_of_lt (by omega)
  rw [sendMsg, hmod] at h hn
  rw [List.length_append, length_beBytes] at hn
  by_cases hfour : n < 4
  · -- inside the length
    rw [List.take_append_of_le_length (by rw [length_beBytes]; omega)] at h
    have hlen := congrArg List.length h
    rw [List.length_take, length_beBytes] at hlen
    cases hc : content reader with
    | nil =>
      rw [hc, List.length_nil] at hlen
      omega
    | cons b bytes =>
      rw [hc, List.length_cons] at hlen
      exact recvMsg_short (by omega) hc
  · -- inside the payload
    have htake : (beBytes 4 (serialize msg).length).take n = beBytes 4 (serialize msg).length :=
      List.take_of_length_le (by rw [length_beBytes]; omega)
    rw [List.take_append, length_beBytes, htake] at h
    obtain ⟨reader', hc, hr⟩ := recvMsg_length (by omega) h
    have hshort : (content reader').length < (serialize msg).length := by
      rw [hc, List.length_take]
      omega
    rw [hr, if_neg (by omega), readExact_short hshort]

/-- What was sent is received, and then whatever the rest of the stream gives. -/
theorem recvMsgs_frames {msgs : List ControlMessage} {m : Nat}
    (hmsgs : ∀ msg ∈ msgs, (serialize msg).length ≤ maxControlMsgBytes)
    (h : content reader = msgs.flatMap sendMsg ++ rest) :
    ∃ reader', content reader' = rest ∧
      (recvMsgs (msgs.length + m) reader).1 =
        msgs.map (fun msg => .ok (some msg)) ++ (recvMsgs m reader').1 := by
  induction msgs generalizing reader with
  | nil => exact ⟨reader, h, by simp⟩
  | cons msg msgs ih =>
    obtain ⟨hmsg, hmsgs⟩ := List.forall_mem_cons.mp hmsgs
    rw [List.flatMap_cons, List.append_assoc] at h
    obtain ⟨reader₁, hr, hc⟩ := recvMsg_frame hmsg h
    obtain ⟨reader', hc', hrest⟩ := ih hmsgs hc
    refine ⟨reader', hc', ?_⟩
    rw [List.length_cons, show msgs.length + 1 + m = msgs.length + m + 1 by omega, recvMsgs, hr]
    simp only [hrest, List.map_cons, List.cons_append]

/-- **The control stream is received as it was sent, however it is cut into reads.** The frames of
any messages of admissible size are received as those messages, and then the end of the stream. If
the stream ends at any byte inside a frame, the messages before it are received, and then an error.
A length above the limit is an error that leaves everything after the length unread. -/
theorem recv_stream (msgs : List ControlMessage)
    (hmsgs : ∀ msg ∈ msgs, (serialize msg).length ≤ maxControlMsgBytes) (reader : ByteStream) :
    (content reader = msgs.flatMap sendMsg →
      (recvMsgs (msgs.length + 1) reader).1 =
        msgs.map (fun msg => .ok (some msg)) ++ [.ok none]) ∧
    (∀ msg n, (serialize msg).length ≤ maxControlMsgBytes → 0 < n → n < (sendMsg msg).length →
      content reader = msgs.flatMap sendMsg ++ (sendMsg msg).take n →
      (recvMsgs (msgs.length + 1) reader).1 =
        msgs.map (fun msg => .ok (some msg)) ++ [.error .unexpectedEof]) ∧
    ∀ len rest, len < 2 ^ 32 → maxControlMsgBytes < len →
      content reader = beBytes 4 len ++ rest →
      ∃ reader', recvMsg reader = (.error (.tooLarge len), reader') ∧ content reader' = rest := by
  refine ⟨fun h => ?_, fun msg n hmsg h₀ hn h => ?_, fun len rest hlen hmax h => ?_⟩
  · obtain ⟨reader', hc, hr⟩ := recvMsgs_frames hmsgs (h.trans (List.append_nil _).symm)
    rw [hr, recvMsgs, recvMsgs, recvMsg_end hc]
  · obtain ⟨reader', hc, hr⟩ := recvMsgs_frames hmsgs h
    rw [hr, recvMsgs, recvMsgs, recvMsg_cut hmsg h₀ hn hc]
  · exact recvMsg_tooLarge hlen hmax h

/-- Two messages in reads of one byte. -/
theorem recv_stream_bytewise :
    (recvMsgs 3 (([.tunnelReady 12345, .newConnection 42].flatMap sendMsg).map fun b =>
      ⟨[b], by simp⟩)).1 =
      [.ok (some (.tunnelReady 12345)), .ok (some (.newConnection 42)), .ok none] := by
  refine (recv_stream [.tunnelReady 12345, .newConnection 42] ?_ _).1 ?_
  · decide
  · simp [content, List.flatMap_map]

/-! ## What a message is received from -/

/-- A length and a payload of that length. -/
def frame (payload : List UInt8) : List UInt8 := beBytes 4 payload.length ++ payload

theorem sendMsg_eq_frame (h : (serialize msg).length ≤ maxControlMsgBytes) :
    sendMsg msg = frame (serialize msg) := by
  have hmax : maxControlMsgBytes = 65536 := rfl
  have hmod : (serialize msg).length % 2 ^ 32 = (serialize msg).length :=
    Nat.mod_eq_of_lt (by omega)
  rw [sendMsg, hmod, frame]

/-- A stream has ended, ends within a length, or starts with a length. -/
theorem content_cases (reader : ByteStream) : content reader = [] ∨
    (∃ b bytes, bytes.length < 3 ∧ content reader = b :: bytes) ∨
    ∃ len rest, len < 256 ^ 4 ∧ content reader = beBytes 4 len ++ rest := by
  by_cases hlen : 4 ≤ (content reader).length
  · have hfour : ((content reader).take 4).length = 4 := by
      rw [List.length_take]
      omega
    refine .inr (.inr ⟨beValue ((content reader).take 4), (content reader).drop 4, ?_, ?_⟩)
    · have hlt := leValue_lt ((content reader).take 4).reverse
      rwa [List.length_reverse, hfour] at hlt
    · have hb := beBytes_beValue ((content reader).take 4)
      rw [hfour] at hb
      rw [hb, List.take_append_drop]
  · cases hc : content reader with
    | nil => exact .inl rfl
    | cons b bytes =>
      rw [hc, List.length_cons] at hlen
      exact .inr (.inl ⟨b, bytes, by omega, rfl⟩)

/-- A payload is received when it starts with a message. -/
theorem recvMsg_payload {payload : List UInt8} (hmax : payload.length ≤ maxControlMsgBytes)
    (h : content reader = frame payload ++ rest) :
    ∃ reader', content reader' = rest ∧ recvMsg reader =
      match deserialize payload with
      | none => (.error .bincode, reader')
      | some msg => (.ok (some msg), reader') := by
  have hlimit : maxControlMsgBytes = 65536 := rfl
  rw [frame, List.append_assoc] at h
  obtain ⟨reader₁, hc, hr⟩ := recvMsg_length (by omega) h
  obtain ⟨reader₂, hexact, hc₂⟩ := readExact_append hc rfl
  rw [if_neg (by omega), hexact] at hr
  exact ⟨reader₂, hc₂, hr⟩

/-- The bytes of a received message are a frame that it starts. -/
theorem recvMsg_ok {reader' : ByteStream} (h : recvMsg reader = (.ok (some msg), reader')) :
    ∃ trailing, (serialize msg ++ trailing).length ≤ maxControlMsgBytes ∧
      content reader = frame (serialize msg ++ trailing) ++ content reader' := by
  rcases content_cases reader with hc | ⟨b, bytes, hlen, hc⟩ | ⟨len, rest, hlen, hc⟩
  · rw [recvMsg_end hc] at h
    cases h
  · rw [recvMsg_short hlen hc] at h
    cases h
  · obtain ⟨reader₁, hc₁, hr⟩ := recvMsg_length hlen hc
    rw [hr] at h
    split at h
    · cases h
    · rename_i hmax
      by_cases hle : len ≤ rest.length
      · -- the payload is there
        have htake : (rest.take len).length = len := by
          rw [List.length_take]
          omega
        obtain ⟨reader₂, hexact, hc₂⟩ := readExact_append
          (hc₁.trans (List.take_append_drop len rest).symm) htake
        simp only [hexact] at h
        split at h
        · cases h
        · rename_i hd
          cases h
          obtain ⟨trailing, ht⟩ := of_deserialize hd
          refine ⟨trailing, by rw [ht]; omega, ?_⟩
          rw [ht, frame, htake, hc₂, List.append_assoc, List.take_append_drop]
          exact hc
      · have hshort : (content reader₁).length < len := by
          rw [hc₁]
          omega
        simp only [readExact_short hshort] at h
        cases h

/-- **A message is received from a frame that starts with it.** What follows the message within the
frame is read and ignored, so the bytes are those that `send_msg` writes if there is nothing more. A
frame whose payload starts with no message is an error. -/
theorem recv_consumes (reader : ByteStream) :
    (∀ msg reader', recvMsg reader = (.ok (some msg), reader') →
      ∃ trailing, (serialize msg ++ trailing).length ≤ maxControlMsgBytes ∧
        content reader = frame (serialize msg ++ trailing) ++ content reader' ∧
        (content reader = sendMsg msg ++ content reader' ↔ trailing = [])) ∧
    ∀ payload rest, payload.length ≤ maxControlMsgBytes →
      content reader = frame payload ++ rest → (∀ msg, ¬serialize msg <+: payload) →
      ∃ reader', recvMsg reader = (.error .bincode, reader') ∧ content reader' = rest := by
  constructor
  · intro msg reader' h
    obtain ⟨trailing, hlen, hc⟩ := recvMsg_ok h
    have hmsg : (serialize msg).length ≤ maxControlMsgBytes := by
      rw [List.length_append] at hlen
      omega
    refine ⟨trailing, hlen, hc, ?_⟩
    rw [sendMsg_eq_frame hmsg]
    constructor
    · intro hs
      have hlength := congrArg List.length (hc.symm.trans hs)
      simp only [frame, List.length_append, length_beBytes] at hlength
      exact List.eq_nil_of_length_eq_zero (by omega)
    · rintro rfl
      rw [hc, List.append_nil]
  · intro payload rest hmax hc hno
    obtain ⟨reader', hc', hr⟩ := recvMsg_payload hmax hc
    cases hd : deserialize payload with
    | some msg => exact absurd (of_deserialize hd) (hno msg)
    | none =>
      rw [hd] at hr
      exact ⟨reader', hr, hc'⟩

/-- A frame of seven bytes, the last of which belongs to no message. -/
def longFrame : ByteStream := [⟨[0, 0, 0, 7, 1, 0, 0, 0, 0x10, 0x27, 0], by decide⟩]

theorem recv_consumes_longFrame :
    ∃ trailing, content longFrame = frame (serialize (.tunnelReady 10000) ++ trailing) := by
  have h : recvMsg longFrame = (.ok (some (.tunnelReady 10000)), []) := by decide
  obtain ⟨trailing, -, hc, -⟩ := (recv_consumes longFrame).1 _ _ h
  exact ⟨trailing, hc.trans (List.append_nil _)⟩

theorem not_recv_strict :
    ¬∀ reader msg reader', recvMsg reader = (.ok (some msg), reader') →
      content reader = sendMsg msg ++ content reader' := by
  intro h
  have hc := h longFrame (.tunnelReady 10000) [] (by decide)
  exact absurd hc (by decide)

end Message
end GameNet
