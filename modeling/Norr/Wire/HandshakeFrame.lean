import Norr.Common
import Norr.Lib.Bytes

/-! The handshake envelope of `handshake_frame.cpp`. -/

namespace Norr

open ByteOrder

def kHandshakeEnvelopeSize : ℕ := 4

def kMaximumHandshakePayload : ℕ := 4096

def kHandshakeMacSize : ℕ := 16

def kHandshakeMacTrailerSize : ℕ := 2 * kHandshakeMacSize

inductive HandshakeMessage
  | init
  | response
  | confirm
  | rekeyInit
  | rekeyAck
  | cookieReply
  deriving DecidableEq, Repr

namespace HandshakeMessage

def code : HandshakeMessage → UInt8
  | init => 1
  | response => 2
  | confirm => 3
  | rekeyInit => 4
  | rekeyAck => 5
  | cookieReply => 6

def ofCode (code : UInt8) : Option HandshakeMessage :=
  [init, response, confirm, rekeyInit, rekeyAck, cookieReply].find? (·.code = code)

@[simp]
theorem ofCode_code (message : HandshakeMessage) : ofCode message.code = some message := by
  cases message <;> rfl

end HandshakeMessage

structure HandshakeFrameView where
  message : HandshakeMessage
  noiseMessage : Bytes
  hasMacs : Bool
  mac1 : Bytes := []
  mac2 : Bytes := []
  mac1Covered : Bytes := []
  mac2Covered : Bytes := []
  deriving DecidableEq, Repr

def mac1Offset (noiseLength : ℕ) : ℕ := kHandshakeEnvelopeSize + noiseLength

def mac2Offset (noiseLength : ℕ) : ℕ := mac1Offset noiseLength + kHandshakeMacSize

def parseHandshakeFrame (bytes : Bytes) : Except Error HandshakeFrameView :=
  if bytes.length < kHandshakeEnvelopeSize then .error .malformedPacket
  else if bytes.getD 1 0 ≠ 1 then .error .unsupportedVersion
  else
    match HandshakeMessage.ofCode (bytes.getD 0 0) with
    | none => .error .malformedPacket
    | some message =>
      let length := (readU16 bytes 2).toNat
      let withoutHeader := bytes.length - kHandshakeEnvelopeSize
      if kMaximumHandshakePayload < length then .error .packetTooLarge
      else if length = withoutHeader then
        .ok { message, noiseMessage := bytes.drop kHandshakeEnvelopeSize, hasMacs := false }
      else if length + kHandshakeMacTrailerSize ≠ withoutHeader then .error .payloadLengthMismatch
      else
        .ok {
          message
          noiseMessage := slice bytes kHandshakeEnvelopeSize length
          hasMacs := true
          mac1 := slice bytes (mac1Offset length) kHandshakeMacSize
          mac2 := slice bytes (mac2Offset length) kHandshakeMacSize
          mac1Covered := bytes.take (mac1Offset length)
          mac2Covered := bytes.take (mac2Offset length) }

def envelope (message : HandshakeMessage) (size : ℕ) : Bytes :=
  [message.code, 1] ++ writeU16 (UInt16.ofNat size)

def serializeHandshakeFrame (message : HandshakeMessage) (noiseMessage : Bytes) : Except Error Bytes :=
  if kMaximumHandshakePayload < noiseMessage.length then .error .packetTooLarge
  else .ok (envelope message noiseMessage.length ++ noiseMessage)

def serializeHandshakeFrameWithMacs (message : HandshakeMessage) (noiseMessage : Bytes) :
    Except Error Bytes :=
  match serializeHandshakeFrame message noiseMessage with
  | .error error => .error error
  | .ok bytes => .ok (bytes ++ List.replicate kHandshakeMacTrailerSize 0)

@[simp]
theorem envelope_length (message : HandshakeMessage) (size : ℕ) :
    (envelope message size).length = kHandshakeEnvelopeSize := by
  simp [envelope, kHandshakeEnvelopeSize]

theorem serializeHandshakeFrame_ok {message : HandshakeMessage} {noiseMessage frame : Bytes}
    (framed : serializeHandshakeFrame message noiseMessage = .ok frame) :
    noiseMessage.length ≤ kMaximumHandshakePayload ∧
      frame = envelope message noiseMessage.length ++ noiseMessage := by
  unfold serializeHandshakeFrame at framed
  split_ifs at framed with large
  cases framed
  exact ⟨not_lt.mp large, rfl⟩

theorem serializeHandshakeFrameWithMacs_ok {message : HandshakeMessage} {noiseMessage frame : Bytes}
    (framed : serializeHandshakeFrameWithMacs message noiseMessage = .ok frame) :
    noiseMessage.length ≤ kMaximumHandshakePayload ∧
      frame = envelope message noiseMessage.length ++ noiseMessage ++ List.replicate 16 0 ++
        List.replicate 16 0 := by
  unfold serializeHandshakeFrameWithMacs at framed
  split at framed
  · cases framed
  · rename_i bare
    obtain ⟨small, rfl⟩ := serializeHandshakeFrame_ok bare
    cases framed
    refine ⟨small, ?_⟩
    rw [List.append_assoc _ (List.replicate 16 0), ← List.replicate_add]
    rfl

/-- A frame of the message as it is on the wire. -/
inductive HandshakeMessage.Frames (message : HandshakeMessage) : Bytes → Prop
  | bare (noiseMessage : Bytes) : noiseMessage.length ≤ kMaximumHandshakePayload →
      Frames message (envelope message noiseMessage.length ++ noiseMessage)
  | macs (noiseMessage mac1 mac2 : Bytes) : noiseMessage.length ≤ kMaximumHandshakePayload →
      mac1.length = kHandshakeMacSize → mac2.length = kHandshakeMacSize →
      Frames message (envelope message noiseMessage.length ++ noiseMessage ++ mac1 ++ mac2)

theorem HandshakeMessage.Frames.head {message : HandshakeMessage} {bytes : Bytes}
    (framed : message.Frames bytes) : bytes.head? = some message.code := by
  cases framed <;> rfl

theorem envelope_fields (message : HandshakeMessage) {size : ℕ} (small : size ≤ kMaximumHandshakePayload)
    (rest : Bytes) :
    (envelope message size ++ rest).length = kHandshakeEnvelopeSize + rest.length ∧
      (envelope message size ++ rest).getD 0 0 = message.code ∧ (envelope message size ++ rest).getD 1 0 = 1 ∧
      (readU16 (envelope message size ++ rest) 2).toNat = size := by
  have sized : readU16 (envelope message size ++ rest) 2 = UInt16.ofNat size := readU16_of_slice rfl
  refine ⟨by rw [List.length_append, envelope_length], rfl, rfl, ?_⟩
  rw [sized]
  exact UInt16.toNat_ofNat_of_lt' (lt_of_le_of_lt small (by decide))

theorem parse_framed (message : HandshakeMessage) (noiseMessage mac1 mac2 : Bytes)
    (size : noiseMessage.length ≤ kMaximumHandshakePayload) (first : mac1.length = kHandshakeMacSize)
    (second : mac2.length = kHandshakeMacSize) :
    parseHandshakeFrame (envelope message noiseMessage.length ++ noiseMessage ++ mac1 ++ mac2) =
      .ok {
        message, noiseMessage, mac1, mac2
        hasMacs := true
        mac1Covered := envelope message noiseMessage.length ++ noiseMessage
        mac2Covered := envelope message noiseMessage.length ++ noiseMessage ++ mac1 } := by
  have covered1 : (envelope message noiseMessage.length ++ noiseMessage).length =
      mac1Offset noiseMessage.length := by simp [mac1Offset]
  have covered2 : (envelope message noiseMessage.length ++ noiseMessage ++ mac1).length =
      mac2Offset noiseMessage.length := by rw [List.length_append, covered1, first, mac2Offset]
  have last :=
    slice_append (envelope message noiseMessage.length ++ noiseMessage ++ mac1) mac2 [] _ _ covered2 second
  have middle := slice_append (envelope message noiseMessage.length ++ noiseMessage) mac1 mac2 _ _ covered1 first
  have body := slice_append (envelope message noiseMessage.length) noiseMessage (mac1 ++ mac2) _ _
    (envelope_length _ _) rfl
  have front := @List.take_left' _ _ (mac1 ++ mac2) _ covered1
  have front' := @List.take_left' _ _ mac2 _ covered2
  obtain ⟨long, code, version, lengthField⟩ := envelope_fields message size (noiseMessage ++ (mac1 ++ mac2))
  simp only [List.append_assoc, List.append_nil] at last middle body front front' ⊢
  unfold parseHandshakeFrame
  rw [if_neg (by rw [long]; omega), version, if_neg (by simp), code, HandshakeMessage.ofCode_code]
  simp only [lengthField, long, List.length_append, first, second]
  rw [if_neg (not_lt.mpr size), if_neg (by rw [kHandshakeMacSize]; omega),
    if_neg (by rw [kHandshakeMacTrailerSize]; omega), body, middle, last, front, front']

theorem parse_bare (message : HandshakeMessage) (noiseMessage : Bytes)
    (size : noiseMessage.length ≤ kMaximumHandshakePayload) :
    parseHandshakeFrame (envelope message noiseMessage.length ++ noiseMessage) =
      .ok { message, noiseMessage, hasMacs := false } := by
  obtain ⟨long, code, version, lengthField⟩ := envelope_fields message size noiseMessage
  unfold parseHandshakeFrame
  rw [if_neg (by rw [long]; omega), version, if_neg (by simp), code, HandshakeMessage.ofCode_code]
  simp only [lengthField, long]
  rw [if_neg (not_lt.mpr size), if_pos (by omega), List.drop_left' (envelope_length _ _)]

end Norr
