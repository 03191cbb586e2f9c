import Norr.Common
import Norr.Lib.Bytes

/-! The data packet of `packet.cpp`, and the lengths of `traffic_profile.hpp` it is padded to. -/

namespace Norr

open ByteOrder

def kProtocolVersion : UInt8 := 1

def kPacketHeaderSize : ℕ := 16

def kMaximumPacketSize : ℕ := 65535

def kPaddingAlignment : ℕ := 16

def paddedLength (length : ℕ) : ℕ :=
  if length % kPaddingAlignment = 0 then length
  else length + (kPaddingAlignment - length % kPaddingAlignment)

inductive TrafficProfile
  | standard
  | quic
  | dns
  deriving DecidableEq, Repr

def profileBuckets : TrafficProfile → List ℕ
  | .standard => []
  | .quic => [64, 128, 256, 512, 1100]
  | .dns => [64, 128, 256, 512]

def profilePaddedLength (profile : TrafficProfile) (length : ℕ) : ℕ :=
  ((profileBuckets profile).find? (paddedLength length ≤ ·)).getD (paddedLength length)

def kDefaultTunnelMtu : ℕ := 1420

def kEchoRequest : UInt8 := 1

def kEchoReply : UInt8 := 2

def kEchoTokenSize : ℕ := 8

def kLossReport : UInt8 := 3

def kLossReportSize : ℕ := 5

def kPreSessionKeyId : UInt16 := 0

inductive FrameType
  | data
  | control
  | path
  | key
  | error
  | fec
  deriving DecidableEq, Repr

namespace FrameType

def code : FrameType → UInt8
  | data => 1
  | control => 2
  | path => 3
  | key => 4
  | error => 5
  | fec => 6

def ofCode (code : UInt8) : Option FrameType :=
  [data, control, path, key, error, fec].find? (·.code = code)

@[simp]
theorem ofCode_code (type : FrameType) : ofCode type.code = some type := by
  cases type <;> rfl

end FrameType

structure PacketHeader where
  version : UInt8
  type : FrameType
  flags : UInt8
  keyId : UInt16
  headerLength : UInt16 := 16
  counter : UInt64
  payloadLength : UInt16
  deriving DecidableEq, Repr

structure PacketView where
  header : PacketHeader
  payload : Bytes
  deriving DecidableEq, Repr

def parsePacket (bytes : Bytes) : Except Error PacketView :=
  if bytes.length < kPacketHeaderSize then .error .malformedPacket
  else if kMaximumPacketSize < bytes.length then .error .packetTooLarge
  else
    let version := bytes.getD 0 0 >>> 4
    let flags := bytes.getD 1 0
    let headerLength := readU16 bytes 4
    let payloadLength := readU16 bytes 14
    if version ≠ kProtocolVersion then .error .unsupportedVersion
    else
      match FrameType.ofCode (bytes.getD 0 0 &&& 0x0F) with
      | none => .error .malformedPacket
      | some type =>
        if flags ≠ 0 then .error .unsupportedFlags
        else if headerLength.toNat ≠ kPacketHeaderSize then .error .malformedPacket
        else if payloadLength.toNat ≠ bytes.length - kPacketHeaderSize then
          .error .payloadLengthMismatch
        else if readU16 bytes 2 = kPreSessionKeyId ∧ type = .data then .error .reservedKeyId
        else
          .ok ⟨⟨version, type, flags, readU16 bytes 2, headerLength, readU64 bytes 6, payloadLength⟩,
            bytes.drop kPacketHeaderSize⟩

def headerBytes (header : PacketHeader) (payloadLength : ℕ) : Bytes :=
  [(header.version <<< 4) ||| header.type.code, header.flags] ++ writeU16 header.keyId ++
    writeU16 header.headerLength ++ writeU64 header.counter ++ writeU16 (UInt16.ofNat payloadLength)

/-- `room` is the size of the buffer the header is written to. -/
def serializeHeader (header : PacketHeader) (payloadLength room : ℕ) : Except Error Bytes :=
  if header.version ≠ kProtocolVersion then .error .unsupportedVersion
  else if header.flags ≠ 0 then .error .unsupportedFlags
  else if header.headerLength.toNat ≠ kPacketHeaderSize then .error .malformedPacket
  else if header.keyId = kPreSessionKeyId ∧ header.type = .data then .error .reservedKeyId
  else if kMaximumPacketSize - kPacketHeaderSize < payloadLength then .error .packetTooLarge
  else if room < kPacketHeaderSize then .error .malformedPacket
  else .ok (headerBytes header payloadLength)

@[simp]
theorem headerBytes_length (header : PacketHeader) (payloadLength : ℕ) :
    (headerBytes header payloadLength).length = kPacketHeaderSize := by
  simp [headerBytes, kPacketHeaderSize]

structure PacketHeader.Valid (header : PacketHeader) : Prop where
  version : header.version = kProtocolVersion
  flags : header.flags = 0
  headerLength : header.headerLength = 16
  keyId : ¬ (header.keyId = kPreSessionKeyId ∧ header.type = .data)

theorem serializeHeader_ok {header : PacketHeader} {payloadLength room : ℕ} {bytes : Bytes}
    (serialized : serializeHeader header payloadLength room = .ok bytes) :
    bytes = headerBytes header payloadLength ∧ header.Valid ∧
      payloadLength ≤ kMaximumPacketSize - kPacketHeaderSize := by
  unfold serializeHeader at serialized
  split_ifs at serialized with version flags headerLength keyId size room
  cases serialized
  refine ⟨rfl, ⟨not_not.mp version, not_not.mp flags, ?_, keyId⟩, by omega⟩
  apply UInt16.toNat_inj.mp
  exact not_not.mp headerLength

theorem serializeHeader_valid {header : PacketHeader} (valid : header.Valid) {payloadLength room : ℕ}
    (size : payloadLength ≤ kMaximumPacketSize - kPacketHeaderSize) (fits : kPacketHeaderSize ≤ room) :
    serializeHeader header payloadLength room = .ok (headerBytes header payloadLength) := by
  unfold serializeHeader
  rw [if_neg (not_not.mpr valid.version), if_neg (not_not.mpr valid.flags), valid.headerLength,
    if_neg (by decide), if_neg valid.keyId, if_neg (not_lt.mpr size), if_neg (not_lt.mpr fits)]

theorem nibbles (type : FrameType) :
    ((kProtocolVersion <<< 4) ||| type.code) >>> 4 = kProtocolVersion ∧
      ((kProtocolVersion <<< 4) ||| type.code) &&& 0x0F = type.code := by
  cases type <;> decide

theorem parse_headerBytes (header : PacketHeader) (valid : header.Valid) (payload : Bytes)
    (size : payload.length ≤ kMaximumPacketSize - kPacketHeaderSize) :
    parsePacket (headerBytes header payload.length ++ payload) =
      .ok ⟨{ header with payloadLength := UInt16.ofNat payload.length }, payload⟩ := by
  obtain ⟨version, flags, headerLength, keyId⟩ := valid
  set bytes := headerBytes header payload.length ++ payload
  have long : bytes.length = kPacketHeaderSize + payload.length := by rw [List.length_append, headerBytes_length]
  have first : bytes.getD 0 0 = (header.version <<< 4) ||| header.type.code := rfl
  have second : bytes.getD 1 0 = header.flags := rfl
  have key : readU16 bytes 2 = header.keyId := readU16_of_slice rfl
  have lengthField : readU16 bytes 4 = header.headerLength := readU16_of_slice rfl
  have counter : readU64 bytes 6 = header.counter := readU64_of_slice rfl
  have sizeField : readU16 bytes 14 = UInt16.ofNat payload.length := readU16_of_slice rfl
  have sizeBack : (UInt16.ofNat payload.length).toNat = payload.length :=
    UInt16.toNat_ofNat_of_lt' (lt_of_le_of_lt size (by decide))
  have rest : bytes.drop kPacketHeaderSize = payload := List.drop_left' (headerBytes_length _ _)
  obtain ⟨high, low⟩ := nibbles header.type
  unfold parsePacket
  rw [if_neg (by omega), if_neg (by simp only [kMaximumPacketSize, kPacketHeaderSize] at *; omega)]
  simp only [first, second, key, lengthField, counter, sizeField, rest, version, flags, high, low,
    headerLength, FrameType.ofCode_code, ne_eq, not_true_eq_false, if_false]
  rw [if_neg (by simp [kPacketHeaderSize]), if_neg (by rw [sizeBack, long]; omega), if_neg keyId]

end Norr
