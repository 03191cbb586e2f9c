import Norr.Net.Address

/-! Inner IP packets: `ip_packet.cpp`. -/

namespace Norr

open ByteOrder

def kIpv4HeaderSize : ℕ := 20

def kIpv6HeaderSize : ℕ := 40

structure IpPacketView where
  family : AddressFamily
  source : Address
  destination : Address
  protocol : UInt8
  hopLimit : UInt8
  headerLength : ℕ
  totalLength : ℕ
  deriving DecidableEq

def ipVersion (bytes : Bytes) : UInt8 := bytes.getD 0 0 >>> 4

def parseIpv4Packet (bytes : Bytes) : Except Error IpPacketView :=
  if bytes.length < kIpv4HeaderSize then .error .malformedPacket
  else
    let headerLength := (bytes.getD 0 0 &&& 0x0F).toNat * 4
    let totalLength := (readU16 bytes 2).toNat
    if headerLength < kIpv4HeaderSize ∨ bytes.length < headerLength then .error .malformedPacket
    else if totalLength < headerLength then .error .malformedPacket
    else if totalLength ≠ bytes.length then .error .payloadLengthMismatch
    else
      .ok {
        family := .ipv4
        source := Address.fromBytes .ipv4 (slice bytes 12 4)
        destination := Address.fromBytes .ipv4 (slice bytes 16 4)
        protocol := bytes.getD 9 0
        hopLimit := bytes.getD 8 0
        headerLength, totalLength }

def parseIpv6Packet (bytes : Bytes) : Except Error IpPacketView :=
  if bytes.length < kIpv6HeaderSize then .error .malformedPacket
  else
    let totalLength := kIpv6HeaderSize + (readU16 bytes 4).toNat
    if totalLength ≠ bytes.length then .error .payloadLengthMismatch
    else
      .ok {
        family := .ipv6
        source := Address.fromBytes .ipv6 (slice bytes 8 16)
        destination := Address.fromBytes .ipv6 (slice bytes 24 16)
        protocol := bytes.getD 6 0
        hopLimit := bytes.getD 7 0
        headerLength := kIpv6HeaderSize
        totalLength }

def declaredIpLength (bytes : Bytes) : Option ℕ :=
  if bytes = [] then none
  else if ipVersion bytes = 4 then
    if bytes.length < kIpv4HeaderSize then none
    else
      let total := (readU16 bytes 2).toNat
      if total < kIpv4HeaderSize then none else some total
  else if ipVersion bytes = 6 then
    if bytes.length < kIpv6HeaderSize then none
    else some (kIpv6HeaderSize + (readU16 bytes 4).toNat)
  else none

def parseIpPacket (bytes : Bytes) : Except Error IpPacketView :=
  if bytes = [] then .error .malformedPacket
  else if ipVersion bytes = 4 then parseIpv4Packet bytes
  else if ipVersion bytes = 6 then parseIpv6Packet bytes
  else .error .unsupportedVersion

def isMulticast (address : Address) : Bool :=
  match address.family with
  | .ipv4 => address.bytes.getD 0 0 &&& 0xF0 = 0xE0
  | .ipv6 => address.bytes.getD 0 0 = 0xFF

def isUnspecified (address : Address) : Bool := address.bytes.all (· == 0)

def isLoopback (address : Address) : Bool :=
  match address.family with
  | .ipv4 => address.bytes.getD 0 0 = 127
  | .ipv6 => (address.bytes.take 15).all (· == 0) && address.bytes.getD 15 0 = 1

theorem parseIpv4_length {bytes : Bytes} {view : IpPacketView} (parsed : parseIpv4Packet bytes = .ok view) :
    kIpv4HeaderSize ≤ bytes.length ∧ (readU16 bytes 2).toNat = bytes.length := by
  simp only [parseIpv4Packet] at parsed
  split_ifs at parsed with short header total differs
  exact ⟨not_lt.mp short, not_not.mp differs⟩

theorem parseIpv6_length {bytes : Bytes} {view : IpPacketView} (parsed : parseIpv6Packet bytes = .ok view) :
    kIpv6HeaderSize ≤ bytes.length ∧ kIpv6HeaderSize + (readU16 bytes 4).toNat = bytes.length := by
  simp only [parseIpv6Packet] at parsed
  split_ifs at parsed with short differs
  exact ⟨not_lt.mp short, not_not.mp differs⟩

/-- A packet that parses has exactly the length it declares. -/
theorem parse_declared {bytes : Bytes} {view : IpPacketView} (parsed : parseIpPacket bytes = .ok view) :
    declaredIpLength bytes = some bytes.length := by
  unfold parseIpPacket at parsed
  split_ifs at parsed with empty four six
  · obtain ⟨long, total⟩ := parseIpv4_length parsed
    simp only [declaredIpLength, total]
    rw [if_neg empty, if_pos four, if_neg (not_lt.mpr long), if_neg (not_lt.mpr long)]
  · obtain ⟨long, total⟩ := parseIpv6_length parsed
    simp only [declaredIpLength, total]
    rw [if_neg empty, if_neg four, if_pos six, if_neg (not_lt.mpr long)]

end Norr
