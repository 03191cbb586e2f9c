import Mathlib.Data.Int.Notation

/-! What every module shares: the clock and the error codes of the wire formats. -/

namespace Norr

/-- Nanoseconds on the steady clock. -/
abbrev Instant := ℤ

abbrev Duration := ℤ

def milliseconds (count : ℤ) : Duration := count * 1000000

def seconds (count : ℤ) : Duration := milliseconds (count * 1000)

abbrev PeerId := UInt32

def kNoPeer : PeerId := 0

inductive Error
  | malformedPacket
  | packetTooLarge
  | unsupportedVersion
  | unsupportedFlags
  | payloadLengthMismatch
  | counterExhausted
  | reservedKeyId
  deriving DecidableEq, Repr

end Norr
