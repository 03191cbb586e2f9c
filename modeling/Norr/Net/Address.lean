import Norr.Common
import Norr.Crypto.Primitives

/-! Addresses, prefixes and endpoints: `address.cpp` and `endpoint.cpp`. -/

namespace Norr

inductive AddressFamily
  | ipv4
  | ipv6
  deriving DecidableEq, Repr

def addressLength : AddressFamily → ℕ
  | .ipv4 => 4
  | .ipv6 => 16

def maximumPrefixLength : AddressFamily → ℕ
  | .ipv4 => 32
  | .ipv6 => 128

structure Address where
  family : AddressFamily := .ipv4
  octets : Octets 16 := Octets.zero 16
  deriving DecidableEq

structure Prefix where
  address : Address
  length : UInt8
  deriving DecidableEq

structure Endpoint where
  address : Address := {}
  port : UInt16 := 0
  deriving DecidableEq

namespace Address

def fromBytes (family : AddressFamily) (bytes : Bytes) : Address := ⟨family, Octets.ofBytes 16 bytes⟩

def bytes (address : Address) : Bytes := address.octets.toList.take (addressLength address.family)

@[simp]
theorem bytes_length (address : Address) : address.bytes.length = addressLength address.family := by
  rcases address with ⟨_ | _, octets⟩ <;> simp [bytes, addressLength]

end Address

namespace Text

def digitValue (base : ℕ) (digit : Char) : Option ℕ :=
  let value :=
    if '0' ≤ digit ∧ digit ≤ '9' then digit.toNat - '0'.toNat
    else if 'a' ≤ digit ∧ digit ≤ 'z' then digit.toNat - 'a'.toNat + 10
    else if 'A' ≤ digit ∧ digit ≤ 'Z' then digit.toNat - 'A'.toNat + 10
    else 36
  if value < base then some value else none

/-- std::from_chars into an unsigned integer, when it must consume the whole text. -/
def fromChars (base : ℕ) (text : List Char) : Option ℕ :=
  if text = [] then none
  else text.foldlM (fun value digit => do return value * base + (← digitValue base digit)) 0

def findPair : List Char → Option ℕ
  | ':' :: ':' :: _ => some 0
  | _ :: rest => (findPair rest).map (· + 1)
  | [] => none

end Text

def parseDecimal (text : List Char) (maximum : ℕ) : Except Error ℕ :=
  if text = [] ∨ 3 < text.length then .error .malformedPacket
  else if 1 < text.length ∧ text.head? = some '0' then .error .malformedPacket
  else
    match Text.fromChars 10 text with
    | none => .error .malformedPacket
    | some value => if maximum < value then .error .malformedPacket else .ok value

def parseIpv4 (text : List Char) : Except Error Address := do
  let fields := text.splitOn '.'
  if fields.length ≠ 4 then throw .malformedPacket
  let octets ← fields.mapM (parseDecimal · 255)
  pure (Address.fromBytes .ipv4 (octets.map UInt8.ofNat))

def parseHextet (text : List Char) : Except Error ℕ :=
  if text = [] ∨ 4 < text.length then .error .malformedPacket
  else
    match Text.fromChars 16 text with
    | none => .error .malformedPacket
    | some value => .ok value

def splitHextets (text : List Char) : Except Error (List ℕ) :=
  if text = [] then .ok []
  else if 8 < (text.splitOn ':').length then .error .malformedPacket
  else (text.splitOn ':').mapM parseHextet

def parseIpv6 (text : List Char) : Except Error Address := do
  let hextets ← match Text.findPair text with
    | none => do
        let head ← splitHextets text
        if head.length ≠ 8 then throw .malformedPacket
        pure head
    | some compression => do
        if (Text.findPair (text.drop (compression + 1))).isSome then throw .malformedPacket
        let head ← splitHextets (text.take compression)
        let tail ← splitHextets (text.drop (compression + 2))
        if 8 ≤ head.length + tail.length then throw .malformedPacket
        pure (head ++ List.replicate (8 - head.length - tail.length) 0 ++ tail)
  pure (Address.fromBytes .ipv6 (hextets.flatMap (ByteOrder.bigEndian 2)))

def parseAddress (text : List Char) : Except Error Address :=
  if text = [] then .error .malformedPacket
  else if ':' ∈ text then parseIpv6 text
  else parseIpv4 text

namespace Prefix

def create (address : Address) (length : UInt8) : Except Error Prefix :=
  if maximumPrefixLength address.family < length.toNat then .error .malformedPacket
  else
    let bits := addressLength address.family * 8
    let octets := (List.range' length.toNat (bits - length.toNat)).foldl
      (fun octets index => octets.modify (index / 8) (· &&& ~~~(1 <<< UInt8.ofNat (7 - index % 8))))
      address.bytes
    .ok ⟨Address.fromBytes address.family octets, length⟩

def contains (range : Prefix) (address : Address) : Bool :=
  let wholeOctets := range.length.toNat / 8
  let remainingBits := range.length.toNat % 8
  let candidate := address.bytes
  let network := range.address.bytes
  address.family = range.address.family &&
    candidate.take wholeOctets = network.take wholeOctets &&
    (remainingBits = 0 ||
      let mask := UInt8.ofNat (0xFF <<< (8 - remainingBits))
      candidate.getD wholeOctets 0 &&& mask = network.getD wholeOctets 0 &&& mask)

end Prefix

def parsePrefix (text : List Char) : Except Error Prefix := do
  let some slash := text.findIdx? (· == '/') | throw .malformedPacket
  let address ← parseAddress (text.take slash)
  let lengthText := text.drop (slash + 1)
  if lengthText = [] ∨ 3 < lengthText.length then throw .malformedPacket
  if 1 < lengthText.length ∧ lengthText.head? = some '0' then throw .malformedPacket
  let some length := Text.fromChars 10 lengthText | throw .malformedPacket
  if maximumPrefixLength address.family < length then throw .malformedPacket
  Prefix.create address (UInt8.ofNat length)

def parsePort (text : List Char) : Except Error UInt16 := do
  if text = [] ∨ 5 < text.length then throw .malformedPacket
  if 1 < text.length ∧ text.head? = some '0' then throw .malformedPacket
  let some value := Text.fromChars 10 text | throw .malformedPacket
  if value = 0 ∨ 65535 < value then throw .malformedPacket
  pure (UInt16.ofNat value)

def parseEndpoint (text : List Char) : Except Error Endpoint := do
  if text = [] then throw .malformedPacket
  if text.head? = some '[' then
    let some close := text.findIdx? (· == ']') | throw .malformedPacket
    if text.length ≤ close + 1 ∨ text[close + 1]? ≠ some ':' then throw .malformedPacket
    let address ← parseAddress ((text.take close).drop 1)
    if address.family ≠ .ipv6 then throw .malformedPacket
    let port ← parsePort (text.drop (close + 2))
    pure ⟨address, port⟩
  else
    let some colon := text.findIdx? (· == ':') | throw .malformedPacket
    if ':' ∈ text.drop (colon + 1) then throw .malformedPacket
    let address ← parseAddress (text.take colon)
    if address.family ≠ .ipv4 then throw .malformedPacket
    let port ← parsePort (text.drop (colon + 1))
    pure ⟨address, port⟩

example : (parsePrefix "10.0.7.9/24".toList).toOption.map (·.address.bytes) = some [10, 0, 7, 0] := by
  decide +kernel

end Norr
