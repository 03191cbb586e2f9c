import Norr.Transport.Tcp
import Norr.Worker.Worker

/-! Batches of datagrams on a UDP socket: `UdpTransport::send_batch` of `udp_transport.cpp`, over a
sendmmsg whose results are given. Statistics are left out. -/

namespace Norr

/-- What the kernel knows of an address; in an IPv6 socket an IPv4 address is a mapped one. -/
inductive Sockaddr
  | inet (port : UInt16) (address : Bytes)
  | inet6 (port : UInt16) (address : Bytes)
  deriving DecidableEq

/-- No address is the length 0 of the source. -/
def sockaddrFromEndpoint (endpoint : Endpoint) (socketFamily : AddressFamily) : Option Sockaddr :=
  match socketFamily, endpoint.address.family with
  | .ipv4, .ipv4 => some (.inet endpoint.port endpoint.address.bytes)
  | .ipv4, .ipv6 => none
  | .ipv6, .ipv6 => some (.inet6 endpoint.port endpoint.address.bytes)
  | .ipv6, .ipv4 => some (.inet6 endpoint.port (List.replicate 10 0 ++ [0xFF, 0xFF] ++ endpoint.address.bytes))

/-- A result of ::sendmmsg; a count is at most what was offered. -/
inductive SendmmsgResult
  | sent (count : ℕ)
  | interrupted
  | wouldBlock
  | inputOutput
  | failed
  deriving DecidableEq

/-- A message header: its address, its vectors, and the size in its UDP_SEGMENT control message. -/
structure Message where
  address : Sockaddr
  vectors : List Bytes
  segmentSize : Option UInt16
  deriving DecidableEq

/-- Pieces of one size, and the rest. -/
def cutEvery (size : ℕ) : ℕ → Bytes → List Bytes
  | 0, _ => []
  | rounds + 1, bytes => if bytes = [] then [] else bytes.take size :: cutEvery size rounds (bytes.drop size)

/-- The datagrams that the kernel makes of a message. -/
def Message.datagrams (message : Message) : List (Sockaddr × Bytes) :=
  let bytes := message.vectors.flatten
  match message.segmentSize with
  | none => [(message.address, bytes)]
  | some size => (cutEvery size.toNat bytes.length bytes).map (message.address, ·)

namespace UdpTransport

def kMaximumSegments : ℕ := 64

def kSegmentLimit : ℕ := 65000

/-- An entry of the arrays `firsts`, `members` and `addresses`. -/
structure Group where
  first : ℕ
  members : ℕ
  address : Sockaddr
  deriving DecidableEq

structure Batch where
  groups : List Group := []
  segment : ℕ := 0
  groupBytes : ℕ := 0
  closed : Bool := true
  deriving DecidableEq

/-- The group that a datagram extends. -/
def Batch.extended (batch : Batch) (gso : Bool) (datagrams : List OutboundDatagram) (datagram : OutboundDatagram) :
    Option Group :=
  batch.groups.getLast?.filter fun group =>
    gso && !batch.closed &&
    (datagrams[group.first]?.any fun first => datagram.destination == first.destination) &&
    decide (datagram.payload.length ≤ batch.segment ∧ group.members < kMaximumSegments ∧
      batch.groupBytes + datagram.payload.length ≤ kSegmentLimit ∧ 0 < datagram.payload.length)

/-- One round of the grouping loop. -/
def Batch.take (family : AddressFamily) (gso : Bool) (datagrams : List OutboundDatagram) (batch : Batch)
    (entry : OutboundDatagram × ℕ) : Batch :=
  let size := entry.1.payload.length
  match batch.extended gso datagrams entry.1 with
  | some group =>
    { batch with
      groups := batch.groups.dropLast ++ [{ group with members := group.members + 1 }]
      groupBytes := batch.groupBytes + size
      closed := if size < batch.segment then true else batch.closed }
  | none =>
    match sockaddrFromEndpoint entry.1.destination family with
    | none => { batch with closed := true }
    | some address =>
      { groups := batch.groups ++ [⟨entry.2, 1, address⟩], segment := size, groupBytes := size, closed := false }

def gather (family : AddressFamily) (gso : Bool) (datagrams : List OutboundDatagram) : Batch :=
  let count := min datagrams.length kDefaultBatchSize
  (datagrams.take count).zipIdx.foldl (Batch.take family gso datagrams) {}

/-- The datagrams that the vectors of a group refer to. -/
def Group.part (datagrams : List OutboundDatagram) (group : Group) : List OutboundDatagram :=
  (datagrams.drop group.first).take group.members

def Group.message (datagrams : List OutboundDatagram) (group : Group) : Message :=
  { address := group.address
    vectors := (group.part datagrams).map (·.payload)
    segmentSize :=
      if 1 < group.members then
        datagrams[group.first]?.map fun first => UInt16.ofNat first.payload.length
      else none }

/-- How the sending loop ends. -/
inductive Ending
  | stopped (sentGroups : ℕ) (gso : Bool)
  | again
  | error (error : TransportError)
  deriving DecidableEq

/-- An error counts only as long as nothing was sent. -/
def Ending.onError (sentGroups : ℕ) (gso : Bool) (error : TransportError) : Ending :=
  if 0 < sentGroups then .stopped sentGroups gso else .error error

/-- The loop over sendmmsg, with what the kernel has sent. Without results the socket is full. -/
def sendLoop (gso : Bool) (messages : List Message) :
    List SendmmsgResult → ℕ → List (Sockaddr × Bytes) → Ending × List (Sockaddr × Bytes) × List SendmmsgResult
  | [], sentGroups, wire =>
    if messages.length ≤ sentGroups then (.stopped sentGroups gso, wire, [])
    else (.onError sentGroups gso .wouldBlock, wire, [])
  | result :: results, sentGroups, wire =>
    if messages.length ≤ sentGroups then (.stopped sentGroups gso, wire, result :: results)
    else
      match result with
      | .interrupted => sendLoop gso messages results sentGroups wire
      | .inputOutput =>
        if gso then (if sentGroups = 0 then .again else .stopped sentGroups false, wire, results)
        else (.onError sentGroups gso .sendFailed, wire, results)
      | .wouldBlock => (.onError sentGroups gso .wouldBlock, wire, results)
      | .failed => (.onError sentGroups gso .sendFailed, wire, results)
      | .sent 0 => (.stopped sentGroups gso, wire, results)
      | .sent count =>
        let taken := (messages.drop sentGroups).take count
        sendLoop gso messages results (sentGroups + taken.length) (wire ++ taken.flatMap Message.datagrams)

end UdpTransport

structure UdpTransport where
  started : Bool := true
  family : AddressFamily := .ipv6
  udpGso : Bool := false
  /-- What went out on the socket. -/
  wire : List (Sockaddr × Bytes) := []
  deriving DecidableEq

namespace UdpTransport

/-- send_batch up to the call of itself. -/
def attempt (transport : UdpTransport) (datagrams : List OutboundDatagram) (results : List SendmmsgResult) :
    Option (Except TransportError ℕ) × UdpTransport × List SendmmsgResult :=
  if !transport.started then (some (.error .notStarted), transport, results)
  else if datagrams = [] then (some (.ok 0), transport, results)
  else
    let count := min datagrams.length kDefaultBatchSize
    let groups := (gather transport.family transport.udpGso datagrams).groups
    if groups = [] then (some (.ok count), transport, results)
    else
      match sendLoop transport.udpGso (groups.map (Group.message datagrams)) results 0 transport.wire with
      | (.stopped sentGroups udpGso, wire, results) =>
        let sent := (groups[sentGroups]?.map Group.first).getD count
        (some (.ok sent), { transport with udpGso, wire }, results)
      | (.again, wire, results) => (none, { transport with udpGso := false, wire }, results)
      | (.error error, wire, results) => (some (.error error), { transport with wire }, results)

/-- Without segmentation offload there is no second time. -/
def sendBatch (transport : UdpTransport) (datagrams : List OutboundDatagram) (results : List SendmmsgResult) :
    Except TransportError ℕ × UdpTransport × List SendmmsgResult :=
  match transport.attempt datagrams results with
  | (some outcome, transport, results) => (outcome, transport, results)
  | (none, transport, results) =>
    match transport.attempt datagrams results with
    | (some outcome, transport, results) => (outcome, transport, results)
    | (none, transport, results) => (.error .sendFailed, transport, results)

end UdpTransport

end Norr
