import Norr.Lib.Batches
import Norr.Offload.Checksum
import Norr.Transport.Udp

/-! The carriers on raw sockets: `IcmpTransport::send_batch` of `icmp_transport.cpp` and
`RawProtoTransport::send_batch` of `rawproto_transport.cpp`, over sockets whose results are given. The buffers
have grown to the size of the frame when it is built; statistics are left out. -/

namespace Norr

open ByteOrder

def kIcmpEchoRequest : UInt8 := 8
def kIcmpEchoReply : UInt8 := 0
def kIcmp6EchoRequest : UInt8 := 128
def kIcmp6EchoReply : UInt8 := 129
def kIcmpHeaderSize : ℕ := 8
def kNorrIcmpId : UInt16 := 0x4E52

inductive TransportRole
  | client
  | server
  deriving DecidableEq, Repr

/-- A frame given to the socket: its place in the batch, its address and its bytes. -/
structure Handed where
  index : ℕ
  address : Bytes
  bytes : Bytes
  deriving DecidableEq

/-- The words are added in 32 bits. -/
def internetChecksum (bytes : Bytes) : UInt16 :=
  ~~~ Offload.foldChecksum (OnesComplement.wordSum bytes % 2 ^ 32)

inductive SendtoResult
  | sent
  | wouldBlock
  | failed
  deriving DecidableEq

def buildIcmpEcho (type : UInt8) (identifier sequence : UInt16) (payload : Bytes) (room : ℕ) : Option Bytes :=
  if room < kIcmpHeaderSize + payload.length then none
  else
    let rest := writeU16 identifier ++ writeU16 sequence ++ payload
    some ([type, 0] ++ writeU16 (internetChecksum ([type, 0, 0, 0] ++ rest)) ++ rest)

structure IcmpTransport where
  started : Bool := true
  role : TransportRole := .client
  family : AddressFamily := .ipv4
  echoRequestOnly : Bool := false
  identifier : UInt16 := kNorrIcmpId
  sequence : UInt16 := 0

namespace IcmpTransport

def echoType (transport : IcmpTransport) : UInt8 :=
  let request := transport.echoRequestOnly || transport.role = .client
  match transport.family with
  | .ipv6 => if request then kIcmp6EchoRequest else kIcmp6EchoReply
  | .ipv4 => if request then kIcmpEchoRequest else kIcmpEchoReply

/-- The kernel computes the checksum of ICMPv6 itself. -/
def frame (transport : IcmpTransport) (payload : Bytes) : Option Bytes := do
  let framed ← buildIcmpEcho transport.echoType transport.identifier transport.sequence payload
    (kIcmpHeaderSize + payload.length)
  pure (if transport.family = .ipv6 then (framed.set 2 0).set 3 0 else framed)

/-- The loop over the datagrams with their places. Without results the socket is full. -/
def sendLoop : List (OutboundDatagram × ℕ) → List SendtoResult → List Handed → IcmpTransport →
    Except TransportError ℕ × List Handed × IcmpTransport
  | [], _, handed, transport => (.ok handed.length, handed, transport)
  | (datagram, index) :: entries, results, handed, transport =>
    if datagram.destination.address.family ≠ transport.family then sendLoop entries results handed transport
    else
      let advanced := { transport with sequence := transport.sequence + 1 }
      match transport.frame datagram.payload with
      | none => sendLoop entries results handed advanced
      | some bytes =>
        match results with
        | .sent :: results =>
          sendLoop entries results (handed ++ [⟨index, datagram.destination.address.bytes, bytes⟩]) advanced
        | .failed :: _ =>
          (if 0 < handed.length then .ok handed.length else .error .sendFailed, handed, advanced)
        | _ => (.ok handed.length, handed, advanced)

def sendBatch (transport : IcmpTransport) (datagrams : List OutboundDatagram) (results : List SendtoResult) :
    Except TransportError ℕ × List Handed × IcmpTransport :=
  if transport.started = false then (.error .notStarted, [], transport)
  else sendLoop datagrams.zipIdx results [] transport

end IcmpTransport

inductive RawProto
  | ipip
  | gre
  | esp
  | ah
  | ospf
  deriving DecidableEq, Repr

def kGreHeaderSize : ℕ := 8
def kEspHeaderSize : ℕ := 6
def kAhHeaderSize : ℕ := 6
def kIpipHeaderSize : ℕ := 20
def kOspfHeaderSize : ℕ := 24
def kGreProtocolType : UInt16 := 0x0800
def kGreKeyFlags : UInt16 := 0x2000
def kEspSpi : UInt32 := 0xDEADBEEF
def kIpipInnerProtocol : UInt8 := 253
def kIpipInnerTtl : UInt8 := 64
def kOspfVersion : UInt8 := 2
def kOspfHelloType : UInt8 := 1
def kNorrRawTag : UInt16 := 0x4E52

def rawprotoEnvelopeSize : RawProto → ℕ
  | .gre => kGreHeaderSize
  | .esp => kEspHeaderSize
  | .ah => kAhHeaderSize
  | .ipip => kIpipHeaderSize
  | .ospf => kOspfHeaderSize

structure RawProtoTransport where
  started : Bool := true
  proto : RawProto := .gre
  tag : UInt16 := kNorrRawTag
  spi : UInt32 := kEspSpi

namespace RawProtoTransport

def writeU32 (value : UInt32) : Bytes := bigEndian 4 value.toNat

def envelope (transport : RawProtoTransport) (total : ℕ) : Bytes :=
  match transport.proto with
  | .gre => writeU16 kGreKeyFlags ++ writeU16 kGreProtocolType ++ writeU32 transport.tag.toUInt32
  | .esp => writeU32 transport.spi ++ writeU16 transport.tag
  | .ah => [0x3B, 0x04, 0, 0] ++ writeU16 transport.tag
  | .ospf => [kOspfVersion, kOspfHelloType] ++ writeU16 (UInt16.ofNat total) ++ writeU16 0 ++
      writeU16 transport.tag ++ List.replicate 16 0
  | .ipip =>
    let front := [0x45, 0] ++ writeU16 (UInt16.ofNat total) ++ writeU16 transport.tag ++ writeU16 0x4000 ++
      [kIpipInnerTtl, kIpipInnerProtocol]
    front ++ writeU16 (internetChecksum (front ++ List.replicate 10 0)) ++ List.replicate 8 0

def buildFrame (transport : RawProtoTransport) (payload : Bytes) (room : ℕ) : Option Bytes :=
  let total := rawprotoEnvelopeSize transport.proto + payload.length
  if room < total then none else some (transport.envelope total ++ payload)

/-- The messages for the socket; datagrams that cannot be framed are passed over. -/
def prepare (transport : RawProtoTransport) (entry : OutboundDatagram × ℕ) : Option Handed :=
  if entry.1.destination.address.family ≠ .ipv4 then none
  else
    (transport.buildFrame entry.1.payload (rawprotoEnvelopeSize transport.proto + entry.1.payload.length)).map
      (⟨entry.2, entry.1.destination.address.bytes, ·⟩)

/-- The loop over sendmmsg. Without results the socket is full; a count is at most what was offered. -/
def sendLoop (prepared : ℕ) : List SendmmsgResult → ℕ → Except TransportError ℕ
  | [], done => .ok done
  | result :: results, done =>
    if prepared ≤ done then .ok done
    else
      match result with
      | .wouldBlock | .interrupted => .ok done
      | .inputOutput | .failed => if 0 < done then .ok done else .error .sendFailed
      | .sent 0 => .ok done
      | .sent count => sendLoop prepared results (done + min count (prepared - done))

def sendBatch (transport : RawProtoTransport) (datagrams : List OutboundDatagram) (results : List SendmmsgResult) :
    Except TransportError ℕ × List Handed :=
  if transport.started = false then (.error .notStarted, [])
  else
    let prepared := datagrams.zipIdx.filterMap transport.prepare
    if prepared = [] then (.ok 0, [])
    else
      match sendLoop prepared.length results 0 with
      | .error error => (.error error, [])
      | .ok done => (.ok done, prepared.take done)

end RawProtoTransport

open Batches

def outcomeOf (result : Except TransportError ℕ) (handed : List Handed) : Outcome :=
  ⟨result.toOption, handed.map (·.index)⟩

def ofFamily (family : AddressFamily) (datagram : OutboundDatagram) : Bool :=
  datagram.destination.address.family = family

/-- What both senders do: the first sendable datagrams that the socket accepts, counted without the others. -/
structure Skips (family : AddressFamily) (datagrams : List OutboundDatagram) (accepted : ℕ) (outcome : Outcome) :
    Prop where
  handed : outcome.handed = (candidates (ofFamily family) datagrams).take accepted
  returned : outcome.returned = some outcome.handed.length ∨ outcome.returned = none ∧ outcome.handed = []

theorem Skips.honest_iff {family : AddressFamily} {datagrams : List OutboundDatagram} {accepted : ℕ}
    {outcome : Outcome} (skips : Skips family datagrams accepted outcome) :
    Honest (ofFamily family) datagrams outcome ↔
      ∀ datagram ∈ datagrams.take (min accepted (candidates (ofFamily family) datagrams).length),
        ofFamily family datagram = true := by
  have iff := done_iff (ofFamily family) datagrams accepted
  rw [← skips.handed] at iff
  have length : outcome.handed.length = min accepted (candidates (ofFamily family) datagrams).length := by
    rw [skips.handed, List.length_take]
  rw [← length, ← iff]
  rcases skips.returned with counted | ⟨failed, nothing⟩
  · constructor
    · exact fun honest => honest.done _ counted
    · refine fun done => ⟨fun count same => ?_, fun failed => ?_⟩
      · rw [counted, Option.some_inj] at same
        rwa [← same]
      · rw [counted] at failed
        cases failed
  · constructor
    · rw [nothing]
      exact fun _ => Done.nothing datagrams
    · refine fun _ => ⟨fun count same => ?_, fun _ => nothing⟩
      rw [failed] at same
      cases same

namespace IcmpTransport

/-- How many frames the socket takes before it stops. -/
def accepted (results : List SendtoResult) : ℕ := (results.takeWhile (· = .sent)).length

theorem frame_some (transport : IcmpTransport) (payload : Bytes) :
    ∃ bytes, transport.frame payload = some bytes := by
  simp [frame, buildIcmpEcho]

theorem sendLoop_skips (entries : List (OutboundDatagram × ℕ)) (results : List SendtoResult) (handed : List Handed)
    (transport : IcmpTransport) :
    let ran := sendLoop entries results handed transport
    ran.2.1.map (·.index) = handed.map (·.index) ++
        ((entries.filter (ofFamily transport.family ·.1)).map (·.2)).take (accepted results) ∧
      (ran.1 = .ok ran.2.1.length ∨ ran.1 = .error .sendFailed ∧ ran.2.1 = []) ∧
      ∃ sequence, ran.2.2 = { transport with sequence } := by
  induction entries generalizing results handed transport with
  | nil => exact ⟨by simp [sendLoop], .inl rfl, _, rfl⟩
  | cons entry entries ih =>
    obtain ⟨datagram, index⟩ := entry
    by_cases family : datagram.destination.address.family = transport.family
    · obtain ⟨bytes, framed⟩ := transport.frame_some datagram.payload
      have own : ofFamily transport.family datagram = true := decide_eq_true family
      simp only [sendLoop, family, ne_eq, not_true_eq_false, if_false, framed, own, List.filter_cons_of_pos,
        List.map_cons]
      match results with
      | [] => exact ⟨by simp [accepted], .inl rfl, _, rfl⟩
      | .sent :: results =>
        have rest := ih results (handed ++ [⟨index, datagram.destination.address.bytes, bytes⟩])
          { transport with sequence := transport.sequence + 1 }
        simpa [accepted] using rest
      | .failed :: results =>
        refine ⟨by simp [accepted], ?_, _, rfl⟩
        cases handed with
        | nil => exact .inr ⟨rfl, rfl⟩
        | cons head tail => exact .inl rfl
      | .wouldBlock :: results => exact ⟨by simp [accepted], .inl rfl, _, rfl⟩
    · have other : ofFamily transport.family datagram = false := decide_eq_false family
      simp only [sendLoop, ne_eq, family, not_false_eq_true, if_true, other, Bool.false_eq_true,
        List.filter_cons_of_neg, not_false_eq_true]
      exact ih results handed transport

theorem sendBatch_skips {transport : IcmpTransport} (started : transport.started = true)
    (datagrams : List OutboundDatagram) (results : List SendtoResult) :
    Skips transport.family datagrams (accepted results)
      (outcomeOf (transport.sendBatch datagrams results).1 (transport.sendBatch datagrams results).2.1) := by
  obtain ⟨indices, returned, -⟩ := sendLoop_skips datagrams.zipIdx results [] transport
  rw [sendBatch, if_neg (by rw [started]; decide)]
  refine ⟨indices, ?_⟩
  rcases returned with counted | ⟨failed, nothing⟩
  · left
    rw [outcomeOf, counted, List.length_map]
    rfl
  · right
    rw [outcomeOf, failed, nothing]
    exact ⟨rfl, rfl⟩

/-- The results of the calls that are still to come. -/
def call (state : IcmpTransport × List (List SendtoResult)) (datagrams : List OutboundDatagram) :
    Outcome × IcmpTransport × List (List SendtoResult) :=
  let ran := state.1.sendBatch datagrams (state.2.headD [])
  (outcomeOf ran.1 ran.2.1, ran.2.2, state.2.tail)

/-- Nothing is passed over before the last frame that the socket accepts. -/
def Aligned (family : AddressFamily) (results : List SendtoResult) (datagrams : List OutboundDatagram) : Prop :=
  ∀ datagram ∈ datagrams.take (min (accepted results) (datagrams.countP (ofFamily family))),
    ofFamily family datagram = true

theorem honest_iff {transport : IcmpTransport} (started : transport.started = true)
    (datagrams : List OutboundDatagram) (results : List SendtoResult) :
    Honest (ofFamily transport.family) datagrams (outcomeOf (transport.sendBatch datagrams results).1
      (transport.sendBatch datagrams results).2.1) ↔ Aligned transport.family results datagrams := by
  rw [(sendBatch_skips started datagrams results).honest_iff, candidates_length]
  rfl

theorem sendAll_done {transport : IcmpTransport} (started : transport.started = true)
    {results : List (List SendtoResult)} {datagrams : List OutboundDatagram} {rounds : ℕ}
    (aligned : EveryCall call (fun state datagrams => Aligned transport.family (state.2.headD []) datagrams) rounds
      (transport, results) datagrams) :
    Done (ofFamily transport.family) datagrams (sendAll call rounds (transport, results) datagrams).1
      (sendAll call rounds (transport, results) datagrams).2.1 := by
  apply Batches.sendAll_done
  apply aligned.mono fun state => state.1.started = true ∧ state.1.family = transport.family
  · intro state items still
    obtain ⟨-, -, sequence, kept⟩ := sendLoop_skips items.zipIdx (state.2.headD []) [] state.1
    have after : (call state items).2.1 = { state.1 with sequence } := by
      rw [← kept, call, sendBatch, if_neg (by rw [still.1]; decide)]
    rw [after]
    exact still
  · intro state items still condition
    have iff := honest_iff still.1 items (state.2.headD [])
    rw [still.2] at iff
    exact iff.mpr condition
  · exact ⟨started, rfl⟩

end IcmpTransport

namespace RawProtoTransport

/-- How many of the offered messages the socket takes before it stops. -/
def accepted (offered : ℕ) : List SendmmsgResult → ℕ
  | .sent (count + 1) :: results =>
    min (count + 1) offered + accepted (offered - min (count + 1) offered) results
  | _ => 0

theorem accepted_le (offered : ℕ) (results : List SendmmsgResult) : accepted offered results ≤ offered := by
  fun_induction accepted offered results with
  | case1 offered count results ih => omega
  | case2 => exact Nat.zero_le _

theorem sendLoop_accepted (prepared : ℕ) (results : List SendmmsgResult) {done : ℕ} (bounded : done ≤ prepared) :
    sendLoop prepared results done = .ok (done + accepted (prepared - done) results) ∨
      sendLoop prepared results done = .error .sendFailed ∧ done + accepted (prepared - done) results = 0 := by
  induction results generalizing done with
  | nil => exact .inl rfl
  | cons result results ih =>
    by_cases full : prepared ≤ done
    · left
      have none_left : prepared - done = 0 := by omega
      have nothing := accepted_le 0 (result :: results)
      rw [none_left, Nat.le_zero.mp nothing, Nat.add_zero, sendLoop.eq_def]
      exact if_pos full
    · match result with
      | .wouldBlock | .interrupted => exact .inl (if_neg full)
      | .inputOutput | .failed =>
        rcases Nat.eq_zero_or_pos done with rfl | some_done
        · exact .inr ⟨if_neg full, rfl⟩
        · exact .inl ((if_neg full).trans (if_pos some_done))
      | .sent 0 => exact .inl (if_neg full)
      | .sent (count + 1) =>
        have step : sendLoop prepared (.sent (count + 1) :: results) done =
            sendLoop prepared results (done + min (count + 1) (prepared - done)) := if_neg full
        have rest := ih (show done + min (count + 1) (prepared - done) ≤ prepared by omega)
        rw [← Nat.sub_sub] at rest
        simp only [accepted]
        rwa [step, ← Nat.add_assoc]

theorem prepare_index (transport : RawProtoTransport) (entry : OutboundDatagram × ℕ) :
    (transport.prepare entry).map (·.index) = if ofFamily .ipv4 entry.1 then some entry.2 else none := by
  by_cases family : entry.1.destination.address.family = .ipv4
  · simp [prepare, buildFrame, ofFamily, family]
  · simp [prepare, ofFamily, family]

theorem prepared_indices (transport : RawProtoTransport) (entries : List (OutboundDatagram × ℕ)) :
    (entries.filterMap transport.prepare).map (·.index) =
      (entries.filter (ofFamily .ipv4 ·.1)).map (·.2) := by
  rw [List.map_filterMap, ← List.filterMap_eq_map, List.filterMap_filter]
  apply List.filterMap_congr
  intro entry _
  rw [prepare_index]
  rfl

theorem sendBatch_skips {transport : RawProtoTransport} (started : transport.started = true)
    (datagrams : List OutboundDatagram) (results : List SendmmsgResult) :
    Skips .ipv4 datagrams (accepted (candidates (ofFamily .ipv4) datagrams).length results)
      (outcomeOf (transport.sendBatch datagrams results).1 (transport.sendBatch datagrams results).2) := by
  have indices := prepared_indices transport datagrams.zipIdx
  have size := congrArg List.length indices
  rw [List.length_map] at size
  rw [sendBatch, if_neg (by rw [started]; decide), candidates, ← size]
  generalize datagrams.zipIdx.filterMap transport.prepare = prepared at indices size
  by_cases empty : prepared = []
  · have nobody : candidates (ofFamily .ipv4) datagrams = [] := by
      rw [candidates, ← indices, empty]
      rfl
    rw [if_pos empty]
    exact ⟨by rw [nobody, List.take_nil]; rfl, .inl rfl⟩
  · have ran := sendLoop_accepted prepared.length results (Nat.zero_le _)
    rw [Nat.sub_zero, Nat.zero_add] at ran
    rw [if_neg empty]
    have bounded := accepted_le prepared.length results
    have handed : (prepared.take (accepted prepared.length results)).map (·.index) =
        (candidates (ofFamily .ipv4) datagrams).take (accepted prepared.length results) := by
      rw [List.map_take, candidates, indices]
    rcases ran with counted | ⟨failed, nothing⟩
    · rw [counted]
      refine ⟨handed, .inl ?_⟩
      simp only [outcomeOf, List.length_map, List.length_take, Nat.min_eq_left bounded]
      rfl
    · rw [failed, nothing]
      exact ⟨rfl, .inr ⟨rfl, rfl⟩⟩

/-- The results of the calls that are still to come. -/
def call (state : RawProtoTransport × List (List SendmmsgResult)) (datagrams : List OutboundDatagram) :
    Outcome × RawProtoTransport × List (List SendmmsgResult) :=
  let ran := state.1.sendBatch datagrams (state.2.headD [])
  (outcomeOf ran.1 ran.2, state.1, state.2.tail)

/-- Nothing is passed over before the last message that the socket accepts. -/
def Aligned (results : List SendmmsgResult) (datagrams : List OutboundDatagram) : Prop :=
  ∀ datagram ∈ datagrams.take (accepted (datagrams.countP (ofFamily .ipv4)) results), ofFamily .ipv4 datagram = true

theorem honest_iff {transport : RawProtoTransport} (started : transport.started = true)
    (datagrams : List OutboundDatagram) (results : List SendmmsgResult) :
    Honest (ofFamily .ipv4) datagrams (outcomeOf (transport.sendBatch datagrams results).1
      (transport.sendBatch datagrams results).2) ↔ Aligned results datagrams := by
  rw [(sendBatch_skips started datagrams results).honest_iff, Nat.min_eq_left (accepted_le _ _), candidates_length]
  rfl

theorem sendAll_done {transport : RawProtoTransport} (started : transport.started = true)
    {results : List (List SendmmsgResult)} {datagrams : List OutboundDatagram} {rounds : ℕ}
    (aligned : EveryCall call (fun state datagrams => Aligned (state.2.headD []) datagrams) rounds
      (transport, results) datagrams) :
    Done (ofFamily .ipv4) datagrams (sendAll call rounds (transport, results) datagrams).1
      (sendAll call rounds (transport, results) datagrams).2.1 := by
  apply Batches.sendAll_done
  apply aligned.mono fun state => state.1.started = true
  · exact fun _ _ still => still
  · exact fun state items still condition => (honest_iff still items (state.2.headD [])).mpr condition
  · exact started

end RawProtoTransport

/-- For each transport: a call keeps the contract of the Worker just when it passes nothing over before a
datagram it hands on, and the Worker's loop keeps it if each of its calls does. -/
theorem prefix_contract_iff (icmp : IcmpTransport) (icmpStarted : icmp.started = true) (raw : RawProtoTransport)
    (rawStarted : raw.started = true) (datagrams : List OutboundDatagram) :
    (∀ results : List SendtoResult,
      Honest (ofFamily icmp.family) datagrams (outcomeOf (icmp.sendBatch datagrams results).1
        (icmp.sendBatch datagrams results).2.1) ↔ IcmpTransport.Aligned icmp.family results datagrams) ∧
    (∀ results : List SendmmsgResult,
      Honest (ofFamily .ipv4) datagrams (outcomeOf (raw.sendBatch datagrams results).1
        (raw.sendBatch datagrams results).2) ↔ RawProtoTransport.Aligned results datagrams) ∧
    (∀ results : List (List SendtoResult),
      EveryCall IcmpTransport.call
        (fun state datagrams => IcmpTransport.Aligned icmp.family (state.2.headD []) datagrams)
        datagrams.length (icmp, results) datagrams →
      let ran := sendAll IcmpTransport.call datagrams.length (icmp, results) datagrams
      Done (ofFamily icmp.family) datagrams ran.1 ran.2.1) ∧
    (∀ results : List (List SendmmsgResult),
      EveryCall RawProtoTransport.call
        (fun state datagrams => RawProtoTransport.Aligned (state.2.headD []) datagrams)
        datagrams.length (raw, results) datagrams →
      let ran := sendAll RawProtoTransport.call datagrams.length (raw, results) datagrams
      Done (ofFamily .ipv4) datagrams ran.1 ran.2.1) :=
  ⟨IcmpTransport.honest_iff icmpStarted datagrams, RawProtoTransport.honest_iff rawStarted datagrams,
    fun _ => IcmpTransport.sendAll_done icmpStarted, fun _ => RawProtoTransport.sendAll_done rawStarted⟩

def toIpv4 : OutboundDatagram := ⟨⟨.fromBytes .ipv4 [10, 0, 0, 1], 4000⟩, [1]⟩

def toIpv6 : OutboundDatagram := ⟨⟨.fromBytes .ipv6 [0xFD], 4000⟩, [2]⟩

instance (family : AddressFamily) (results : List SendtoResult) (datagrams : List OutboundDatagram) :
    Decidable (IcmpTransport.Aligned family results datagrams) :=
  inferInstanceAs (Decidable (∀ datagram ∈ _, ofFamily family datagram = true))

instance (results : List SendmmsgResult) (datagrams : List OutboundDatagram) :
    Decidable (RawProtoTransport.Aligned results datagrams) :=
  inferInstanceAs (Decidable (∀ datagram ∈ _, ofFamily .ipv4 datagram = true))

/-- A datagram of the other family behind the others is passed over without harm, also by the loop, whose
second call has nothing else left. -/
theorem trailing_other_family :
    let batch := [toIpv4, toIpv6]
    let icmp := IcmpTransport.sendBatch {} batch [.sent]
    let raw := RawProtoTransport.sendBatch {} batch [.sent 1]
    let icmpLoop := sendAll IcmpTransport.call 2 ({}, [[.sent]]) batch
    let rawLoop := sendAll RawProtoTransport.call 2 ({}, [[.sent 1]]) batch
    Honest (ofFamily .ipv4) batch (outcomeOf icmp.1 icmp.2.1) ∧
      Honest (ofFamily .ipv4) batch (outcomeOf raw.1 raw.2) ∧
      Done (ofFamily .ipv4) batch icmpLoop.1 icmpLoop.2.1 ∧ Done (ofFamily .ipv4) batch rawLoop.1 rawLoop.2.1 := by
  have contract := prefix_contract_iff {} rfl {} rfl [toIpv4, toIpv6]
  refine ⟨(contract.1 _).mpr (by decide +kernel), (contract.2.1 _).mpr (by decide +kernel),
    contract.2.2.1 [[.sent]] (.inr ⟨by decide +kernel, fun count returned => ?_⟩),
    contract.2.2.2 [[.sent 1]] (.inr ⟨by decide +kernel, fun count returned => ?_⟩)⟩
  · cases returned
    exact .inr ⟨by decide +kernel, fun _ _ => trivial⟩
  · cases returned
    exact .inr ⟨by decide +kernel, fun _ _ => trivial⟩

/-- The call returns 1 after handing on the second datagram, and the loop sends that one again. -/
theorem leading_other_family :
    outcomeOf (IcmpTransport.sendBatch {} [toIpv6, toIpv4] [.sent]).1
        (IcmpTransport.sendBatch {} [toIpv6, toIpv4] [.sent]).2.1 = ⟨some 1, [1]⟩ ∧
      outcomeOf (RawProtoTransport.sendBatch {} [toIpv6, toIpv4] [.sent 1]).1
        (RawProtoTransport.sendBatch {} [toIpv6, toIpv4] [.sent 1]).2 = ⟨some 1, [1]⟩ ∧
      (sendAll IcmpTransport.call 2 ({}, [[.sent], [.sent]]) [toIpv6, toIpv4]).2.1 = [1, 1] ∧
      (sendAll RawProtoTransport.call 2 ({}, [[.sent 1], [.sent 1]]) [toIpv6, toIpv4]).2.1 = [1, 1] := by
  decide +kernel

end Norr
