import Norr.Transport.Udp

/-! `UdpTransport::receive_batch` of `udp_transport.cpp`. What recvmmsg coalesced is cut again; datagrams that
do not fit into the caller's span wait as views into the receive buffers. Statistics are left out. -/

namespace Norr

def endpointFromSockaddr : Option Sockaddr → Endpoint
  | some (.inet port octets) => ⟨.fromBytes .ipv4 octets, port⟩
  | some (.inet6 port octets) =>
    if octets.take 12 = List.replicate 10 0 ++ [0xFF, 0xFF] then ⟨.fromBytes .ipv4 (octets.drop 12), port⟩
    else ⟨.fromBytes .ipv6 octets, port⟩
  | none => {}

structure ReceivedDatagram where
  source : Endpoint
  payload : Bytes
  deriving DecidableEq

/-- A message with its UDP_GRO control message; another address family is no address. -/
structure ReceivedMessage where
  address : Option Sockaddr
  bytes : Bytes
  segmentSize : Option ℤ := none
  truncated : Bool := false
  deriving DecidableEq

inductive RecvmmsgResult
  | wouldBlock
  | failed
  | received (arrivals : List ReceivedMessage)
  deriving DecidableEq

structure ReceiveBuffers where
  datagramSize : ℕ
  slots : List Bytes
  sized : ∀ slot ∈ slots, slot.length = datagramSize

/-- An InboundDatagram: its payload is a part of a slot. -/
structure View where
  source : Endpoint
  slot : ℕ
  offset : ℕ
  length : ℕ
  deriving DecidableEq

namespace ReceivedMessage

def source (arrival : ReceivedMessage) : Endpoint := endpointFromSockaddr arrival.address

def segment (udpGro : Bool) (arrival : ReceivedMessage) : ℕ :=
  match arrival.segmentSize with
  | none => arrival.bytes.length
  | some size => if udpGro ∧ 0 < size then size.toNat else arrival.bytes.length

/-- What the sender of the message sent, as far as the message is accepted. -/
def segments (udpGro : Bool) (arrival : ReceivedMessage) : List ReceivedDatagram :=
  if arrival.truncated ∨ arrival.source.port = 0 then []
  else (cutEvery (arrival.segment udpGro) arrival.bytes.length arrival.bytes).map (⟨arrival.source, ·⟩)

end ReceivedMessage

namespace ReceiveBuffers

def create (count datagramSize : ℕ) : ReceiveBuffers :=
  ⟨datagramSize, List.replicate count (List.replicate datagramSize 0), by
    intro slot member
    rw [List.eq_of_mem_replicate member, List.length_replicate]⟩

def count (buffers : ReceiveBuffers) : ℕ := buffers.slots.length

def resolve (buffers : ReceiveBuffers) (view : View) : ReceivedDatagram :=
  ⟨view.source, ((buffers.slots.getD view.slot []).drop view.offset).take view.length⟩

def overwrite (slot bytes : Bytes) : Bytes := bytes.take slot.length ++ slot.drop bytes.length

theorem overwrite_length (slot bytes : Bytes) : (overwrite slot bytes).length = slot.length := by
  simp only [overwrite, List.length_append, List.length_take, List.length_drop]
  omega

def fillSlots : List Bytes → List ReceivedMessage → List Bytes
  | slot :: slots, arrival :: arrivals => overwrite slot arrival.bytes :: fillSlots slots arrivals
  | slots, _ => slots

theorem mem_fillSlots {slots : List Bytes} {arrivals : List ReceivedMessage} {slot : Bytes}
    (member : slot ∈ fillSlots slots arrivals) : ∃ old ∈ slots, slot.length = old.length := by
  induction slots generalizing arrivals with
  | nil =>
    cases arrivals <;> cases member
  | cons old slots ih =>
    cases arrivals with
    | nil => exact ⟨slot, member, rfl⟩
    | cons arrival arrivals =>
      rcases List.mem_cons.mp member with rfl | inside
      · exact ⟨old, List.mem_cons_self, overwrite_length _ _⟩
      · obtain ⟨other, among, same⟩ := ih inside
        exact ⟨other, List.mem_cons_of_mem _ among, same⟩

theorem fillSlots_length (slots : List Bytes) (arrivals : List ReceivedMessage) :
    (fillSlots slots arrivals).length = slots.length := by
  induction slots generalizing arrivals with
  | nil => cases arrivals <;> rfl
  | cons slot slots ih =>
    cases arrivals with
    | nil => rfl
    | cons arrival arrivals => exact congrArg (· + 1) (ih arrivals)

def fill (buffers : ReceiveBuffers) (arrivals : List ReceivedMessage) : ReceiveBuffers :=
  { buffers with
    slots := fillSlots buffers.slots arrivals
    sized := by
      intro slot member
      obtain ⟨old, among, same⟩ := mem_fillSlots member
      rw [same, buffers.sized old among] }

/-- The kernel fills at most `count` slots and says which messages did not fit. -/
def recvmmsg (buffers : ReceiveBuffers) (count : ℕ) (arrivals : List ReceivedMessage) : List ReceivedMessage :=
  (arrivals.take count).map fun arrival =>
    { arrival with
      bytes := arrival.bytes.take buffers.datagramSize
      truncated := arrival.truncated || buffers.datagramSize < arrival.bytes.length }

end ReceiveBuffers

/-- The receiving half of a UdpTransport. `arrived` is history: the segments of all accepted messages. -/
structure UdpReceiver where
  started : Bool := true
  udpGro : Bool := true
  backlog : List View := []
  backlogNext : ℕ := 0
  arrived : List ReceivedDatagram := []

namespace UdpReceiver

/-- The loop over the segments of one message. -/
def segmentViews (source : Endpoint) (slot length segment : ℕ) : ℕ → ℕ → List View
  | 0, _ => []
  | rounds + 1, offset =>
    if offset < length then
      ⟨source, slot, offset, min segment (length - offset)⟩ ::
        segmentViews source slot length segment rounds (offset + segment)
    else []

/-- Into the caller's span, or behind it into the backlog. -/
def place (room : ℕ) (placed : List View × List View) (view : View) : List View × List View :=
  if placed.1.length < room then (placed.1 ++ [view], placed.2) else (placed.1, placed.2 ++ [view])

/-- The loop over the messages. -/
def collect (udpGro : Bool) (room : ℕ) : ℕ → List ReceivedMessage → List View × List View → List View × List View
  | _, [], placed => placed
  | index, arrival :: arrivals, placed =>
    if arrival.truncated then collect udpGro room (index + 1) arrivals placed
    else if arrival.source.port = 0 then collect udpGro room (index + 1) arrivals placed
    else
      let views := segmentViews arrival.source index arrival.bytes.length (arrival.segment udpGro)
        arrival.bytes.length 0
      collect udpGro room (index + 1) arrivals (views.foldl (place room) placed)

/-- `room` is the size of the caller's span, `result` what recvmmsg answers if it is called. -/
def receiveBatch (receiver : UdpReceiver) (buffers : ReceiveBuffers) (room : ℕ) (result : RecvmmsgResult) :
    Except TransportError (List View) × UdpReceiver × ReceiveBuffers :=
  if receiver.started = false then (.error .notStarted, receiver, buffers)
  else if room = 0 ∨ buffers.count = 0 then (.ok [], receiver, buffers)
  else if receiver.backlogNext < receiver.backlog.length then
    let taken := min room (receiver.backlog.length - receiver.backlogNext)
    (.ok ((receiver.backlog.drop receiver.backlogNext).take taken),
      { receiver with backlogNext := receiver.backlogNext + taken }, buffers)
  else
    let cleared := { receiver with backlog := [], backlogNext := 0 }
    match result with
    | .wouldBlock => (.ok [], cleared, buffers)
    | .failed => (.error .receiveFailed, cleared, buffers)
    | .received arrivals =>
      let count := min room (min buffers.count kDefaultBatchSize)
      let filled := buffers.recvmmsg count arrivals
      let placed := collect receiver.udpGro room 0 filled ([], [])
      (.ok placed.1,
        { cleared with
          backlog := placed.2
          arrived := receiver.arrived ++ filled.flatMap (ReceivedMessage.segments receiver.udpGro) },
        buffers.fill filled)

def views (udpGro : Bool) : ℕ → List ReceivedMessage → List View
  | _, [] => []
  | index, arrival :: arrivals =>
    (if arrival.truncated ∨ arrival.source.port = 0 then []
      else segmentViews arrival.source index arrival.bytes.length (arrival.segment udpGro)
        arrival.bytes.length 0) ++ views udpGro (index + 1) arrivals

theorem foldl_place (room : ℕ) (all more : List View) :
    more.foldl (place room) (all.take room, all.drop room) =
      ((all ++ more).take room, (all ++ more).drop room) := by
  induction more generalizing all with
  | nil => simp
  | cons view more ih =>
    have step : place room (all.take room, all.drop room) view =
        ((all ++ [view]).take room, (all ++ [view]).drop room) := by
      simp only [place, List.length_take]
      split_ifs with spare
      · have short : all.length < room := by omega
        rw [List.take_of_length_le short.le, List.drop_eq_nil_of_le short.le,
          List.take_of_length_le (by simp; omega), List.drop_eq_nil_of_le (by simp; omega)]
      · have long : room ≤ all.length := by omega
        rw [List.take_append_of_le_length long, List.drop_append_of_le_length long]
    rw [List.foldl_cons, step, ih, List.append_assoc, List.singleton_append]

theorem collect_eq (udpGro : Bool) (room index : ℕ) (arrivals : List ReceivedMessage) (all : List View) :
    collect udpGro room index arrivals (all.take room, all.drop room) =
      ((all ++ views udpGro index arrivals).take room, (all ++ views udpGro index arrivals).drop room) := by
  induction arrivals generalizing index all with
  | nil => simp [collect, views]
  | cons arrival arrivals ih =>
    simp only [collect, views]
    by_cases cut : arrival.truncated
    · simpa [cut] using ih (index + 1) all
    · by_cases unknown : arrival.source.port = 0
      · simpa [cut, unknown] using ih (index + 1) all
      · simp only [cut, unknown, Bool.false_eq_true, or_self, if_false, foldl_place, ih, List.append_assoc]

/-- The views of a message, read back from the slot it was written to. -/
theorem segmentViews_resolve {buffers : ReceiveBuffers} {source : Endpoint} {slot segment : ℕ} {bytes rest : Bytes}
    (written : buffers.slots.getD slot [] = bytes ++ rest) (rounds offset : ℕ) :
    (segmentViews source slot bytes.length segment rounds offset).map buffers.resolve =
      (cutEvery segment rounds (bytes.drop offset)).map (⟨source, ·⟩) := by
  induction rounds generalizing offset with
  | zero => rfl
  | succ rounds ih =>
    rw [segmentViews, cutEvery]
    have ended : bytes.drop offset = [] ↔ bytes.length ≤ offset := List.drop_eq_nil_iff
    by_cases inside : offset < bytes.length
    · have piece : ((bytes ++ rest).drop offset).take (min segment (bytes.length - offset)) =
          (bytes.drop offset).take segment := by
        rw [List.drop_append_of_le_length inside.le, List.take_append_of_le_length (by simp),
          ← List.length_drop, ← List.take_eq_take_min]
      rw [if_pos inside, if_neg (by rw [ended]; omega), List.map_cons, List.map_cons, ih, List.drop_drop,
        ReceiveBuffers.resolve, written, piece]
    · rw [if_neg inside, if_pos (by rw [ended]; omega)]
      rfl

theorem views_resolve {buffers : ReceiveBuffers} {udpGro : Bool} {before slots : List Bytes}
    {arrivals : List ReceivedMessage} (written : buffers.slots = before ++ ReceiveBuffers.fillSlots slots arrivals)
    (enough : arrivals.length ≤ slots.length)
    (fits : ∀ arrival ∈ arrivals, ∀ slot ∈ slots, arrival.bytes.length ≤ slot.length) :
    (views udpGro before.length arrivals).map buffers.resolve =
      arrivals.flatMap (ReceivedMessage.segments udpGro) := by
  induction arrivals generalizing before slots with
  | nil => rfl
  | cons arrival arrivals ih =>
    cases slots with
    | nil => cases enough
    | cons slot slots =>
      rw [ReceiveBuffers.fillSlots] at written
      have later : buffers.slots = (before ++ [ReceiveBuffers.overwrite slot arrival.bytes]) ++
          ReceiveBuffers.fillSlots slots arrivals := by
        rw [written, List.append_assoc, List.singleton_append]
      have others := ih later (Nat.le_of_succ_le_succ enough) fun arrival member slot among =>
        fits arrival (List.mem_cons_of_mem _ member) slot (List.mem_cons_of_mem _ among)
      rw [List.length_append, List.length_singleton] at others
      have own : buffers.slots.getD before.length [] = arrival.bytes ++ slot.drop arrival.bytes.length := by
        have whole := fits arrival List.mem_cons_self slot List.mem_cons_self
        rw [written, List.getD_append_right _ _ _ _ le_rfl, Nat.sub_self, List.getD_cons_zero,
          ReceiveBuffers.overwrite, List.take_of_length_le whole]
      rw [views, List.map_append, others, List.flatMap_cons]
      congr 1
      unfold ReceivedMessage.segments
      split_ifs
      · rfl
      · rw [segmentViews_resolve own, List.drop_zero]

end UdpReceiver

/-- One transport with one set of buffers, and what its callers have got. -/
structure Reception where
  receiver : UdpReceiver
  buffers : ReceiveBuffers
  delivered : List ReceivedDatagram := []

namespace Reception

structure Call where
  room : ℕ
  result : RecvmmsgResult

def call (reception : Reception) (call : Call) : Reception :=
  let (outcome, receiver, buffers) := reception.receiver.receiveBatch reception.buffers call.room call.result
  { receiver, buffers
    delivered := reception.delivered ++ (outcome.toOption.getD []).map buffers.resolve }

def run (reception : Reception) (calls : List Call) : Reception := calls.foldl call reception

def start (udpGro : Bool) (buffers : ReceiveBuffers) : Reception := ⟨{ udpGro }, buffers, []⟩

def waitingViews (reception : Reception) : List View :=
  reception.receiver.backlog.drop reception.receiver.backlogNext

/-- The backlog, as the buffers have it now. -/
def waiting (reception : Reception) : List ReceivedDatagram :=
  reception.waitingViews.map reception.buffers.resolve

structure Intact (reception : Reception) : Prop where
  started : reception.receiver.started = true
  slots : reception.waiting ≠ [] → reception.buffers.count ≠ 0
  all : reception.delivered ++ reception.waiting = reception.receiver.arrived

theorem intact_start (udpGro : Bool) (buffers : ReceiveBuffers) : (start udpGro buffers).Intact :=
  ⟨rfl, fun waits => absurd rfl waits, rfl⟩

variable {reception : Reception}

/-- As long as something waits, a call neither touches the buffers nor skips ahead. -/
structure Serves (before after : Reception) (room : ℕ) : Prop where
  buffers : after.buffers = before.buffers
  delivered : after.delivered = before.delivered ++ before.waiting.take room
  waiting : after.waiting = before.waiting.drop room
  arrived : after.receiver.arrived = before.receiver.arrived
  started : after.receiver.started = before.receiver.started

theorem call_serves (intact : reception.Intact) (waits : reception.waiting ≠ []) {room : ℕ} (some_room : room ≠ 0)
    (result : RecvmmsgResult) : reception.Serves (reception.call ⟨room, result⟩) room := by
  have slots := intact.slots waits
  have left : reception.receiver.backlogNext < reception.receiver.backlog.length := by
    by_contra none_left
    apply waits
    rw [waiting, waitingViews, List.drop_eq_nil_of_le (Nat.le_of_not_lt none_left), List.map_nil]
  have same : (reception.receiver.backlog.drop reception.receiver.backlogNext).take
      (min room (reception.receiver.backlog.length - reception.receiver.backlogNext)) =
        reception.waitingViews.take room := by
    rw [waitingViews, ← List.length_drop, ← List.take_eq_take_min]
  have rest : reception.receiver.backlog.drop (reception.receiver.backlogNext +
      min room (reception.receiver.backlog.length - reception.receiver.backlogNext)) =
        reception.waitingViews.drop room := by
    rw [waitingViews, List.drop_drop, ← List.drop_drop, ← List.length_drop, ← List.drop_eq_drop_min, List.drop_drop]
  have ran : reception.call ⟨room, result⟩ = ⟨{ reception.receiver with
      backlogNext := reception.receiver.backlogNext +
        min room (reception.receiver.backlog.length - reception.receiver.backlogNext) }, reception.buffers,
      reception.delivered ++ (reception.waitingViews.take room).map reception.buffers.resolve⟩ := by
    simp only [call, UdpReceiver.receiveBatch, intact.started, some_room, slots, left, same, Bool.true_eq_false,
      or_self, if_false, if_true]
    rfl
  rw [ran]
  refine ⟨rfl, ?_, ?_, rfl, rfl⟩
  · rw [waiting, List.map_take]
  · simp only [waiting, waitingViews, rest, List.map_drop]

theorem recvmmsg_resolve (buffers : ReceiveBuffers) {count : ℕ} (few : count ≤ buffers.count) (udpGro : Bool)
    (arrivals : List ReceivedMessage) :
    (UdpReceiver.views udpGro 0 (buffers.recvmmsg count arrivals)).map
        (buffers.fill (buffers.recvmmsg count arrivals)).resolve =
      (buffers.recvmmsg count arrivals).flatMap (ReceivedMessage.segments udpGro) := by
  have written : (buffers.fill (buffers.recvmmsg count arrivals)).slots =
      [] ++ ReceiveBuffers.fillSlots buffers.slots (buffers.recvmmsg count arrivals) := rfl
  apply UdpReceiver.views_resolve written
  · simp only [ReceiveBuffers.recvmmsg, List.length_map, List.length_take]
    exact (Nat.min_le_left _ _).trans few
  · intro arrival member slot among
    obtain ⟨given, -, rfl⟩ := List.mem_map.mp member
    rw [buffers.sized slot among]
    exact List.length_take_le _ _

/-- A call whose recvmmsg returned messages. -/
def receives (reception : Reception) (action : Call) (filled : List ReceivedMessage) : Reception :=
  let placed := UdpReceiver.collect reception.receiver.udpGro action.room 0 filled ([], [])
  let buffers := reception.buffers.fill filled
  { receiver := { reception.receiver with
      backlog := placed.2
      backlogNext := 0
      arrived := reception.receiver.arrived ++ filled.flatMap (ReceivedMessage.segments reception.receiver.udpGro) }
    buffers
    delivered := reception.delivered ++ placed.1.map buffers.resolve }

theorem call_drained (intact : reception.Intact) (drained : reception.waiting = []) (action : Call) :
    (reception.call action).Intact := by
  have views : reception.waitingViews = [] := List.map_eq_nil_iff.mp drained
  have delivered : reception.delivered = reception.receiver.arrived := by
    rw [← intact.all, drained, List.append_nil]
  by_cases nothing : action.room = 0 ∨ reception.buffers.count = 0
  · have same : reception.call action = reception := by
      simp [call, UdpReceiver.receiveBatch, intact.started, nothing, Except.toOption]
    rwa [same]
  · have ended : ¬ reception.receiver.backlogNext < reception.receiver.backlog.length := by
      rw [Nat.not_lt]
      exact List.drop_eq_nil_iff.mp views
    cases answer : action.result with
    | wouldBlock | failed =>
      have ran : reception.call action =
          { reception with receiver := { reception.receiver with backlog := [], backlogNext := 0 } } := by
        simp [call, UdpReceiver.receiveBatch, intact.started, nothing, ended, answer, Except.toOption]
      rw [ran]
      exact ⟨intact.started, fun waits => absurd rfl waits, (List.append_nil _).trans delivered⟩
    | received arrivals =>
      have resolved := recvmmsg_resolve reception.buffers
        (show min action.room (min reception.buffers.count kDefaultBatchSize) ≤ reception.buffers.count by omega)
        reception.receiver.udpGro arrivals
      have ran : reception.call action = reception.receives action
          (reception.buffers.recvmmsg (min action.room (min reception.buffers.count kDefaultBatchSize))
            arrivals) := by
        simp only [call, UdpReceiver.receiveBatch, intact.started, nothing, ended, answer, Bool.true_eq_false,
          if_false, receives]
        rfl
      rw [ran]
      revert resolved
      generalize reception.buffers.recvmmsg _ arrivals = filled
      intro resolved
      have placed : UdpReceiver.collect reception.receiver.udpGro action.room 0 filled ([], []) =
          ((UdpReceiver.views reception.receiver.udpGro 0 filled).take action.room,
            (UdpReceiver.views reception.receiver.udpGro 0 filled).drop action.room) := by
        simpa using UdpReceiver.collect_eq reception.receiver.udpGro action.room 0 filled []
      refine ⟨intact.started, fun _ => ?_, ?_⟩
      · intro none_left
        apply nothing
        right
        rw [← none_left]
        exact (ReceiveBuffers.fillSlots_length reception.buffers.slots filled).symm
      · simp only [receives, placed, waiting, waitingViews, List.drop_zero]
        rw [List.append_assoc, ← List.map_append, List.take_append_drop, resolved, delivered]

theorem Intact.call (intact : reception.Intact) (action : Call) : (reception.call action).Intact := by
  by_cases drained : reception.waiting = []
  · exact call_drained intact drained action
  · by_cases no_room : action.room = 0
    · have same : reception.call action = reception := by
        simp [Reception.call, UdpReceiver.receiveBatch, intact.started, no_room, Except.toOption]
      rwa [same]
    · have serves := call_serves intact drained no_room action.result
      refine ⟨serves.started.trans intact.started, fun _ => ?_, ?_⟩
      · rw [serves.buffers]
        exact intact.slots drained
      · rw [serves.delivered, serves.waiting, serves.arrived, List.append_assoc, List.take_append_drop, intact.all]

theorem run_intact (udpGro : Bool) (buffers : ReceiveBuffers) (calls : List Call) :
    ((start udpGro buffers).run calls).Intact := by
  suffices kept : ∀ reception : Reception, reception.Intact → (reception.run calls).Intact from
    kept _ (intact_start udpGro buffers)
  induction calls with
  | nil => exact fun _ intact => intact
  | cons action calls ih => exact fun reception intact => ih _ (intact.call action)

/-- What was delivered and what waits in the backlog are together the segments of the accepted messages, and
while something waits no call receives anything else. -/
theorem receive_coalescing_invisible (udpGro : Bool) (buffers : ReceiveBuffers) (calls : List Call) :
    let reception := (start udpGro buffers).run calls
    reception.delivered ++ reception.waiting = reception.receiver.arrived ∧
      ∀ room result, room ≠ 0 → reception.waiting ≠ [] →
        reception.Serves (reception.call ⟨room, result⟩) room := by
  intro reception
  have intact := run_intact udpGro buffers calls
  exact ⟨intact.all, fun room result some_room waits => call_serves intact waits some_room result⟩

/-- A message of two datagrams. -/
def coalesced (first second : UInt8) : ReceivedMessage :=
  ⟨some (.inet 4000 [10, 0, 0, 1]), [first, second], some 1, false⟩

theorem coalesced_waits :
    let reception := (start true (.create 2 4)).run [⟨1, .received [coalesced 7 8]⟩]
    reception.waiting = [⟨(coalesced 7 8).source, [8]⟩] ∧
      reception.Serves (reception.call ⟨1, .received [coalesced 5 6]⟩) 1 :=
  ⟨by decide +kernel, (receive_coalescing_invisible true (.create 2 4) [⟨1, .received [coalesced 7 8]⟩]).2 1
    (.received [coalesced 5 6]) (by decide) (by decide +kernel)⟩

end Reception

end Norr
