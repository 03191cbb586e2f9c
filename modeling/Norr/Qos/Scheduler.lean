import Mathlib.Algebra.BigOperators.Group.List.Basic
import Mathlib.Logic.Function.Basic
import Norr.Net.IpPacket

/-! The Scheduler of `qos.cpp`: three FIFO queues under a common limit of bytes, strict priority for
realtime packets, a weighted alternation between the other two classes.

Sizes and counters are natural numbers; a queueing delay is a whole number of microseconds. -/

namespace Norr

open Function (update)

inductive TrafficClass
  | realtime
  | normal
  | bulk
  deriving DecidableEq, Repr

def kProtocolTcp : UInt8 := 6

def kProtocolUdp : UInt8 := 17

def kDscpExpeditedForwarding : UInt8 := 46

def kDscpVoiceAdmit : UInt8 := 44

def kDscpClassSelector5 : UInt8 := 40

def dscpOf (packet : IpPacketView) (frame : Bytes) : UInt8 :=
  if frame.length ≤ (if packet.family = .ipv4 then 1 else 0) + 1 then 0
  else if packet.family = .ipv4 then frame.getD 1 0 >>> 2
  else (((frame.getD 0 0 &&& 0x0F) <<< 4) ||| (frame.getD 1 0 >>> 4)) >>> 2

def classify (packet : IpPacketView) (frame : Bytes) : TrafficClass :=
  let dscp := dscpOf packet frame
  let payload := packet.totalLength - packet.headerLength
  if dscp = kDscpExpeditedForwarding ∨ dscp = kDscpVoiceAdmit ∨ dscp = kDscpClassSelector5 then .realtime
  else if packet.protocol = kProtocolUdp ∧ payload ≤ 256 then .realtime
  else if packet.protocol = kProtocolTcp ∧ 1024 ≤ payload then .bulk
  else .normal

def defaultCapacity : TrafficClass → ℕ
  | .realtime => 256
  | .normal => 1024
  | .bulk => 4096

structure QueueLimits where
  capacity : TrafficClass → ℕ := defaultCapacity
  totalBytes : ℕ := 16 * 1024 * 1024

structure SchedulerStats where
  enqueued : TrafficClass → ℕ := fun _ => 0
  dequeued : TrafficClass → ℕ := fun _ => 0
  dropped : TrafficClass → ℕ := fun _ => 0
  queueDelaySamples : TrafficClass → ℕ := fun _ => 0
  queueDelayTotalUs : TrafficClass → ℤ := fun _ => 0
  shedForMemory : ℕ := 0

structure QueuedPacket where
  bytes : Bytes
  trafficClass : TrafficClass := .normal
  enqueuedAt : Instant := 0
  destination : Endpoint := {}
  deriving DecidableEq

structure Scheduler where
  limits : QueueLimits := {}
  queues : TrafficClass → List QueuedPacket := fun _ => []
  queuedBytes : ℕ := 0
  normalDeficit : ℕ := 0
  bulkDeficit : ℕ := 0
  stats : SchedulerStats := {}

def kNormalWeight : ℕ := 3

def kBulkWeight : ℕ := 1

def addTo (counters : TrafficClass → ℕ) (trafficClass : TrafficClass) (count : ℕ) : TrafficClass → ℕ :=
  update counters trafficClass (counters trafficClass + count)

/-- The bytes of the packets of a queue. -/
def packetBytes (packets : List QueuedPacket) : ℕ := (packets.map (·.bytes.length)).sum

namespace Scheduler

def depth (scheduler : Scheduler) (trafficClass : TrafficClass) : ℕ := (scheduler.queues trafficClass).length

def totalDepth (scheduler : Scheduler) : ℕ :=
  scheduler.depth .realtime + scheduler.depth .normal + scheduler.depth .bulk

def empty (scheduler : Scheduler) : Bool := scheduler.totalDepth == 0

def hasRoom (scheduler : Scheduler) (trafficClass : TrafficClass) (bytes : ℕ) : Bool :=
  decide (scheduler.depth trafficClass < scheduler.limits.capacity trafficClass) &&
    decide (scheduler.queuedBytes + bytes ≤ scheduler.limits.totalBytes)

/-- The loop of shed_bulk over the bulk queue. -/
def shedLoop (bytesNeeded : ℕ) : List QueuedPacket → Scheduler → Scheduler
  | [], scheduler => scheduler
  | front :: rest, scheduler =>
    if scheduler.limits.totalBytes < scheduler.queuedBytes + bytesNeeded then
      shedLoop bytesNeeded rest
        { scheduler with
          queues := update scheduler.queues .bulk rest
          queuedBytes := scheduler.queuedBytes - front.bytes.length
          stats := { scheduler.stats with
            dropped := addTo scheduler.stats.dropped .bulk 1
            shedForMemory := scheduler.stats.shedForMemory + 1 } }
    else scheduler

def shedBulk (scheduler : Scheduler) (bytesNeeded : ℕ) : Scheduler :=
  shedLoop bytesNeeded (scheduler.queues .bulk) scheduler

/-- The end of enqueue, for a packet that has room. -/
def accept (scheduler : Scheduler) (packet : QueuedPacket) : Scheduler :=
  { scheduler with
    queues := update scheduler.queues packet.trafficClass (scheduler.queues packet.trafficClass ++ [packet])
    queuedBytes := scheduler.queuedBytes + packet.bytes.length
    stats := { scheduler.stats with enqueued := addTo scheduler.stats.enqueued packet.trafficClass 1 } }

def refuse (scheduler : Scheduler) (trafficClass : TrafficClass) : Scheduler :=
  { scheduler with
    stats := { scheduler.stats with dropped := addTo scheduler.stats.dropped trafficClass 1 } }

def enqueue (scheduler : Scheduler) (packet : Bytes) (trafficClass : TrafficClass) (now : Instant)
    (destination : Endpoint) : Bool × Scheduler :=
  let queued : QueuedPacket := ⟨packet, trafficClass, now, destination⟩
  if scheduler.hasRoom trafficClass packet.length then (true, scheduler.accept queued)
  else
    let scheduler :=
      if trafficClass ≠ .bulk ∧ scheduler.limits.totalBytes < scheduler.queuedBytes + packet.length then
        scheduler.shedBulk packet.length
      else scheduler
    if scheduler.hasRoom trafficClass packet.length then (true, scheduler.accept queued)
    else (false, scheduler.refuse trafficClass)

def restore (scheduler : Scheduler) (packet : QueuedPacket) : Scheduler :=
  { scheduler with
    queues := update scheduler.queues packet.trafficClass (packet :: scheduler.queues packet.trafficClass)
    queuedBytes := scheduler.queuedBytes + packet.bytes.length
    normalDeficit := if packet.trafficClass = .normal then scheduler.normalDeficit - 1 else scheduler.normalDeficit
    bulkDeficit := if packet.trafficClass = .bulk then scheduler.bulkDeficit - 1 else scheduler.bulkDeficit
    stats := { scheduler.stats with
      dequeued := update scheduler.stats.dequeued packet.trafficClass
        (scheduler.stats.dequeued packet.trafficClass - 1) } }

/-- What taking the front packet leaves. -/
def taken (scheduler : Scheduler) (trafficClass : TrafficClass) (packet : QueuedPacket)
    (rest : List QueuedPacket) (now : Instant) : Scheduler :=
  let delay := (now - packet.enqueuedAt).tdiv 1000
  { scheduler with
    queues := update scheduler.queues trafficClass rest
    queuedBytes := scheduler.queuedBytes - packet.bytes.length
    stats := { scheduler.stats with
      dequeued := addTo scheduler.stats.dequeued trafficClass 1
      queueDelayTotalUs :=
        if 0 ≤ delay then
          update scheduler.stats.queueDelayTotalUs trafficClass
            (scheduler.stats.queueDelayTotalUs trafficClass + delay)
        else scheduler.stats.queueDelayTotalUs
      queueDelaySamples :=
        if 0 ≤ delay then addTo scheduler.stats.queueDelaySamples trafficClass 1
        else scheduler.stats.queueDelaySamples } }

def take (scheduler : Scheduler) (trafficClass : TrafficClass) (now : Instant) :
    Option QueuedPacket × Scheduler :=
  match scheduler.queues trafficClass with
  | [] => (none, scheduler)
  | packet :: rest => (some packet, scheduler.taken trafficClass packet rest now)

def dequeue (scheduler : Scheduler) (now : Instant) : Option QueuedPacket × Scheduler :=
  match scheduler.take .realtime now with
  | (some packet, scheduler) => (some packet, scheduler)
  | (none, scheduler) =>
    if scheduler.queues .normal = [] ∧ scheduler.queues .bulk = [] then (none, scheduler)
    else if scheduler.queues .normal = [] then { scheduler with bulkDeficit := 0 }.take .bulk now
    else if scheduler.queues .bulk = [] then { scheduler with normalDeficit := 0 }.take .normal now
    else if scheduler.normalDeficit < kNormalWeight then
      { scheduler with normalDeficit := scheduler.normalDeficit + 1 }.take .normal now
    else if scheduler.bulkDeficit < kBulkWeight then
      { scheduler with bulkDeficit := scheduler.bulkDeficit + 1 }.take .bulk now
    else { scheduler with normalDeficit := 1, bulkDeficit := 0 }.take .normal now

end Scheduler

@[simp]
theorem packetBytes_nil : packetBytes [] = 0 := rfl

@[simp]
theorem packetBytes_cons (packet : QueuedPacket) (packets : List QueuedPacket) :
    packetBytes (packet :: packets) = packet.bytes.length + packetBytes packets := by
  simp [packetBytes]

@[simp]
theorem packetBytes_append (first second : List QueuedPacket) :
    packetBytes (first ++ second) = packetBytes first + packetBytes second := by
  simp [packetBytes]

@[simp]
theorem addTo_self (counters : TrafficClass → ℕ) (trafficClass : TrafficClass) (count : ℕ) :
    addTo counters trafficClass count trafficClass = counters trafficClass + count := by
  simp [addTo]

theorem addTo_other {trafficClass other : TrafficClass} (different : other ≠ trafficClass)
    (counters : TrafficClass → ℕ) (count : ℕ) : addTo counters trafficClass count other = counters other := by
  simp [addTo, different]

theorem addTo_addTo (counters : TrafficClass → ℕ) (trafficClass : TrafficClass) (first second : ℕ) :
    addTo (addTo counters trafficClass first) trafficClass second =
      addTo counters trafficClass (first + second) := by
  simp [addTo, add_assoc]

@[simp]
theorem addTo_zero (counters : TrafficClass → ℕ) (trafficClass : TrafficClass) :
    addTo counters trafficClass 0 = counters := by
  simp [addTo]

namespace Scheduler

/-- The scheduler after the front `shed` of its bulk queue is gone for memory. -/
def shedding (scheduler : Scheduler) (shed kept : List QueuedPacket) : Scheduler :=
  { scheduler with
    queues := update scheduler.queues .bulk kept
    queuedBytes := scheduler.queuedBytes - packetBytes shed
    stats := { scheduler.stats with
      dropped := addTo scheduler.stats.dropped .bulk shed.length
      shedForMemory := scheduler.stats.shedForMemory + shed.length } }

variable {scheduler : Scheduler}

theorem shedding_nil {kept : List QueuedPacket} (holds : scheduler.queues .bulk = kept) :
    scheduler.shedding [] kept = scheduler := by
  simp [shedding, ← holds]

/-- How much of the bulk queue the loop takes: all of it, or until the packet fits. -/
theorem shedLoop_spec (bytesNeeded : ℕ) (queue : List QueuedPacket) (holds : scheduler.queues .bulk = queue) :
    ∃ shed kept, queue = shed ++ kept ∧ shedLoop bytesNeeded queue scheduler = scheduler.shedding shed kept ∧
      (shed = [] ↔ queue = [] ∨ scheduler.queuedBytes + bytesNeeded ≤ scheduler.limits.totalBytes) := by
  induction queue generalizing scheduler with
  | nil =>
    refine ⟨[], [], rfl, ?_, by simp⟩
    rw [shedLoop, shedding_nil holds]
  | cons front rest ih =>
    rw [shedLoop]
    split
    next exceeds =>
      obtain ⟨shed, kept, split, result, -⟩ := @ih
        { scheduler with
          queues := update scheduler.queues .bulk rest
          queuedBytes := scheduler.queuedBytes - front.bytes.length
          stats := { scheduler.stats with
            dropped := addTo scheduler.stats.dropped .bulk 1
            shedForMemory := scheduler.stats.shedForMemory + 1 } } (by simp)
      refine ⟨front :: shed, kept, by rw [split, List.cons_append], ?_, by simp; omega⟩
      rw [result]
      simp [shedding, addTo_addTo, Nat.sub_sub, Nat.add_comm, Nat.add_left_comm]
    next fits =>
      exact ⟨[], front :: rest, rfl, (shedding_nil holds).symm, by simp; omega⟩

/-- What enqueue makes of the scheduler before it looks for room the last time. -/
def makeRoom (scheduler : Scheduler) (trafficClass : TrafficClass) (bytes : ℕ) : Scheduler :=
  if trafficClass ≠ .bulk ∧ scheduler.limits.totalBytes < scheduler.queuedBytes + bytes then
    scheduler.shedBulk bytes
  else scheduler

theorem enqueue_eq (scheduler : Scheduler) (packet : Bytes) (trafficClass : TrafficClass) (now : Instant)
    (destination : Endpoint) :
    scheduler.enqueue packet trafficClass now destination =
      let made := scheduler.makeRoom trafficClass packet.length
      if made.hasRoom trafficClass packet.length then
        (true, made.accept ⟨packet, trafficClass, now, destination⟩)
      else (false, made.refuse trafficClass) := by
  by_cases room : scheduler.hasRoom trafficClass packet.length = true
  · have fits : ¬ scheduler.limits.totalBytes < scheduler.queuedBytes + packet.length := by
      simp [hasRoom] at room
      omega
    simp [enqueue, makeRoom, room, fits]
  · rw [enqueue, if_neg room]
    rfl

theorem makeRoom_spec (scheduler : Scheduler) (trafficClass : TrafficClass) (bytes : ℕ) :
    ∃ shed kept, scheduler.queues .bulk = shed ++ kept ∧
      scheduler.makeRoom trafficClass bytes = scheduler.shedding shed kept ∧
      (shed = [] ↔ trafficClass = .bulk ∨ scheduler.queuedBytes + bytes ≤ scheduler.limits.totalBytes ∨
        scheduler.queues .bulk = []) := by
  rw [makeRoom]
  split
  next sheds =>
    obtain ⟨shed, kept, split, result, untouched⟩ :=
      shedLoop_spec bytes (scheduler.queues .bulk) (rfl : scheduler.queues .bulk = _)
    refine ⟨shed, kept, split, result, ?_⟩
    rw [untouched]
    tauto
  next keeps =>
    refine ⟨[], scheduler.queues .bulk, rfl, (shedding_nil rfl).symm, ?_⟩
    simp only [true_iff]
    by_cases bulk : trafficClass = .bulk
    · exact .inl bulk
    · exact .inr (.inl (Nat.not_lt.mp fun exceeds => keeps ⟨bulk, exceeds⟩))

/-- Everything but the statistics of dropped packets. -/
structure SameButDrops (before after : Scheduler) : Prop where
  limits : after.limits = before.limits
  queues : after.queues = before.queues
  queuedBytes : after.queuedBytes = before.queuedBytes
  normalDeficit : after.normalDeficit = before.normalDeficit
  bulkDeficit : after.bulkDeficit = before.bulkDeficit
  enqueued : after.stats.enqueued = before.stats.enqueued
  dequeued : after.stats.dequeued = before.stats.dequeued
  queueDelaySamples : after.stats.queueDelaySamples = before.stats.queueDelaySamples
  queueDelayTotalUs : after.stats.queueDelayTotalUs = before.stats.queueDelayTotalUs

/-- A refused packet leaves the queues alone exactly when enqueue had no reason or nothing to shed. -/
theorem enqueue_refused_iff {packet : Bytes} {trafficClass : TrafficClass} {now : Instant}
    {destination : Endpoint} {after : Scheduler}
    (refused : scheduler.enqueue packet trafficClass now destination = (false, after)) :
    SameButDrops scheduler after ↔
      trafficClass = .bulk ∨ scheduler.queuedBytes + packet.length ≤ scheduler.limits.totalBytes ∨
        scheduler.queues .bulk = [] := by
  obtain ⟨shed, kept, split, made, untouched⟩ := makeRoom_spec scheduler trafficClass packet.length
  simp only [enqueue_eq, made] at refused
  split at refused
  next => cases refused
  next full =>
    cases refused
    rw [← untouched]
    constructor
    · intro same
      have bulk : kept = shed ++ kept := by
        rw [← split, ← same.queues]
        simp [refuse, shedding]
      exact List.self_eq_append_left.mp bulk
    · rintro rfl
      rw [List.nil_append] at split
      rw [shedding_nil split]
      exact ⟨rfl, rfl, rfl, rfl, rfl, rfl, rfl, rfl, rfl⟩

/-- Three bytes in all, one packet a class. -/
def narrowLimits : QueueLimits := ⟨fun _ => 1, 3⟩

/-- A bulk and a normal packet that fill the narrow limits. -/
def crowded : Scheduler :=
  ((({ limits := narrowLimits } : Scheduler).enqueue [1, 2] .bulk 0 {}).2.enqueue [3] .normal 0 {}).2

theorem crowded_refuses_bulk : SameButDrops crowded (crowded.enqueue [4] .bulk 0 {}).2 :=
  (enqueue_refused_iff (rfl : crowded.enqueue [4] .bulk 0 {} = (false, _))).mpr (.inl rfl)

/-- The normal queue is full, yet the bulk packet is shed for the packet that is then refused. -/
theorem crowded_sheds_for_refused :
    (crowded.enqueue [4] .normal 0 {}).1 = false ∧ ¬ SameButDrops crowded (crowded.enqueue [4] .normal 0 {}).2 := by
  refine ⟨by decide, ?_⟩
  intro same
  have bulk := congrFun same.queues .bulk
  exact absurd bulk (by decide)

end Scheduler

end Norr
