import Norr.Lib.Runs
import Norr.Qos.Scheduler

/-! Whole runs of the Scheduler: what was accepted, what left and what is queued. -/

namespace Norr

open Function (update)

namespace Scheduler

variable {scheduler : Scheduler}

/-- Every dequeue: nothing from an empty scheduler, otherwise the front packet of one class. -/
theorem dequeue_cases (scheduler : Scheduler) (now : Instant) :
    (scheduler.dequeue now = (none, scheduler) ∧ ∀ trafficClass, scheduler.queues trafficClass = []) ∨
      ∃ trafficClass packet rest normalDeficit bulkDeficit, scheduler.queues trafficClass = packet :: rest ∧
        scheduler.dequeue now = (some packet,
          { scheduler with normalDeficit, bulkDeficit }.taken trafficClass packet rest now) := by
  cases realtime : scheduler.queues .realtime with
  | cons packet rest =>
    refine .inr ⟨.realtime, packet, rest, scheduler.normalDeficit, scheduler.bulkDeficit, realtime, ?_⟩
    simp [dequeue, take, realtime]
  | nil =>
    cases normal : scheduler.queues .normal with
    | nil =>
      cases bulk : scheduler.queues .bulk with
      | nil =>
        refine .inl ⟨by simp [dequeue, take, realtime, normal, bulk], ?_⟩
        rintro (_ | _ | _) <;> assumption
      | cons packet rest =>
        refine .inr ⟨.bulk, packet, rest, scheduler.normalDeficit, 0, bulk, ?_⟩
        simp [dequeue, take, realtime, normal, bulk]
    | cons packet rest =>
      cases bulk : scheduler.queues .bulk with
      | nil =>
        refine .inr ⟨.normal, packet, rest, 0, scheduler.bulkDeficit, normal, ?_⟩
        simp [dequeue, take, realtime, normal, bulk]
      | cons other behind =>
        simp only [dequeue, take, realtime, normal, bulk]
        simp only [reduceCtorEq, and_self, if_false]
        split
        · exact .inr ⟨.normal, packet, rest, _, _, normal, rfl⟩
        · split
          · exact .inr ⟨.bulk, other, behind, _, _, bulk, rfl⟩
          · exact .inr ⟨.normal, packet, rest, _, _, normal, rfl⟩

end Scheduler

/-- How a packet leaves the scheduler. -/
inductive Fate
  | served
  | shed
  deriving DecidableEq, Repr

/-- A scheduler with its history. `held` is the packet the last call dequeued, `accepted` what enqueue
took, `departures` what left and was not restored. -/
structure Desk where
  scheduler : Scheduler
  held : Option QueuedPacket := none
  accepted : List QueuedPacket := []
  departures : List (Fate × QueuedPacket) := []

namespace Desk

inductive Call
  | enqueue (packet : Bytes) (trafficClass : TrafficClass) (now : Instant) (destination : Endpoint)
  | dequeue (now : Instant)
  | restore

/-- The packets a call took from the front of the bulk queue without handing them out. -/
def shedBetween (before after : Scheduler) : List QueuedPacket :=
  (before.queues .bulk).take (before.depth .bulk - after.depth .bulk)

/-- Only the packet just dequeued can be restored; any other call of restore is not made. -/
def perform (desk : Desk) : Call → Desk
  | .enqueue packet trafficClass now destination =>
    let (taken, scheduler) := desk.scheduler.enqueue packet trafficClass now destination
    { scheduler
      held := none
      accepted := if taken then desk.accepted ++ [⟨packet, trafficClass, now, destination⟩] else desk.accepted
      departures := desk.departures ++ (shedBetween desk.scheduler scheduler).map (.shed, ·) }
  | .dequeue now =>
    match desk.scheduler.dequeue now with
    | (none, scheduler) => { desk with scheduler, held := none }
    | (some packet, scheduler) =>
      { desk with scheduler, held := some packet, departures := desk.departures ++ [(.served, packet)] }
  | .restore =>
    match desk.held with
    | none => desk
    | some packet =>
      { desk with
        scheduler := desk.scheduler.restore packet
        held := none
        departures := desk.departures.dropLast }

def run (limits : QueueLimits) (calls : List Call) : Desk := calls.foldl perform { scheduler := { limits } }

def allBytes (queues : TrafficClass → List QueuedPacket) : ℕ :=
  packetBytes (queues .realtime) + packetBytes (queues .normal) + packetBytes (queues .bulk)

def ofClass (trafficClass : TrafficClass) (packets : List QueuedPacket) : List QueuedPacket :=
  packets.filter (·.trafficClass = trafficClass)

def departed (departures : List (Fate × QueuedPacket)) (fate : Fate) (trafficClass : TrafficClass) : ℕ :=
  departures.countP fun departure => departure.1 = fate ∧ departure.2.trafficClass = trafficClass

/-- What the queues, the counters and the history have to do with each other. -/
structure Conserves (desk : Desk) : Prop where
  tagged : ∀ trafficClass, ∀ packet ∈ desk.scheduler.queues trafficClass, packet.trafficClass = trafficClass
  bytes : desk.scheduler.queuedBytes = allBytes desk.scheduler.queues
  bounded : desk.scheduler.queuedBytes ≤ desk.scheduler.limits.totalBytes
  room : ∀ trafficClass, desk.scheduler.depth trafficClass ≤ desk.scheduler.limits.capacity trafficClass
  order : ∀ trafficClass, ofClass trafficClass desk.accepted =
    ofClass trafficClass (desk.departures.map (·.2)) ++ desk.scheduler.queues trafficClass
  enqueued : ∀ trafficClass, desk.scheduler.stats.enqueued trafficClass = (ofClass trafficClass desk.accepted).length
  dequeued : ∀ trafficClass, desk.scheduler.stats.dequeued trafficClass =
    departed desk.departures .served trafficClass
  shed : desk.scheduler.stats.shedForMemory = departed desk.departures .shed .bulk
  shedBulk : ∀ trafficClass, trafficClass ≠ .bulk → departed desk.departures .shed trafficClass = 0
  held : ∀ packet ∈ desk.held, desk.departures.getLast? = some (.served, packet) ∧
    desk.scheduler.queuedBytes + packet.bytes.length ≤ desk.scheduler.limits.totalBytes ∧
    desk.scheduler.depth packet.trafficClass < desk.scheduler.limits.capacity packet.trafficClass

theorem ofClass_append (trafficClass : TrafficClass) (first second : List QueuedPacket) :
    ofClass trafficClass (first ++ second) = ofClass trafficClass first ++ ofClass trafficClass second := by
  simp [ofClass]

theorem ofClass_tagged {trafficClass : TrafficClass} {packets : List QueuedPacket}
    (tagged : ∀ packet ∈ packets, packet.trafficClass = trafficClass) (other : TrafficClass) :
    ofClass other packets = if other = trafficClass then packets else [] := by
  split
  next same =>
    rw [same, ofClass, List.filter_eq_self]
    simpa using tagged
  next different =>
    rw [ofClass, List.filter_eq_nil_iff]
    intro packet member
    simpa [tagged packet member] using Ne.symm different

theorem shedBetween_eq {before after : Scheduler} {shed : List QueuedPacket}
    (split : before.queues .bulk = shed ++ after.queues .bulk) : shedBetween before after = shed := by
  simp [shedBetween, Scheduler.depth, split]

theorem shedBetween_grown {before after : Scheduler}
    (grown : before.depth .bulk ≤ after.depth .bulk) : shedBetween before after = [] := by
  simp [shedBetween, Nat.sub_eq_zero_of_le grown]

theorem allBytes_update (queues : TrafficClass → List QueuedPacket) (trafficClass : TrafficClass)
    (queue : List QueuedPacket) :
    allBytes (update queues trafficClass queue) + packetBytes (queues trafficClass) =
      allBytes queues + packetBytes queue := by
  cases trafficClass <;> simp [allBytes] <;> omega

theorem tagged_update {queues : TrafficClass → List QueuedPacket}
    (tagged : ∀ trafficClass, ∀ packet ∈ queues trafficClass, packet.trafficClass = trafficClass)
    {changed : TrafficClass} {queue : List QueuedPacket}
    (fits : ∀ packet ∈ queue, packet.trafficClass = changed) (trafficClass : TrafficClass) :
    ∀ packet ∈ update queues changed queue trafficClass, packet.trafficClass = trafficClass := by
  by_cases same : trafficClass = changed
  · subst same
    simpa using fits
  · simpa [same] using tagged trafficClass

theorem departed_append (first second : List (Fate × QueuedPacket)) (fate : Fate) (trafficClass : TrafficClass) :
    departed (first ++ second) fate trafficClass =
      departed first fate trafficClass + departed second fate trafficClass := by
  simp [departed, List.countP_append]

theorem departed_singleton (own fate : Fate) (packet : QueuedPacket) (trafficClass : TrafficClass) :
    departed [(own, packet)] fate trafficClass =
      if own = fate ∧ packet.trafficClass = trafficClass then 1 else 0 := by
  simp [departed, List.countP_cons]

theorem length_departed (departures : List (Fate × QueuedPacket)) (trafficClass : TrafficClass) :
    (ofClass trafficClass (departures.map (·.2))).length =
      departed departures .served trafficClass + departed departures .shed trafficClass := by
  induction departures with
  | nil => rfl
  | cons departure departures ih =>
    rw [← List.singleton_append, departed_append, departed_append, List.map_append, ofClass_append,
      List.length_append, ih]
    rcases departure with ⟨_ | _, packet⟩ <;> by_cases same : packet.trafficClass = trafficClass <;>
      simp [departed_singleton, ofClass, same] <;> omega

theorem departed_shed {shed : List QueuedPacket} (bulk : ∀ packet ∈ shed, packet.trafficClass = .bulk)
    (fate : Fate) (trafficClass : TrafficClass) :
    departed (shed.map (.shed, ·)) fate trafficClass =
      if fate = .shed ∧ trafficClass = .bulk then shed.length else 0 := by
  rw [departed]
  split
  next both =>
    obtain ⟨rfl, rfl⟩ := both
    rw [List.countP_eq_length.mpr, List.length_map]
    simpa using bulk
  next neither =>
    rw [List.countP_eq_zero]
    simp only [List.mem_map, forall_exists_index, and_imp, decide_eq_true_eq]
    rintro _ packet member rfl ⟨same, tag⟩
    exact neither ⟨same.symm, tag.symm.trans (bulk packet member)⟩

namespace Conserves

variable {desk : Desk}

theorem start (limits : QueueLimits) : Conserves { scheduler := { limits } } where
  tagged := by simp
  bytes := by simp [allBytes]
  bounded := Nat.zero_le _
  room := fun _ => Nat.zero_le _
  order := by simp [ofClass]
  enqueued := by simp [ofClass]
  dequeued := by simp [departed]
  shed := by simp [departed]
  shedBulk := by simp [departed]
  held := by simp

theorem shedding (kept : Conserves desk) {shed rest : List QueuedPacket}
    (split : desk.scheduler.queues .bulk = shed ++ rest) :
    Conserves
      { scheduler := desk.scheduler.shedding shed rest
        accepted := desk.accepted
        departures := desk.departures ++ shed.map (.shed, ·) } := by
  have bulk : ∀ packet ∈ shed ++ rest, packet.trafficClass = .bulk := split ▸ kept.tagged .bulk
  have shedBulk : ∀ packet ∈ shed, packet.trafficClass = .bulk :=
    fun packet member => bulk packet (List.mem_append_left _ member)
  refine
    { tagged := ?_, bytes := ?_, bounded := (Nat.sub_le _ _).trans kept.bounded, room := ?_, order := ?_
      enqueued := kept.enqueued, dequeued := ?_, shed := ?_, shedBulk := ?_, held := by simp }
  · exact tagged_update kept.tagged fun packet member => bulk packet (List.mem_append_right _ member)
  · have total := allBytes_update desk.scheduler.queues .bulk rest
    rw [split, packetBytes_append, ← kept.bytes] at total
    simp only [Scheduler.shedding]
    omega
  · intro trafficClass
    have fits := kept.room trafficClass
    by_cases same : trafficClass = .bulk
    · subst same
      simp only [Scheduler.depth, split, List.length_append] at fits
      simp [Scheduler.shedding, Scheduler.depth]
      omega
    · simpa [Scheduler.shedding, Scheduler.depth, same] using fits
  · intro trafficClass
    have order := kept.order trafficClass
    simp only [List.map_append, List.map_map, Function.comp_def, List.map_id']
    rw [ofClass_append, ofClass_tagged shedBulk]
    by_cases same : trafficClass = .bulk
    · subst same
      simpa [Scheduler.shedding, split] using order
    · simpa [Scheduler.shedding, same] using order
  · intro trafficClass
    rw [departed_append, departed_shed shedBulk]
    simpa [Scheduler.shedding] using kept.dequeued trafficClass
  · rw [departed_append, departed_shed shedBulk]
    simpa [Scheduler.shedding] using kept.shed
  · intro trafficClass different
    rw [departed_append, departed_shed shedBulk]
    simpa [different] using kept.shedBulk trafficClass different

theorem accept (kept : Conserves desk) (packet : QueuedPacket)
    (room : desk.scheduler.hasRoom packet.trafficClass packet.bytes.length = true) :
    Conserves
      { scheduler := desk.scheduler.accept packet
        accepted := desk.accepted ++ [packet]
        departures := desk.departures } := by
  simp only [Scheduler.hasRoom, Bool.and_eq_true, decide_eq_true_eq] at room
  refine
    { tagged := ?_, bytes := ?_, bounded := room.2, room := ?_, order := ?_
      enqueued := ?_, dequeued := kept.dequeued, shed := kept.shed, shedBulk := kept.shedBulk, held := by simp }
  · refine tagged_update kept.tagged ?_
    simpa [or_imp, forall_and] using kept.tagged packet.trafficClass
  · have total := allBytes_update desk.scheduler.queues packet.trafficClass
      (desk.scheduler.queues packet.trafficClass ++ [packet])
    rw [packetBytes_append, ← kept.bytes] at total
    simp only [packetBytes_cons, packetBytes_nil] at total
    simp only [Scheduler.accept]
    omega
  · intro trafficClass
    by_cases same : trafficClass = packet.trafficClass
    · subst same
      simpa [Scheduler.accept, Scheduler.depth] using room.1
    · simpa [Scheduler.accept, Scheduler.depth, same] using kept.room trafficClass
  · intro trafficClass
    rw [ofClass_append, kept.order trafficClass]
    by_cases same : trafficClass = packet.trafficClass
    · subst same
      simp [Scheduler.accept, ofClass]
    · simp [Scheduler.accept, ofClass, same, Ne.symm same]
  · intro trafficClass
    have enqueued := kept.enqueued trafficClass
    by_cases same : trafficClass = packet.trafficClass
    · subst same
      simpa [Scheduler.accept, ofClass] using enqueued
    · simpa [Scheduler.accept, ofClass, addTo_other same, Ne.symm same] using enqueued

/-- A packet leaves the front of its class; the deficits have no part in it. -/
theorem taken (kept : Conserves desk) {trafficClass : TrafficClass} {packet : QueuedPacket}
    {rest : List QueuedPacket} (front : desk.scheduler.queues trafficClass = packet :: rest)
    (normalDeficit bulkDeficit : ℕ) (now : Instant) :
    Conserves
      { scheduler := { desk.scheduler with normalDeficit, bulkDeficit }.taken trafficClass packet rest now
        held := some packet
        accepted := desk.accepted
        departures := desk.departures ++ [(.served, packet)] } := by
  have tagged : ∀ each ∈ packet :: rest, each.trafficClass = trafficClass := front ▸ kept.tagged trafficClass
  have tag : packet.trafficClass = trafficClass := tagged packet List.mem_cons_self
  have total := allBytes_update desk.scheduler.queues trafficClass rest
  rw [front, packetBytes_cons, ← kept.bytes] at total
  have bounded := kept.bounded
  have fits := kept.room trafficClass
  simp only [Scheduler.depth, front, List.length_cons] at fits
  refine
    { tagged := ?_, bytes := ?_, bounded := (Nat.sub_le _ _).trans kept.bounded, room := ?_, order := ?_
      enqueued := kept.enqueued, dequeued := ?_, shed := ?_, shedBulk := ?_, held := ?_ }
  · exact tagged_update kept.tagged fun each member => tagged each (List.mem_cons_of_mem _ member)
  · simp only [Scheduler.taken]
    omega
  · intro other
    by_cases same : other = trafficClass
    · subst same
      simp only [Scheduler.taken, Scheduler.depth, Function.update_self]
      omega
    · simpa [Scheduler.taken, Scheduler.depth, same] using kept.room other
  · intro other
    rw [List.map_append, ofClass_append, kept.order other]
    by_cases same : other = trafficClass
    · subst same
      simp [Scheduler.taken, ofClass, tag, front]
    · simp [Scheduler.taken, ofClass, tag, same, Ne.symm same]
  · intro other
    rw [departed_append, departed_singleton, ← kept.dequeued other]
    by_cases same : other = trafficClass
    · subst same
      simp [Scheduler.taken, tag]
    · simp [Scheduler.taken, tag, addTo_other same, Ne.symm same]
  · rw [departed_append, departed_singleton, ← kept.shed]
    simp [Scheduler.taken]
  · intro other different
    rw [departed_append, departed_singleton, kept.shedBulk other different]
    simp
  · intro each member
    obtain rfl : packet = each := by simpa using member
    refine ⟨by simp, ?_, ?_⟩
    · simp only [Scheduler.taken]
      omega
    · simp only [Scheduler.taken, Scheduler.depth, tag, Function.update_self]
      omega

theorem restore (kept : Conserves desk) {packet : QueuedPacket} (held : desk.held = some packet) :
    Conserves
      { scheduler := desk.scheduler.restore packet
        accepted := desk.accepted
        departures := desk.departures.dropLast } := by
  obtain ⟨last, bounded, room⟩ := kept.held packet held
  obtain ⟨earlier, split⟩ := List.getLast?_eq_some_iff.mp last
  have counted : ∀ fate trafficClass, departed desk.departures fate trafficClass =
      departed earlier fate trafficClass +
        if Fate.served = fate ∧ packet.trafficClass = trafficClass then 1 else 0 := by
    intro fate trafficClass
    rw [split, departed_append, departed_singleton]
  rw [split, List.dropLast_concat]
  refine
    { tagged := ?_, bytes := ?_, bounded := bounded, room := ?_, order := ?_
      enqueued := kept.enqueued, dequeued := ?_, shed := ?_, shedBulk := ?_, held := by simp }
  · refine tagged_update kept.tagged ?_
    simpa using kept.tagged packet.trafficClass
  · have total := allBytes_update desk.scheduler.queues packet.trafficClass
      (packet :: desk.scheduler.queues packet.trafficClass)
    rw [packetBytes_cons, ← kept.bytes] at total
    simp only [Scheduler.restore]
    omega
  · intro trafficClass
    by_cases same : trafficClass = packet.trafficClass
    · subst same
      simpa [Scheduler.restore, Scheduler.depth] using room
    · simpa [Scheduler.restore, Scheduler.depth, same] using kept.room trafficClass
  · intro trafficClass
    rw [kept.order trafficClass, split, List.map_append, ofClass_append]
    by_cases same : trafficClass = packet.trafficClass
    · subst same
      simp [Scheduler.restore, ofClass]
    · simp [Scheduler.restore, ofClass, same, Ne.symm same]
  · intro trafficClass
    have dequeued := kept.dequeued trafficClass
    rw [counted] at dequeued
    by_cases same : trafficClass = packet.trafficClass
    · subst same
      simp [Scheduler.restore, dequeued]
    · simpa [Scheduler.restore, same, Ne.symm same] using dequeued
  · simpa [counted, Scheduler.restore] using kept.shed
  · intro trafficClass different
    simpa [counted] using kept.shedBulk trafficClass different

theorem refuse (kept : Conserves desk) (trafficClass : TrafficClass) :
    Conserves { desk with scheduler := desk.scheduler.refuse trafficClass } :=
  { kept with }

/-- The balance of a class: what enqueue took has been handed out, is queued or was shed. -/
theorem balance (kept : Conserves desk) (trafficClass : TrafficClass) :
    desk.scheduler.stats.enqueued trafficClass = desk.scheduler.stats.dequeued trafficClass +
      desk.scheduler.depth trafficClass +
      if trafficClass = .bulk then desk.scheduler.stats.shedForMemory else 0 := by
  have gone : (ofClass trafficClass (desk.departures.map (·.2))).length =
      departed desk.departures .served trafficClass + departed desk.departures .shed trafficClass :=
    length_departed desk.departures trafficClass
  have shed : departed desk.departures .shed trafficClass =
      if trafficClass = .bulk then desk.scheduler.stats.shedForMemory else 0 := by
    split
    next bulk => rw [bulk, kept.shed]
    next different => exact kept.shedBulk trafficClass different
  calc desk.scheduler.stats.enqueued trafficClass
      = (ofClass trafficClass (desk.departures.map (·.2))).length + desk.scheduler.depth trafficClass := by
        rw [kept.enqueued, kept.order, List.length_append, Scheduler.depth]
    _ = _ := by
        rw [gone, shed, kept.dequeued]
        omega

end Conserves

/-- The history names the packets that enqueue shed. -/
theorem shedBetween_accept {scheduler : Scheduler} {shed kept : List QueuedPacket}
    (split : scheduler.queues .bulk = shed ++ kept) (packet : QueuedPacket)
    (untouched : packet.trafficClass = .bulk → shed = []) :
    shedBetween scheduler ((scheduler.shedding shed kept).accept packet) = shed := by
  by_cases bulk : packet.trafficClass = .bulk
  · rw [untouched bulk]
    apply shedBetween_grown
    rw [untouched bulk, List.nil_append] at split
    simp [Scheduler.accept, Scheduler.shedding, Scheduler.depth, bulk, split]
  · apply shedBetween_eq
    simpa [Scheduler.accept, Scheduler.shedding, Ne.symm bulk] using split

theorem shedBetween_refuse {scheduler : Scheduler} {shed kept : List QueuedPacket}
    (split : scheduler.queues .bulk = shed ++ kept) (trafficClass : TrafficClass) :
    shedBetween scheduler ((scheduler.shedding shed kept).refuse trafficClass) = shed := by
  apply shedBetween_eq
  simpa [Scheduler.refuse, Scheduler.shedding] using split

theorem perform_conserves {desk : Desk} (kept : Conserves desk) (call : Call) : Conserves (desk.perform call) := by
  cases call with
  | enqueue packet trafficClass now destination =>
    obtain ⟨shed, rest, split, made, untouched⟩ :=
      Scheduler.makeRoom_spec desk.scheduler trafficClass packet.length
    have lighter := kept.shedding split
    simp only [perform, Scheduler.enqueue_eq, made]
    split
    next room =>
      have taken := lighter.accept ⟨packet, trafficClass, now, destination⟩ room
      simpa [shedBetween_accept split ⟨packet, trafficClass, now, destination⟩ fun bulk =>
        untouched.mpr (.inl bulk)] using taken
    next full =>
      simpa [shedBetween_refuse split trafficClass] using lighter.refuse trafficClass
  | dequeue now =>
    rcases desk.scheduler.dequeue_cases now with ⟨nothing, -⟩ | ⟨_, packet, rest, normal, bulk, front, taken⟩
    · simp only [perform, nothing]
      exact { kept with held := by simp }
    · simp only [perform, taken]
      exact kept.taken front normal bulk now
  | restore =>
    rw [perform]
    split
    next => exact kept
    next packet held => exact kept.restore held

theorem conserved (limits : QueueLimits) (calls : List Call) : Conserves (run limits calls) := by
  induction calls using List.reverseRecOn with
  | nil => exact Conserves.start limits
  | append_singleton earlier call ih =>
    rw [run, List.foldl_append]
    exact perform_conserves ih call

/-- Over every run: the books balance, the limits hold, each class leaves in the order it came, and a
packet that is restored is the next of its class. -/
theorem run_conserves (limits : QueueLimits) (calls : List Call) :
    Conserves (run limits calls) ∧
      (∀ trafficClass,
        (run limits calls).scheduler.stats.enqueued trafficClass =
          (run limits calls).scheduler.stats.dequeued trafficClass +
            (run limits calls).scheduler.depth trafficClass +
            if trafficClass = .bulk then (run limits calls).scheduler.stats.shedForMemory else 0) ∧
      ∀ packet ∈ (run limits calls).held,
        (((run limits calls).perform .restore).scheduler.queues packet.trafficClass).head? = some packet := by
  refine ⟨conserved limits calls, (conserved limits calls).balance, ?_⟩
  intro packet held
  simp [perform, Option.mem_def.mp held, Scheduler.restore]

end Desk

namespace Scheduler

/-- Enqueueing keeps a queue, but for packets shed at its front, and puts the packet at the end of its own. -/
theorem enqueue_sublist (scheduler : Scheduler) (packet : QueuedPacket) (trafficClass : TrafficClass) :
    ((scheduler.enqueue packet.bytes packet.trafficClass packet.enqueuedAt packet.destination).2.queues
      trafficClass).Sublist (scheduler.queues trafficClass ++ Desk.ofClass trafficClass [packet]) := by
  obtain ⟨shed, kept, split, made, -⟩ := scheduler.makeRoom_spec packet.trafficClass packet.bytes.length
  have lighter : ((scheduler.shedding shed kept).queues trafficClass).Sublist (scheduler.queues trafficClass) := by
    by_cases bulk : trafficClass = .bulk
    · subst bulk
      simp [shedding, split]
    · simp [shedding, bulk]
  simp only [enqueue_eq, made]
  split
  next =>
    by_cases own : trafficClass = packet.trafficClass
    · subst own
      simpa [accept, Desk.ofClass] using lighter.append (List.Sublist.refl [packet])
    · simpa [accept, Desk.ofClass, own, Ne.symm own] using lighter
  next => exact lighter.trans (List.sublist_append_left _ _)

end Scheduler

end Norr
