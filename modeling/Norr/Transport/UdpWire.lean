import Norr.Lib.Lists
import Norr.Transport.Udp

/-! Segmentation offload does not show on the wire: the groups of a batch are cut into the datagrams they
were made of. -/

namespace Norr.UdpTransport

/-- A datagram as it is sent by itself. -/
def alone (family : AddressFamily) (datagram : OutboundDatagram) : Option (Sockaddr × Bytes) :=
  (sockaddrFromEndpoint datagram.destination family).map (·, datagram.payload)

def Group.sends (datagrams : List OutboundDatagram) (group : Group) : List (Sockaddr × Bytes) :=
  (group.part datagrams).map fun datagram => (group.address, datagram.payload)

def Group.bytes (datagrams : List OutboundDatagram) (group : Group) : ℕ :=
  ((group.part datagrams).map (·.payload)).flatten.length

/-- What a group may hold. -/
structure Group.Sound (family : AddressFamily) (datagrams : List OutboundDatagram) (group : Group) : Prop where
  present : 1 ≤ group.members
  inside : group.first + group.members ≤ datagrams.length
  few : group.members ≤ kMaximumSegments
  own : ∀ datagram ∈ group.part datagrams, sockaddrFromEndpoint datagram.destination family = some group.address
  full : ∀ first ∈ datagrams[group.first]?, ∀ datagram ∈ (group.part datagrams).dropLast,
    datagram.payload.length = first.payload.length
  small : 1 < group.members → ∀ first ∈ datagrams[group.first]?, ∀ datagram ∈ group.part datagrams,
    0 < datagram.payload.length ∧ datagram.payload.length ≤ first.payload.length
  limit : 1 < group.members → group.bytes datagrams ≤ kSegmentLimit

/-- The groups after `done` datagrams of the batch. -/
structure Covers (family : AddressFamily) (datagrams : List OutboundDatagram) (done : ℕ) (batch : Batch) : Prop where
  sound : ∀ group ∈ batch.groups, group.Sound family datagrams
  all : batch.groups.flatMap (Group.sends datagrams) = (datagrams.take done).filterMap (alone family)
  before : ∀ k group, batch.groups[k]? = some group →
    group.first ≤ done ∧
    (batch.groups.take k).flatMap (Group.sends datagrams) = (datagrams.take group.first).filterMap (alone family)
  current : batch.closed = false → ∀ group ∈ batch.groups.getLast?, group.first + group.members = done ∧
    batch.groupBytes = group.bytes datagrams ∧
    ∀ datagram ∈ group.part datagrams, datagram.payload.length = batch.segment

variable {family : AddressFamily} {gso : Bool} {datagrams : List OutboundDatagram} {done : ℕ} {batch : Batch}
  {datagram : OutboundDatagram}

theorem part_grow {group : Group} (ends : group.first + group.members = done)
    (here : datagrams[done]? = some datagram) :
    ({ group with members := group.members + 1 } : Group).part datagrams = group.part datagrams ++ [datagram] := by
  rw [Group.part, Group.part, List.take_add_one, List.getElem?_drop, ends, here]
  rfl

theorem part_single (here : datagrams[done]? = some datagram) (address : Sockaddr) :
    (⟨done, 1, address⟩ : Group).part datagrams = [datagram] := by
  rw [Group.part, List.take_add_one, List.getElem?_drop, Nat.add_zero, here]
  rfl

theorem head_mem_part {group : Group} (present : 1 ≤ group.members) {first : OutboundDatagram}
    (here : datagrams[group.first]? = some first) : first ∈ group.part datagrams := by
  refine List.mem_of_getElem? (?_ : _[0]? = _)
  rw [Group.part, List.getElem?_take_of_lt (by omega), List.getElem?_drop, Nat.add_zero, here]

theorem filterMap_next (here : datagrams[done]? = some datagram) :
    (datagrams.take (done + 1)).filterMap (alone family) =
      (datagrams.take done).filterMap (alone family) ++ (alone family datagram).toList := by
  rw [List.take_add_one, here, List.filterMap_append]
  cases sent : alone family datagram with
  | none => simp [sent]
  | some packet => simp [sent]

theorem Covers.skip (covers : Covers family datagrams done batch) (here : datagrams[done]? = some datagram)
    (unknown : sockaddrFromEndpoint datagram.destination family = none) :
    Covers family datagrams (done + 1) { batch with closed := true } := by
  refine ⟨covers.sound, ?_, ?_, ?_⟩
  · rw [filterMap_next here, alone, unknown]
    simpa using covers.all
  · intro k group found
    obtain ⟨early, sent⟩ := covers.before k group found
    exact ⟨by omega, sent⟩
  · intro absurdity
    cases absurdity

theorem Covers.start (covers : Covers family datagrams done batch) (here : datagrams[done]? = some datagram)
    {address : Sockaddr} (known : sockaddrFromEndpoint datagram.destination family = some address) :
    Covers family datagrams (done + 1)
      { groups := batch.groups ++ [⟨done, 1, address⟩], segment := datagram.payload.length
        groupBytes := datagram.payload.length, closed := false } := by
  have part := part_single here address
  have inside := (List.getElem?_eq_some_iff.mp here).1
  refine ⟨?_, ?_, ?_, ?_⟩
  · intro group member
    rcases List.mem_append.mp member with old | new
    · exact covers.sound group old
    · obtain rfl := List.mem_singleton.mp new
      refine ⟨le_rfl, inside, (by decide : 1 ≤ kMaximumSegments), ?_, ?_, ?_, ?_⟩
      · rw [part]
        simpa using known
      · rw [part]
        simp
      · exact fun several => absurd several (lt_irrefl 1)
      · exact fun several => absurd several (lt_irrefl 1)
  · rw [filterMap_next here, alone, known, List.flatMap_append, covers.all]
    simp [Group.sends, part]
  · intro k group found
    rcases List.getElem?_concat_cases found with ⟨old, found⟩ | ⟨rfl, rfl⟩
    · obtain ⟨early, sent⟩ := covers.before k group found
      rw [List.take_append_of_le_length old.le]
      exact ⟨by omega, sent⟩
    · rw [List.take_left]
      exact ⟨Nat.le_succ _, covers.all⟩
  · intro _ group last
    rw [List.getLast?_concat] at last
    obtain rfl := Option.some_inj.mp last
    refine ⟨rfl, ?_, ?_⟩
    · rw [Group.bytes, part]
      simp
    · rw [part]
      simp

/-- What `extend` asks for. -/
theorem extended_spec {group : Group} (extended : batch.extended gso datagrams datagram = some group) :
    batch.groups.getLast? = some group ∧ batch.closed = false ∧
      (∃ first, datagrams[group.first]? = some first ∧ datagram.destination = first.destination) ∧
      datagram.payload.length ≤ batch.segment ∧ group.members < kMaximumSegments ∧
      batch.groupBytes + datagram.payload.length ≤ kSegmentLimit ∧ 0 < datagram.payload.length := by
  obtain ⟨last, conditions⟩ := Option.filter_eq_some_iff.mp extended
  simp only [Bool.and_eq_true, Bool.not_eq_true', decide_eq_true_eq, Option.any_eq_true, beq_iff_eq] at conditions
  obtain ⟨⟨⟨-, isOpen⟩, same⟩, sizes⟩ := conditions
  exact ⟨last, isOpen, same, sizes⟩

theorem Covers.extend (covers : Covers family datagrams done batch) (here : datagrams[done]? = some datagram)
    {group : Group} (extended : batch.extended gso datagrams datagram = some group) :
    Covers family datagrams (done + 1)
      { batch with
        groups := batch.groups.dropLast ++ [{ group with members := group.members + 1 }]
        groupBytes := batch.groupBytes + datagram.payload.length
        closed := if datagram.payload.length < batch.segment then true else batch.closed } := by
  obtain ⟨last, isOpen, ⟨first, starts, destination⟩, size, few, limit, filled⟩ := extended_spec extended
  obtain ⟨ends, bytes, equal⟩ := covers.current isOpen group last
  have grown := part_grow ends here
  have sound := covers.sound group (List.mem_of_getLast? last)
  have inside := (List.getElem?_eq_some_iff.mp here).1
  have opening : first.payload.length = batch.segment := equal first (head_mem_part sound.present starts)
  have groups : batch.groups = batch.groups.dropLast ++ [group] := (List.dropLast_append_getLast? group last).symm
  have address : sockaddrFromEndpoint datagram.destination family = some group.address := by
    rw [destination]
    exact sound.own first (head_mem_part sound.present starts)
  set larger : Group := { group with members := group.members + 1 } with larger_eq
  have total : larger.bytes datagrams = batch.groupBytes + datagram.payload.length := by
    rw [Group.bytes, grown, bytes, Group.bytes, List.map_append, List.flatten_append, List.length_append]
    simp
  refine ⟨?_, ?_, ?_, ?_⟩
  · intro other member
    rcases List.mem_append.mp member with old | new
    · exact covers.sound other (List.dropLast_subset _ old)
    · obtain rfl := List.mem_singleton.mp new
      refine ⟨Nat.le_add_left 1 _, ?_, few, ?_, ?_, ?_, ?_⟩
      · change group.first + (group.members + 1) ≤ _
        omega
      · rw [grown]
        intro one member
        rcases List.mem_append.mp member with old | new
        · exact sound.own one old
        · rwa [List.mem_singleton.mp new]
      · intro head found one member
        rw [grown, List.dropLast_concat] at member
        obtain rfl := Option.some_inj.mp (starts.symm.trans found)
        rw [equal one member, opening]
      · intro _ head found one member
        obtain rfl := Option.some_inj.mp (starts.symm.trans found)
        rw [grown] at member
        rcases List.mem_append.mp member with old | new
        · rw [equal one old, opening]
          omega
        · rw [List.mem_singleton.mp new, opening]
          exact ⟨filled, size⟩
      · intro _
        rw [total]
        exact limit
  · rw [filterMap_next here, ← covers.all, alone, address, List.flatMap_append]
    nth_rewrite 2 [groups]
    rw [List.flatMap_append]
    simp only [List.flatMap_singleton, Group.sends, grown, List.map_append, List.map_singleton, Option.map_some,
      Option.toList_some, List.append_assoc]
    rfl
  · intro k other found
    rcases List.getElem?_concat_cases found with ⟨old, found⟩ | ⟨rfl, rfl⟩
    · have known : batch.groups[k]? = some other := by
        rw [groups, List.getElem?_append_left old, found]
      obtain ⟨early, sent⟩ := covers.before k other known
      rw [groups, List.take_append_of_le_length old.le] at sent
      rw [List.take_append_of_le_length old.le]
      exact ⟨by omega, sent⟩
    · have known : batch.groups[batch.groups.dropLast.length]? = some group := by
        nth_rewrite 1 [groups]
        rw [List.getElem?_concat_length]
      obtain ⟨early, sent⟩ := covers.before _ group known
      rw [groups, List.dropLast_concat, List.take_left] at sent
      rw [List.take_left]
      exact ⟨by change group.first ≤ _; omega, sent⟩
  · intro still other found
    rw [List.getLast?_concat] at found
    obtain rfl := Option.some_inj.mp found
    have equals : datagram.payload.length = batch.segment := by
      by_contra apart
      change (if datagram.payload.length < batch.segment then true else batch.closed) = false at still
      rw [if_pos (by omega)] at still
      cases still
    refine ⟨?_, total.symm, ?_⟩
    · change group.first + (group.members + 1) = _
      omega
    · rw [grown]
      intro one member
      rcases List.mem_append.mp member with old | new
      · exact equal one old
      · rw [List.mem_singleton.mp new]
        exact equals

theorem Covers.take (covers : Covers family datagrams done batch) (here : datagrams[done]? = some datagram) :
    Covers family datagrams (done + 1) (batch.take family gso datagrams (datagram, done)) := by
  rw [Batch.take]
  split
  · next group extended => exact covers.extend here extended
  · split
    · next unknown => exact covers.skip here unknown
    · next address known => exact covers.start here known

/-- The grouping loop, over any number of datagrams from the front. -/
theorem covers_fold (family : AddressFamily) (gso : Bool) (datagrams : List OutboundDatagram) {done : ℕ}
    (inside : done ≤ datagrams.length) :
    Covers family datagrams done ((datagrams.take done).zipIdx.foldl (Batch.take family gso datagrams) {}) := by
  induction done with
  | zero =>
    refine ⟨?_, rfl, ?_, ?_⟩
    · exact fun group member => absurd member List.not_mem_nil
    · exact fun k group found => absurd found (by simp)
    · intro isOpen
      cases isOpen
  | succ done ih =>
    obtain ⟨datagram, here⟩ : ∃ datagram, datagrams[done]? = some datagram :=
      ⟨_, List.getElem?_eq_getElem inside⟩
    have length : (datagrams.take done).length = done := List.length_take_of_le (Nat.le_of_succ_le inside)
    rw [List.take_add_one, here, Option.toList_some, List.zipIdx_append, List.zipIdx_singleton, List.foldl_append,
      length, Nat.zero_add]
    exact (ih (Nat.le_of_succ_le inside)).take here

theorem gather_covers (family : AddressFamily) (gso : Bool) (datagrams : List OutboundDatagram) :
    Covers family datagrams (min datagrams.length kDefaultBatchSize) (gather family gso datagrams) :=
  covers_fold family gso datagrams (min_le_left _ _)

/-! What the kernel makes of a group -/

theorem cutEvery_flatten {size rounds : ℕ} {parts : List Bytes} (enough : parts.flatten.length ≤ rounds)
    (full : ∀ part ∈ parts.dropLast, part.length = size)
    (small : ∀ part ∈ parts, 0 < part.length ∧ part.length ≤ size) : cutEvery size rounds parts.flatten = parts := by
  induction parts generalizing rounds with
  | nil =>
    cases rounds with
    | zero => rfl
    | succ rounds => rfl
  | cons part parts ih =>
    obtain ⟨filled, short⟩ := small part List.mem_cons_self
    rw [List.flatten_cons, List.length_append] at enough
    cases rounds with
    | zero => omega
    | succ rounds =>
      have some : (part :: parts).flatten ≠ [] := by
        rw [List.flatten_cons]
        exact List.append_ne_nil_of_left_ne_nil (List.length_pos_iff.mp filled) _
      rw [cutEvery, if_neg some, List.flatten_cons]
      rcases eq_or_ne parts [] with rfl | more
      · rw [List.flatten_nil, List.append_nil, List.take_of_length_le short, List.drop_eq_nil_of_le short]
        cases rounds with
        | zero => rfl
        | succ rounds => rfl
      · rw [List.dropLast_cons_of_ne_nil more] at full
        have length := full part List.mem_cons_self
        rw [← length, List.take_left, List.drop_left, length]
        congr 1
        apply ih
        · omega
        · exact fun other member => full other (List.mem_cons_of_mem _ member)
        · exact fun other member => small other (List.mem_cons_of_mem _ member)

theorem Group.Sound.datagrams_eq {group : Group} (sound : group.Sound family datagrams) :
    (group.message datagrams).datagrams = group.sends datagrams := by
  have inside := sound.inside
  have present := sound.present
  obtain ⟨first, starts⟩ : ∃ first, datagrams[group.first]? = some first :=
    ⟨_, List.getElem?_eq_getElem (by omega)⟩
  rw [Message.datagrams, Group.message, Group.sends]
  rcases Nat.lt_or_ge 1 group.members with several | single
  · -- the size fits into the control message, since the whole group is within the limit
    have member := head_mem_part present starts
    have limit := sound.limit several
    have fits : (UInt16.ofNat first.payload.length).toNat = first.payload.length := by
      apply UInt16.toNat_ofNat_of_lt'
      have part : first.payload.length ≤ group.bytes datagrams :=
        (List.sublist_flatten_of_mem (List.mem_map_of_mem member)).length_le
      exact lt_of_le_of_lt (part.trans limit) (by decide)
    have pieces : cutEvery first.payload.length ((group.part datagrams).map (·.payload)).flatten.length
        ((group.part datagrams).map (·.payload)).flatten = (group.part datagrams).map (·.payload) := by
      apply cutEvery_flatten le_rfl
      · intro part member
        rw [← List.map_dropLast] at member
        obtain ⟨datagram, here, rfl⟩ := List.mem_map.mp member
        exact sound.full first starts datagram here
      · intro part member
        obtain ⟨datagram, here, rfl⟩ := List.mem_map.mp member
        exact sound.small several first starts datagram here
    simp only [if_pos several, starts, Option.map_some, fits, pieces, List.map_map]
    rfl
  · have one : group.part datagrams = [first] := by
      rw [Group.part, show group.members = 1 by omega, List.take_add_one, List.getElem?_drop, Nat.add_zero, starts]
      rfl
    simp only [if_neg (Nat.not_lt.mpr single), one, List.map_singleton, List.flatten_singleton]

/-! The sending loop -/

/-- What has been sent when the loop ends; only an offload is tried again. -/
def Ending.Sent (gso : Bool) (messages : List Message) (before after : List (Sockaddr × Bytes)) : Ending → Prop
  | .stopped sentGroups _ => sentGroups ≤ messages.length ∧
      after = before ++ (messages.take sentGroups).flatMap Message.datagrams
  | .again => after = before ∧ gso = true
  | .error _ => after = before

section Sending

variable {messages : List Message} {before : List (Sockaddr × Bytes)} {sentGroups : ℕ}

theorem stopped_sent (inside : sentGroups ≤ messages.length) (left : Bool) :
    (Ending.stopped sentGroups left).Sent gso messages before
      (before ++ (messages.take sentGroups).flatMap Message.datagrams) := ⟨inside, rfl⟩

theorem unsent (messages : List Message) (before : List (Sockaddr × Bytes)) :
    before ++ (messages.take 0).flatMap Message.datagrams = before := by simp

theorem onError_sent (inside : sentGroups ≤ messages.length) (gso : Bool) (error : TransportError) :
    (Ending.onError sentGroups gso error).Sent gso messages before
      (before ++ (messages.take sentGroups).flatMap Message.datagrams) := by
  rw [Ending.onError]
  split_ifs with some
  · exact stopped_sent inside gso
  · obtain rfl : sentGroups = 0 := by omega
    exact unsent messages before

theorem take_taken (messages : List Message) (sentGroups count : ℕ) :
    messages.take sentGroups ++ (messages.drop sentGroups).take count =
      messages.take (sentGroups + ((messages.drop sentGroups).take count).length) := by
  rw [List.take_add, List.length_take]
  congr 1
  rw [List.take_eq_take_iff]
  omega

theorem sendLoop_sent (before : List (Sockaddr × Bytes)) (gso : Bool) (results : List SendmmsgResult)
    (inside : sentGroups ≤ messages.length) :
    (sendLoop gso messages results sentGroups
      (before ++ (messages.take sentGroups).flatMap Message.datagrams)).1.Sent gso messages before
      (sendLoop gso messages results sentGroups
        (before ++ (messages.take sentGroups).flatMap Message.datagrams)).2.1 := by
  induction results generalizing sentGroups with
  | nil =>
    rw [sendLoop]
    split
    · exact stopped_sent inside gso
    · exact onError_sent inside gso .wouldBlock
  | cons result results ih =>
    rw [sendLoop.eq_def]
    by_cases all : messages.length ≤ sentGroups
    · simp only [if_pos all]
      exact stopped_sent inside gso
    · simp only [if_neg all]
      match result with
      | .interrupted => exact ih inside
      | .wouldBlock => exact onError_sent inside gso .wouldBlock
      | .failed => exact onError_sent inside gso .sendFailed
      | .inputOutput =>
        cases gso with
        | false => exact onError_sent inside false .sendFailed
        | true =>
          rcases Nat.eq_zero_or_pos sentGroups with rfl | some
          · exact ⟨unsent messages before, rfl⟩
          · simp only [if_true, if_neg some.ne']
            exact stopped_sent inside false
      | .sent 0 => exact stopped_sent inside gso
      | .sent (count + 1) =>
        have within : sentGroups + ((messages.drop sentGroups).take (count + 1)).length ≤ messages.length := by
          rw [List.length_take, List.length_drop]
          omega
        have next := ih within
        rw [← take_taken, List.flatMap_append, ← List.append_assoc] at next
        exact next

end Sending

/-- What a call has sent when it returns. -/
structure Sends (transport : UdpTransport) (datagrams : List OutboundDatagram)
    (outcome : Option (Except TransportError ℕ)) (after : UdpTransport) : Prop where
  family : after.family = transport.family
  sent : ∀ count, outcome = some (.ok count) → count ≤ datagrams.length ∧
    after.wire = transport.wire ++ (datagrams.take count).filterMap (alone transport.family)
  unsent : (∀ count, outcome ≠ some (.ok count)) → after.wire = transport.wire
  again : outcome = none → transport.udpGso = true ∧ after.udpGso = false

namespace Sends

variable {transport after : UdpTransport}

theorem of_ok {count : ℕ} (family : after.family = transport.family) (inside : count ≤ datagrams.length)
    (wire : after.wire = transport.wire ++ (datagrams.take count).filterMap (alone transport.family)) :
    Sends transport datagrams (some (.ok count)) after := by
  refine ⟨family, ?_, fun never => absurd rfl (never count), ?_⟩
  · rintro other ⟨rfl⟩
    exact ⟨inside, wire⟩
  · intro absurdity
    cases absurdity

theorem of_error (family : after.family = transport.family) (wire : after.wire = transport.wire)
    (error : TransportError) : Sends transport datagrams (some (.error error)) after := by
  refine ⟨family, ?_, fun _ => wire, ?_⟩
  · intro count absurdity
    cases absurdity
  · intro absurdity
    cases absurdity

end Sends

theorem Covers.messages (covers : Covers family datagrams done batch) (k : ℕ) :
    ((batch.groups.map (Group.message datagrams)).take k).flatMap Message.datagrams =
      (batch.groups.take k).flatMap (Group.sends datagrams) := by
  rw [← List.map_take, List.flatMap_map]
  apply List.flatMap_congr
  intro group member
  exact (covers.sound group (List.mem_of_mem_take member)).datagrams_eq

/-- The count that is made up of the groups. -/
theorem Covers.count (covers : Covers family datagrams done batch) (k : ℕ) :
    (batch.groups[k]?.map Group.first).getD done ≤ done ∧
      (batch.groups.take k).flatMap (Group.sends datagrams) =
        (datagrams.take ((batch.groups[k]?.map Group.first).getD done)).filterMap (alone family) := by
  cases found : batch.groups[k]? with
  | none =>
    have all := List.getElem?_eq_none_iff.mp found
    rw [List.take_of_length_le all]
    exact ⟨le_rfl, covers.all⟩
  | some group => exact covers.before k group found

theorem attempt_sends (transport : UdpTransport) (datagrams : List OutboundDatagram)
    (results : List SendmmsgResult) :
    Sends transport datagrams (transport.attempt datagrams results).1 (transport.attempt datagrams results).2.1 := by
  have covers := gather_covers transport.family transport.udpGso datagrams
  have sent := sendLoop_sent transport.wire transport.udpGso results
    (Nat.zero_le ((gather transport.family transport.udpGso datagrams).groups.map (Group.message datagrams)).length)
  rw [unsent] at sent
  unfold attempt
  dsimp only
  split_ifs with stopped empty none
  · exact Sends.of_error rfl rfl _
  · apply Sends.of_ok rfl (Nat.zero_le _)
    simp
  · apply Sends.of_ok rfl (min_le_left _ _)
    rw [← covers.all, none, List.flatMap_nil, List.append_nil]
  · match sendLoop transport.udpGso ((gather transport.family transport.udpGso datagrams).groups.map
        (Group.message datagrams)) results 0 transport.wire, sent with
    | (.stopped sentGroups udpGso, wire, rest), sent =>
      obtain ⟨bound, counted⟩ := covers.count sentGroups
      refine Sends.of_ok ?_ (bound.trans (min_le_left _ _)) ?_
      · rfl
      · have wires := sent.2
        rw [covers.messages, counted] at wires
        exact wires
    | (.error error, wire, rest), sent =>
      refine Sends.of_error ?_ ?_ error
      · rfl
      · exact sent
    | (.again, wire, rest), sent =>
      refine ⟨rfl, ?_, fun _ => sent.1, fun _ => ⟨sent.2, rfl⟩⟩
      intro count absurdity
      cases absurdity

/-- Segmentation offload is invisible: what goes out are the datagrams themselves, one after the other, up
to the count that is returned. -/
theorem offload_invisible (transport : UdpTransport) (datagrams : List OutboundDatagram)
    (results : List SendmmsgResult) :
    (∀ gso, ∀ group ∈ (gather transport.family gso datagrams).groups,
      group.Sound transport.family datagrams ∧ (group.message datagrams).datagrams = group.sends datagrams) ∧
    (∀ count, (transport.sendBatch datagrams results).1 = .ok count → count ≤ datagrams.length ∧
      (transport.sendBatch datagrams results).2.1.wire =
        transport.wire ++ (datagrams.take count).filterMap (alone transport.family)) ∧
    ∀ error, (transport.sendBatch datagrams results).1 = .error error →
      (transport.sendBatch datagrams results).2.1.wire = transport.wire := by
  refine ⟨?_, ?_⟩
  · intro gso group member
    have sound := (gather_covers transport.family gso datagrams).sound group member
    exact ⟨sound, sound.datagrams_eq⟩
  · have returns : Sends transport datagrams (some (transport.sendBatch datagrams results).1)
        (transport.sendBatch datagrams results).2.1 := by
      have first := attempt_sends transport datagrams results
      unfold sendBatch
      match transport.attempt datagrams results, first with
      | (some outcome, after, rest), first => exact first
      | (none, after, rest), first =>
        have second := attempt_sends after datagrams rest
        have same : after.wire = transport.wire := first.unsent fun count absurdity => by cases absurdity
        obtain ⟨-, plain⟩ := first.again rfl
        dsimp only
        match after.attempt datagrams rest, second with
        | (some outcome, last, more), second =>
          refine ⟨second.family.trans first.family, ?_, ?_, ?_⟩
          · intro count returned
            have sent := second.sent count returned
            rwa [same, first.family] at sent
          · exact fun never => (second.unsent never).trans same
          · intro absurdity
            cases absurdity
        | (none, last, more), second =>
          -- the offload is off after the first time
          have on := (second.again rfl).1
          rw [plain] at on
          cases on
    refine ⟨fun count returned => returns.sent count (congrArg some returned), ?_⟩
    intro error failed
    apply returns.unsent
    intro count absurdity
    rw [failed] at absurdity
    cases absurdity

/-- Five datagrams to two places, the third one not representable; the first two go out in one message. -/
def sampleBatch : List OutboundDatagram :=
  [⟨⟨{}, 1⟩, [1, 2]⟩, ⟨⟨{}, 1⟩, [3]⟩, ⟨⟨{ family := .ipv6 }, 1⟩, [4]⟩, ⟨⟨{}, 1⟩, []⟩, ⟨⟨{}, 2⟩, [5]⟩]

def sampleTransport : UdpTransport := { family := .ipv4, udpGso := true }

theorem offload_invisible_sample :
    (sampleTransport.sendBatch sampleBatch [.interrupted, .sent 2]).1 = .ok 4 ∧
      (sampleTransport.sendBatch sampleBatch [.interrupted, .sent 2]).2.1.wire =
        sampleTransport.wire ++ (sampleBatch.take 4).filterMap (alone sampleTransport.family) :=
  ⟨by decide +kernel, ((offload_invisible sampleTransport sampleBatch [.interrupted, .sent 2]).2.1 4
    (by decide +kernel)).2⟩

end Norr.UdpTransport
