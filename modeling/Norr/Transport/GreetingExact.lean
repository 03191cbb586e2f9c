import Norr.Transport.GreetingRun

/-! What each end of the connection takes from the socket in the course of the greeting. -/

namespace Norr

open TcpTransport

/-! What holds all the time -/

/-- What a party has said: its lines as far as it has come, and then frames. -/
structure Party.Speaks (profile : GreetProfile) (side : Side) (me : Party) : Prop where
  role : me.greeter.client = decide (side = .client)
  script : me.greeter.profile = profile
  plain : me.greeter.transport.sshActive = false
  step : me.greeter.step ≤ 2
  ready : me.greeter.ready = true → me.greeter.step = 2
  waiting : me.greeter.ready = false → me.greeter.step < (side.other.lines profile).length
  stream : me.greeter.transport.sent ++ me.greeter.transport.outbox =
    ((side.lines profile).take (side.opening + me.greeter.step)).flatten ++ plainFraming.stream me.accepted
  quiet : me.greeter.ready = false → me.accepted = []
  sendable : ∀ record ∈ me.accepted, record.Sendable

/-- What it has heard: lines, a part of the next one, and then frames. -/
structure Party.Hears (profile : GreetProfile) (side : Side) (me peer : Party) : Prop where
  waits : me.greeter.ready = false →
    me.greeter.polled = ((side.other.lines profile).take me.greeter.step).flatten ++ me.greeter.inbox ∧
    countLines me.greeter.inbox = 0 ∧
    (∀ line ∈ (side.other.lines profile)[me.greeter.step]?, me.greeter.inbox <+: line) ∧
    me.greeter.transport.read = []
  done : me.greeter.ready = true → me.greeter.polled = (side.other.lines profile).flatten
  arrived : me.greeter.polled ++ me.greeter.transport.read <+: peer.greeter.transport.sent
  delivers : me.greeter.transport.Delivers false peer.accepted me.delivered

theorem lines_length (profile : GreetProfile) (side : Side) : (side.lines profile).length = 2 + side.opening := by
  cases side <;> rfl

theorem opening_sum (side : Side) : side.opening + side.other.opening = 1 := by
  cases side <;> rfl

/-- The two ends, from one of them: neither has heard more lines than the other has said, and the server is
ready first. -/
structure Facing (profile : GreetProfile) (side : Side) (me peer : Party) : Prop where
  speaks : me.Speaks profile side
  hears : me.Hears profile side peer
  peerSpeaks : peer.Speaks profile side.other
  peerHears : peer.Hears profile side.other me
  order : me.greeter.step ≤ side.other.opening + peer.greeter.step
  back : peer.greeter.step ≤ side.opening + me.greeter.step
  last : side = .client → me.greeter.ready = true → peer.greeter.ready = true
  first : side = .server → peer.greeter.ready = true → me.greeter.ready = true

/-- A poll that finds no octet behind the last line of the server. -/
def Party.Clean (profile : GreetProfile) (side : Side) (me peer : Party) (arrivals : List Arrival) : Prop :=
  side = .client → me.greeter.ready = false → me.greeter.transport.state = .connected →
    me.greeter.polled.length + (offered arrivals (me.channel peer)).length ≤
      (side.other.lines profile).flatten.length

theorem say_reply (profile : GreetProfile) (side : Side) {step : ℕ} (limit : step ≤ 2) :
    ((side.lines profile).take (side.opening + step)).flatten ++ side.reply profile step =
      ((side.lines profile).take (side.opening + min (step + 1) 2)).flatten := by
  cases side <;> interval_cases step <;> simp [Side.reply, Side.lines, Side.opening]

theorem TcpTransport.Extends.delivers {before after : TcpTransport} {record : Bytes}
    (extended : before.Extends record after) {records : List Outgoing} {delivered : List Bytes}
    (delivers : before.Delivers false records delivered) : after.Delivers false records delivered := by
  obtain ⟨base, held, receives, same⟩ := delivers.split
  rw [extended.frame]
  exact ⟨base, held, { receives with }, same⟩

theorem TcpTransport.Extends.read_eq {before after : TcpTransport} {record : Bytes}
    (extended : before.Extends record after) :
    after.read = before.read ∧ after.sshActive = before.sshActive := by
  rw [extended.frame]
  exact ⟨rfl, rfl⟩

namespace Facing

variable {profile : GreetProfile} {side : Side} {me peer : Party} (facing : Facing profile side me peer)

include facing

theorem symm : Facing profile side.other peer me := by
  obtain ⟨speaks, hears, peerSpeaks, peerHears, order, back, last, first⟩ := facing
  cases side with
  | client => exact ⟨peerSpeaks, peerHears, speaks, hears, back, order, nofun, fun _ => last rfl⟩
  | server => exact ⟨peerSpeaks, peerHears, speaks, hears, back, order, fun _ => first rfl, nofun⟩

theorem polled_isPrefix : me.greeter.polled <+: (side.other.lines profile).flatten := by
  cases ready : me.greeter.ready with
  | true => rw [facing.hears.done ready]
  | false =>
    obtain ⟨polled, -, within, -⟩ := facing.hears.waits ready
    have steps := facing.speaks.waiting ready
    have next := within _ (List.getElem?_eq_getElem steps)
    rw [polled]
    refine List.IsPrefix.trans ((List.prefix_append_right_inj _).mpr next) ?_
    have taken : ((side.other.lines profile).take me.greeter.step).flatten ++
        (side.other.lines profile)[me.greeter.step] =
        ((side.other.lines profile).take (me.greeter.step + 1)).flatten := by
      rw [List.take_succ_eq_append_getElem steps, List.flatten_append, List.flatten_singleton]
    rw [taken]
    exact (List.take_prefix _ _).flatten

/-- What one side does reaches the other. -/
theorem moved {after : Party} (speaks : after.Speaks profile side) (hears : after.Hears profile side peer)
    (grows : me.greeter.transport.sent <+: after.greeter.transport.sent)
    (accepts : ∃ more, after.accepted = me.accepted ++ more)
    (order : after.greeter.step ≤ side.other.opening + peer.greeter.step)
    (forward : me.greeter.step ≤ after.greeter.step)
    (ready : me.greeter.ready = true → after.greeter.ready = true)
    (last : side = .client → after.greeter.ready = true → peer.greeter.ready = true) :
    Facing profile side after peer := by
  obtain ⟨-, -, peerSpeaks, peerHears, -, back, -, first⟩ := facing
  obtain ⟨more, same⟩ := accepts
  exact ⟨speaks, hears, peerSpeaks,
    { peerHears with
      arrived := peerHears.arrived.trans grows
      delivers := same ▸ peerHears.delivers.sent more },
    order, by omega, last, fun server done => ready (first server done)⟩

/-- Frames are behind the last line of the server only. -/
theorem accepted_client (waiting : me.greeter.ready = false) (some : peer.accepted ≠ []) :
    side = .client ∧ me.greeter.step = 2 ∧ peer.greeter.step = 2 := by
  have ready : peer.greeter.ready = true := by
    by_contra unready
    exact some (facing.peerSpeaks.quiet (Bool.not_eq_true _ ▸ unready))
  have step := facing.peerSpeaks.ready ready
  have back := facing.back
  have limit := facing.speaks.step
  cases side with
  | client =>
    refine ⟨rfl, ?_, step⟩
    simp only [Side.opening] at back
    omega
  | server =>
    have absurdity := facing.first rfl ready
    rw [waiting] at absurdity
    cases absurdity

/-- What a side can find in the socket: nothing, if the next line has not been said, or the rest of that
line and the frames behind it. -/
theorem channel_cases (waiting : me.greeter.ready = false) :
    me.channel peer = [] ∨
    side.other.opening + peer.greeter.step = me.greeter.step + 1 ∧
      ∃ line rest, (side.other.lines profile)[me.greeter.step]? = some line ∧ line = me.greeter.inbox ++ rest ∧
        me.channel peer <+: rest ++ plainFraming.stream peer.accepted := by
  obtain ⟨polled, -, within, -⟩ := facing.hears.waits waiting
  have steps := facing.speaks.waiting waiting
  have order := facing.order
  have back := facing.back
  have sum := opening_sum side
  have sent : me.channel peer <+: (peer.greeter.transport.sent ++ peer.greeter.transport.outbox).drop
      me.greeter.polled.length := (List.prefix_append _ _).drop _
  rw [facing.peerSpeaks.stream, polled, List.length_append] at sent
  rcases (by omega : side.other.opening + peer.greeter.step = me.greeter.step ∨
      side.other.opening + peer.greeter.step = me.greeter.step + 1) with unsaid | said
  · left
    have none : peer.accepted = [] := by
      by_contra some
      obtain ⟨rfl, two, peerTwo⟩ := facing.accepted_client waiting some
      simp only [Side.other, Side.opening] at unsaid
      omega
    rw [unsaid, none, Framing.stream, List.flatMap_nil, List.append_nil,
      List.drop_eq_nil_of_le (Nat.le_add_right _ _)] at sent
    exact List.prefix_nil.mp sent
  · right
    refine ⟨said, _, _, List.getElem?_eq_getElem steps,
      (List.prefix_iff_eq_append.mp (within _ (List.getElem?_eq_getElem steps))).symm, ?_⟩
    rw [said, List.take_succ_eq_append_getElem steps, List.flatten_append, List.flatten_singleton, List.append_assoc,
      ← List.drop_drop, List.drop_left, List.drop_append_of_le_length] at sent
    · exact sent
    · exact (within _ (List.getElem?_eq_getElem steps)).length_le

section Polling

variable {after : Greeter} {taken : Bytes} (waiting : me.greeter.ready = false)

include waiting

theorem arrived_poll (found : taken <+: me.channel peer) :
    me.greeter.polled ++ taken <+: peer.greeter.transport.sent := by
  have arrived := facing.hears.arrived
  rw [(facing.hears.waits waiting).2.2.2, List.append_nil] at arrived
  obtain ⟨behind, rest⟩ := arrived
  rw [Party.channel, ← rest, List.drop_left] at found
  rw [← rest]
  exact (List.prefix_append_right_inj _).mpr found

theorem poll_waits (found : taken <+: me.channel peer) (waits : me.greeter.Waits taken after)
    (none : countLines (me.greeter.inbox ++ taken) = 0)
    (within : ∀ line ∈ (side.other.lines profile)[me.greeter.step]?, me.greeter.inbox ++ taken <+: line) :
    Facing profile side { me with greeter := after } peer := by
  have arrived := facing.arrived_poll waiting found
  have speaks := facing.speaks
  have hears := facing.hears
  obtain ⟨polled, -, -, idle⟩ := hears.waits waiting
  obtain ⟨read, active⟩ := waits.flushes.read_eq
  have flushes := waits.flushes
  rw [waits.same]
  apply facing.moved
  · refine { speaks with plain := active.trans speaks.plain, stream := ?_ }
    exact (flushes.stream.trans (List.append_nil _)).trans speaks.stream
  · refine ⟨fun _ => ⟨?_, none, within, read.trans idle⟩, ?_, ?_, flushes.delivers hears.delivers⟩
    · change me.greeter.polled ++ taken = _
      rw [polled, List.append_assoc]
    · intro ready
      exact absurd (waiting.symm.trans ready) Bool.false_ne_true
    · change me.greeter.polled ++ taken ++ after.transport.read <+: _
      rw [read, idle, List.append_nil]
      exact arrived
  · exact flushes.grows
  · exact ⟨[], (List.append_nil _).symm⟩
  · exact facing.order
  · exact le_rfl
  · exact id
  · exact facing.last

theorem poll_answers (found : taken <+: me.channel peer) (answers : me.greeter.Answers side taken after)
    {line : Bytes} (next : (side.other.lines profile)[me.greeter.step]? = some line)
    (whole : me.greeter.inbox ++ taken = line)
    (said : side.other.opening + peer.greeter.step = me.greeter.step + 1) :
    Facing profile side { me with greeter := after } peer := by
  have arrived := facing.arrived_poll waiting found
  have speaks := facing.speaks
  have hears := facing.hears
  obtain ⟨polled, -, -, idle⟩ := hears.waits waiting
  obtain ⟨read, active⟩ := answers.flushes.read_eq
  have flushes := answers.flushes
  have same := answers.same
  rw [speaks.script] at same flushes
  have steps := speaks.waiting waiting
  have limit := speaks.step
  have quiet := speaks.quiet waiting
  have lengths := lines_length profile side.other
  have sum := opening_sum side
  have heard : me.greeter.polled ++ taken = ((side.other.lines profile).take (me.greeter.step + 1)).flatten := by
    rw [polled, List.append_assoc, whole, List.take_add_one, next, List.flatten_append]
    simp
  rw [same]
  apply facing.moved
  · refine ⟨speaks.role, rfl, active.trans speaks.plain, min_le_right _ _, ?_, ?_, ?_, fun _ => quiet,
      speaks.sendable⟩
    · intro ready
      have final := of_decide_eq_true ready
      change min _ 2 = 2
      omega
    · intro unready
      have more := of_decide_eq_false unready
      change min _ 2 < _
      omega
    · change after.transport.sent ++ after.transport.outbox = _ ++ plainFraming.stream me.accepted
      rw [flushes.stream, speaks.stream, quiet, Framing.stream, List.flatMap_nil, List.append_nil, List.append_nil]
      exact say_reply profile side limit
  · refine ⟨?_, ?_, ?_, flushes.delivers hears.delivers⟩
    · intro unready
      have more := of_decide_eq_false unready
      refine ⟨?_, rfl, fun _ _ => List.nil_prefix, read.trans idle⟩
      change _ = ((side.other.lines profile).take (min _ 2)).flatten ++ []
      rw [List.append_nil, min_eq_left (by omega)]
      exact heard
    · intro ready
      have final := of_decide_eq_true ready
      change me.greeter.polled ++ taken = _
      rw [heard, final, List.take_length]
    · change me.greeter.polled ++ taken ++ after.transport.read <+: _
      rw [read, idle, List.append_nil]
      exact arrived
  · exact flushes.grows
  · exact ⟨[], (List.append_nil _).symm⟩
  · change min _ 2 ≤ _
    omega
  · change _ ≤ min _ 2
    omega
  · exact fun ready => absurd (waiting.symm.trans ready) Bool.false_ne_true
  · rintro rfl ready
    have final := of_decide_eq_true ready
    by_contra unready
    have early := facing.peerSpeaks.waiting (Bool.not_eq_true _ ▸ unready)
    have two := lines_length profile .client
    simp only [Side.other, Side.opening] at said early final two lengths
    omega

/-- How far the lines go that a side has heard or is about to hear. -/
theorem polled_rest {line rest : Bytes} (next : (side.other.lines profile)[me.greeter.step]? = some line)
    (parts : line = me.greeter.inbox ++ rest) :
    me.greeter.polled.length + rest.length =
      ((side.other.lines profile).take (me.greeter.step + 1)).flatten.length := by
  rw [(facing.hears.waits waiting).1, List.take_add_one, next, List.flatten_append, parts]
  simp
  omega

/-- A poll that takes no more than the rest of the line. -/
theorem poll_within {line rest offer : Bytes} (heard : me.greeter.Heard side offer taken after)
    (found : taken <+: me.channel peer) (said : side.other.opening + peer.greeter.step = me.greeter.step + 1)
    (next : (side.other.lines profile)[me.greeter.step]? = some line)
    (parts : line = me.greeter.inbox ++ rest) (within : taken <+: rest) :
    Facing profile side { me with greeter := after } peer := by
  have inLine : me.greeter.inbox ++ taken <+: line := by
    rw [parts]
    exact (List.prefix_append_right_inj _).mpr within
  rcases heard.result with ⟨none, waits⟩ | ⟨one, answers⟩
  · apply facing.poll_waits waiting found waits none
    intro other here
    rw [next] at here
    rwa [← Option.some_inj.mp here]
  · apply facing.poll_answers waiting found answers next _ said
    by_contra short
    have none :=
      (lines_areLines profile side.other line (List.mem_of_getElem? next)).countLines_isPrefix inLine short
    omega

/-- Without frames in the socket a poll is clean. -/
theorem clean_of_quiet (quiet : me.channel peer = [] ∨ peer.accepted = []) (arrivals : List Arrival) :
    me.Clean profile side peer arrivals := by
  intro _ _ _
  have within := (offered_isPrefix arrivals (me.channel peer)).length_le
  have room := facing.polled_isPrefix.length_le
  rcases facing.channel_cases waiting with empty | ⟨-, line, rest, next, parts, channel⟩
  · rw [empty, List.length_nil] at within
    rw [empty]
    omega
  · rcases quiet with empty | quiet
    · rw [empty, List.length_nil] at within
      rw [empty]
      omega
    · have size := facing.polled_rest waiting next parts
      have prefixes : ((side.other.lines profile).take (me.greeter.step + 1)).flatten.length ≤
          (side.other.lines profile).flatten.length := (List.take_prefix _ _).flatten.length_le
      have shorter := channel.length_le
      rw [quiet, Framing.stream, List.flatMap_nil, List.append_nil] at shorter
      omega

/-- A side that has not yet got rid of its lines has no frames to fear. -/
theorem quiet_of_unsent (unsent : me.greeter.transport.outbox ≠ []) : peer.accepted = [] := by
  by_contra some
  obtain ⟨rfl, two, peerTwo⟩ := facing.accepted_client waiting some
  have ready : peer.greeter.ready = true := by
    by_contra unready
    have early := facing.peerSpeaks.waiting (Bool.not_eq_true _ ▸ unready)
    simp only [Side.other, lines_length, Side.opening] at early
    omega
  have heard : peer.greeter.polled = (Side.client.lines profile).flatten := facing.peerHears.done ready
  have arrived := facing.peerHears.arrived
  have stream := facing.speaks.stream
  rw [facing.speaks.quiet waiting, two, Framing.stream, List.flatMap_nil, List.append_nil] at stream
  have all : ((Side.client.lines profile).take (Side.client.opening + 2)).flatten =
      (Side.client.lines profile).flatten := rfl
  rw [all, ← heard] at stream
  have sizes := congrArg List.length stream
  have least := arrived.length_le
  have some := List.length_pos_iff.mpr unsent
  rw [List.length_append] at sizes least
  omega

/-- The last poll of the client, with frames behind the last line. -/
theorem poll_frames (connected : me.greeter.transport.state = .connected) (frames : peer.accepted ≠ [])
    {arrivals : List Arrival} {line remains : Bytes}
    (next : (side.other.lines profile)[me.greeter.step]? = some line) (parts : line = me.greeter.inbox ++ remains)
    (said : side.other.opening + peer.greeter.step = me.greeter.step + 1)
    (heard : me.greeter.Heard side (offered arrivals (me.channel peer)) taken after)
    (inStream : taken <+: remains ++ plainFraming.stream peer.accepted) :
    (me.Clean profile side peer arrivals → Facing profile side { me with greeter := after } peer) ∧
      (after.polled <+: (side.other.lines profile).flatten → me.Clean profile side peer arrivals) := by
  obtain ⟨rfl, two, -⟩ := facing.accepted_client waiting frames
  have size : me.greeter.polled.length + remains.length = (Side.server.lines profile).flatten.length := by
    have sizes := facing.polled_rest waiting next parts
    rwa [two] at sizes
  have short (fits : taken.length ≤ remains.length) : taken <+: remains :=
    List.prefix_of_prefix_length_le inStream (List.prefix_append _ _) fits
  refine ⟨?_, ?_⟩
  · intro clean
    have arrived : _ ≤ (Side.server.lines profile).flatten.length := clean rfl waiting connected
    have bound := heard.within.length_le
    exact facing.poll_within waiting heard (heard.within.trans (offered_isPrefix _ _)) said next parts
      (short (by omega))
  · intro within _ _ _
    have polled : after.polled = me.greeter.polled ++ taken := by
      rcases heard.result with ⟨-, waits⟩ | ⟨-, answers⟩
      · rw [waits.same]
      · rw [answers.same]
    have bound : _ ≤ (Side.server.lines profile).flatten.length := within.length_le
    rw [polled, List.length_append] at bound
    have inLine : me.greeter.inbox ++ taken <+: line := by
      rw [parts]
      exact (List.prefix_append_right_inj _).mpr (short (by omega))
    rcases heard.rest with all | many
    · rw [← all]
      exact bound
    · -- two more lines cannot be inside of the one
      have one := (lines_areLines profile .server line (List.mem_of_getElem? next)).countLines_eq
      have few : countLines (me.greeter.inbox ++ taken) ≤ countLines line := inLine.sublist.count_le newline
      omega

end Polling

theorem poll {before results : List SendResult} {arrivals : List Arrival} (unbroken : Unbroken before)
    (unbroken' : Unbroken results) (unclosed : .closed ∉ arrivals) (unfailed : .failed ∉ arrivals) {after : Greeter}
    (polled : (me.greeter.pollPop3 (me.channel peer) before arrivals results).2 = after) :
    (me.Clean profile side peer arrivals → Facing profile side { me with greeter := after } peer) ∧
      (after.polled <+: (side.other.lines profile).flatten → me.Clean profile side peer arrivals) := by
  subst polled
  by_cases still : me.greeter.ready = false ∧ me.greeter.transport.state = .connected
  · obtain ⟨waiting, connected⟩ := still
    have steps := facing.speaks.waiting waiting
    rw [← facing.speaks.script] at steps
    obtain ⟨-, none, within, -⟩ := facing.hears.waits waiting
    rw [← List.append_nil me.greeter.inbox] at none within
    rcases Greeter.pollPop3_cases _ (me.channel peer) facing.speaks.role waiting steps connected unbroken unclosed
        unfailed unbroken' with ⟨unsent, waits⟩ | ⟨taken, heard⟩
    · refine ⟨fun _ => facing.poll_waits waiting List.nil_prefix waits none within, fun _ => ?_⟩
      exact facing.clean_of_quiet waiting (.inr (facing.quiet_of_unsent waiting unsent)) arrivals
    · have found := heard.within.trans (offered_isPrefix arrivals _)
      rcases facing.channel_cases waiting with empty | ⟨said, line, remains, next, parts, channel⟩
      · refine ⟨fun _ => ?_, fun _ => facing.clean_of_quiet waiting (.inl empty) arrivals⟩
        obtain rfl : taken = [] := List.prefix_nil.mp (empty ▸ found)
        rcases heard.result with ⟨-, waits⟩ | ⟨some, -⟩
        · exact facing.poll_waits waiting List.nil_prefix waits none within
        · omega
      · by_cases quiet : peer.accepted = []
        · rw [quiet, Framing.stream, List.flatMap_nil, List.append_nil] at channel
          exact ⟨fun _ => facing.poll_within waiting heard found said next parts (found.trans channel),
            fun _ => facing.clean_of_quiet waiting (.inr quiet) arrivals⟩
        · exact facing.poll_frames waiting connected quiet next parts said heard (found.trans channel)
  · rw [Greeter.pollPop3_idle _ _ _ _ _ still]
    exact ⟨fun _ => facing, fun _ _ waiting connected => absurd ⟨waiting, connected⟩ still⟩

/-! Frames -/

section Ready

variable {transport : TcpTransport} (ready : me.greeter.ready = true)

include ready

/-- A ready side writes to its socket. -/
theorem writes (more : List Outgoing) (sendable : ∀ record ∈ more, record.Sendable)
    (flushes : me.greeter.transport.Extends (plainFraming.stream more) transport) :
    Facing profile side
      { me with greeter := { me.greeter with transport }, accepted := me.accepted ++ more } peer := by
  have speaks := facing.speaks
  have hears := facing.hears
  obtain ⟨read, active⟩ := flushes.read_eq
  have unready : me.greeter.ready ≠ false := by
    rw [ready]
    decide
  apply facing.moved
  · refine { speaks with
      plain := active.trans speaks.plain
      stream := ?_
      quiet := fun waiting => absurd waiting unready
      sendable := List.forall_mem_append.mpr ⟨speaks.sendable, sendable⟩ }
    change transport.sent ++ transport.outbox = _ ++ plainFraming.stream (me.accepted ++ more)
    rw [flushes.stream, speaks.stream, Framing.stream_append, List.append_assoc]
  · refine ⟨fun waiting => absurd waiting unready, hears.done, ?_, flushes.delivers hears.delivers⟩
    change me.greeter.polled ++ transport.read <+: _
    rw [read]
    exact hears.arrived
  · exact flushes.grows
  · exact ⟨more, rfl⟩
  · exact facing.order
  · exact le_rfl
  · exact id
  · exact facing.last

/-- The greeting has left the frames in the socket. -/
theorem channel_frames : me.channel peer <+: (framingOf false).stream peer.accepted := by
  have channel : me.channel peer <+: (peer.greeter.transport.sent ++ peer.greeter.transport.outbox).drop
      me.greeter.polled.length := (List.prefix_append _ _).drop _
  have step := facing.speaks.ready ready
  have order := facing.order
  have sizes := lines_length profile side.other
  have whole : (side.other.lines profile).length ≤ side.other.opening + peer.greeter.step := by
    cases side with
    | client =>
      have two := facing.peerSpeaks.ready (facing.last rfl ready)
      simp only [Side.other, Side.opening] at sizes ⊢
      omega
    | server =>
      simp only [Side.other, Side.opening] at sizes order ⊢
      omega
  rwa [facing.peerSpeaks.stream, List.take_of_length_le whole, facing.hears.done ready, List.drop_left] at channel

/-- A ready side reads frames. -/
theorem reads {delivered : List Bytes} (same : me.greeter.transport.Inputs transport)
    (arrived : transport.read <+: me.channel peer)
    (delivers : transport.Delivers false peer.accepted delivered) :
    Facing profile side { me with greeter := { me.greeter with transport }, delivered } peer := by
  have speaks := facing.speaks
  have hears := facing.hears
  have unready : me.greeter.ready ≠ false := by
    rw [ready]
    decide
  apply facing.moved
  · refine { speaks with plain := same.active.trans speaks.plain, stream := ?_ }
    change transport.sent ++ transport.outbox = _
    rw [same.sent, same.outbox]
    exact speaks.stream
  · refine ⟨fun waiting => absurd waiting unready, hears.done, ?_, delivers⟩
    obtain ⟨rest, whole⟩ := (List.prefix_append _ _).trans hears.arrived
    rw [Party.channel, ← whole, List.drop_left] at arrived
    rw [← whole]
    exact (List.prefix_append_right_inj _).mpr arrived
  · change _ <+: transport.sent
    rw [same.sent]
  · exact ⟨[], (List.append_nil _).symm⟩
  · exact facing.order
  · exact le_rfl
  · exact id
  · exact facing.last

end Ready

theorem sendFrame {outgoing : Outgoing} {results : List SendResult} (sendable : outgoing.Sendable)
    (unbroken : Unbroken results) :
    Facing profile side (Exchange.act me peer (.sendFrame side outgoing results)) peer := by
  rw [Exchange.act]
  split_ifs with ready
  · rcases sent : me.greeter.transport.sendFrame outgoing results with ⟨error | size, transport⟩
    · simpa using facing.writes ready [] (by simp) ((sendFrame_spec sent).2 unbroken)
    · have extended := (sendFrame_spec sent).2 unbroken
      rw [facing.speaks.plain] at extended
      apply facing.writes ready [outgoing] (by simpa using sendable)
      rw [Framing.stream, List.flatMap_singleton]
      exact extended
  · exact facing

theorem flushOutput {results : List SendResult} (unbroken : Unbroken results) :
    Facing profile side (Exchange.act me peer (.flushOutput side results)) peer := by
  rw [Exchange.act]
  split_ifs with ready
  · rcases flushed : me.greeter.transport.flushOutput results with ⟨outcome, transport, left⟩
    simpa using facing.writes ready [] (by simp) ((flushOutput_spec flushed).2 unbroken).1
  · exact facing

theorem receiveFrames {out : ℕ} {results : List ReadResult}
    (arrived : (me.greeter.transport.receiveFrames out results).2.read <+: me.channel peer) :
    Facing profile side (Exchange.act me peer (.receiveFrames side out results)) peer := by
  rw [Exchange.act]
  split_ifs with ready
  · have same := receiveFrames_inputs me.greeter.transport out results
    rcases ran : me.greeter.transport.receiveFrames out results with ⟨outcome, after⟩
    rw [ran] at same arrived
    obtain ⟨delivers, -⟩ := receiveFrames_spec facing.peerSpeaks.sendable ran
      (arrived.trans (facing.channel_frames ready)) facing.hears.delivers
    cases outcome with
    | error error =>
      rw [Except.toOption, Option.getD_none, List.append_nil] at delivers
      exact facing.reads ready same arrived delivers
    | ok frames => exact facing.reads ready same arrived delivers
  · exact facing

end Facing

namespace Exchange

def Sound (profile : GreetProfile) (exchange : Exchange) : Prop :=
  Facing profile .client exchange.client exchange.server

variable {profile : GreetProfile} {exchange : Exchange}

theorem Sound.facing (sound : exchange.Sound profile) (side : Side) :
    Facing profile side (exchange.party side) (exchange.party side.other) := by
  cases side with
  | client => exact sound
  | server => exact Facing.symm sound

theorem sound_update {side : Side} {party : Party} (facing : Facing profile side party (exchange.party side.other)) :
    (exchange.update party side).Sound profile := by
  cases side with
  | client => exact facing
  | server => exact facing.symm

theorem Sound.exact (sound : exchange.Sound profile) : exchange.Exact profile :=
  ⟨fun side => (sound.facing side).polled_isPrefix, fun side => (sound.facing side).hears.done,
    fun side => (sound.facing side).hears.delivers.isPrefix⟩

/-- One step. Only a poll of the client can take too much. -/
theorem Sound.perform (sound : exchange.Sound profile) {action : Action} (legal : exchange.Legal action) :
    (exchange.Clean profile action → (exchange.perform action).Sound profile) ∧
      ((exchange.perform action).Exact profile → exchange.Clean profile action) := by
  have facing := sound.facing action.side
  cases action with
  | poll side before arrivals results =>
    obtain ⟨unbroken, unbroken', unclosed, unfailed⟩ := legal
    obtain ⟨keeps, shows⟩ := facing.poll unbroken unbroken' unclosed unfailed rfl
    cases side with
    | client => exact ⟨fun clean => keeps fun _ => clean, fun exact => shows (exact.polled .client) rfl⟩
    | server => exact ⟨fun _ => (keeps nofun).symm, fun _ => trivial⟩
  | sendFrame side outgoing results =>
    exact ⟨fun _ => sound_update (facing.sendFrame legal.1 legal.2), fun _ => trivial⟩
  | flushOutput side results => exact ⟨fun _ => sound_update (facing.flushOutput legal), fun _ => trivial⟩
  | receiveFrames side out results => exact ⟨fun _ => sound_update (facing.receiveFrames legal), fun _ => trivial⟩

theorem sound_start (profile : GreetProfile) : (start profile).Sound profile := by
  have delivers : (TcpLink.established false).Delivers false [] [] := (TcpLink.faithful_start false).delivers
  have hears (side : Side) (me peer : Party) (fresh : me.greeter.ready = false ∧ me.greeter.step = 0 ∧
      me.greeter.inbox = [] ∧ me.greeter.polled = [] ∧ me.greeter.transport.read = [])
      (delivers : me.greeter.transport.Delivers false peer.accepted me.delivered) : me.Hears profile side peer := by
    obtain ⟨waiting, step, inbox, polled, read⟩ := fresh
    refine ⟨fun _ => ?_, fun ready => absurd (waiting.symm.trans ready) Bool.false_ne_true, ?_, delivers⟩
    · rw [polled, step, inbox]
      exact ⟨rfl, rfl, fun _ _ => List.nil_prefix, read⟩
    · rw [polled, read]
      exact List.nil_prefix
  refine ⟨?_, hears _ _ _ ⟨rfl, rfl, rfl, rfl, rfl⟩ delivers, ?_, hears _ _ _ ⟨rfl, rfl, rfl, rfl, rfl⟩ ?_,
    Nat.zero_le _, Nat.zero_le _, nofun, nofun⟩
  · exact ⟨rfl, rfl, rfl, Nat.zero_le 2, nofun, fun _ => Nat.zero_lt_succ _, rfl, fun _ => rfl, nofun⟩
  · refine ⟨rfl, rfl, rfl, Nat.zero_le 2, nofun, fun _ => Nat.zero_lt_succ _, ?_, fun _ => rfl, nofun⟩
    simp [start, Greeter.enablePop3, TcpLink.established, Side.lines, Side.opening, Side.other, Framing.stream]
  · obtain ⟨base, held, receives, same⟩ := delivers.split
    exact ⟨base, held, { receives with }, same⟩

theorem Sound.run_iff (sound : exchange.Sound profile) (actions : List Action)
    (legal : Runs.Throughout Exchange.perform Legal exchange actions) :
    (∀ before, before <+: actions → (before.foldl Exchange.perform exchange).Exact profile) ↔
      Runs.Throughout Exchange.perform (Clean profile) exchange actions := by
  induction actions generalizing exchange with
  | nil =>
    refine ⟨fun _ => trivial, ?_⟩
    intro _ before within
    rw [List.prefix_nil.mp within]
    exact sound.exact
  | cons action actions ih =>
    obtain ⟨now, later⟩ := legal
    obtain ⟨keeps, shows⟩ := sound.perform now
    constructor
    · intro always
      have clean := shows (always [action] (List.prefix_append [action] actions))
      refine ⟨clean, (ih (keeps clean) later).mp ?_⟩
      intro before within
      exact always (action :: before) ((List.prefix_cons_inj action).mpr within)
    · rintro ⟨clean, rest⟩ before within
      match before with
      | [] => exact sound.exact
      | first :: before =>
        obtain ⟨rfl, shorter⟩ := List.cons_prefix_cons.mp within
        exact (ih (keeps clean) later).mpr rest before shorter

/-- The greeting takes nothing else from the socket as long as no poll of the client comes when there are
already frames behind the last line of the server. -/
theorem greeting_exact_iff (profile : GreetProfile) (actions : List Action)
    (legal : Runs.Throughout Exchange.perform Legal (start profile) actions) :
    (∀ before, before <+: actions → (run profile before).Exact profile) ↔
      Runs.Throughout Exchange.perform (Clean profile) (start profile) actions :=
  (sound_start profile).run_iff actions legal

/-- Both sides are polled until the server is ready, and the last line of the server is under way. -/
def greeted : List Action :=
  let poll (side : Side) := Action.poll side [.sent 100] (List.replicate 40 .next) [.sent 100]
  [poll .server, poll .client, poll .server, poll .client, poll .server]

/-- The client takes the last line before the frame is sent. -/
def punctual : List Action :=
  greeted ++ [.poll .client [] (List.replicate 40 .next) [], .sendFrame .server ⟨[1, 2, 3], 0⟩ [.sent 100],
    .receiveFrames .client 8 [.received (lengthPrefixed [1, 2, 3])]]

theorem punctual_greeting_exact : Runs.Throughout Exchange.perform Legal (start .pop3) punctual ∧
    (run .pop3 punctual).Exact .pop3 ∧ (run .pop3 punctual).client.delivered = [[1, 2, 3]] := by
  have legal : Runs.Throughout Exchange.perform Legal (start .pop3) punctual := by decide +kernel
  have clean : Runs.Throughout Exchange.perform (Clean .pop3) (start .pop3) punctual := by decide +kernel
  exact ⟨legal, (greeting_exact_iff .pop3 punctual legal).mpr clean punctual (List.prefix_refl _), by decide +kernel⟩

/-- The frame is sent before the client is polled for the last line. -/
def belated : List Action :=
  greeted ++ [.sendFrame .server ⟨[1, 2, 3], 0⟩ [.sent 100], .poll .client [] (List.replicate 40 .next) [],
    .sendFrame .server ⟨[4], 0⟩ [.sent 100], .receiveFrames .client 8 [.received (lengthPrefixed [4])]]

theorem belated_greeting_swallows : Runs.Throughout Exchange.perform Legal (start .pop3) belated ∧
    (run .pop3 belated).client.greeter.ready = true ∧
    (run .pop3 belated).client.greeter.polled = (Side.server.lines .pop3).flatten ++ lengthPrefixed [1, 2, 3] ∧
    (run .pop3 belated).server.accepted.map Outgoing.frame = [[1, 2, 3], [4]] ∧
    (run .pop3 belated).client.delivered = [[4]] := by
  decide +kernel

end Exchange

end Norr
