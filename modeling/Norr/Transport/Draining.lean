import Norr.Transport.Reconnect

/-! What receive_frames leaves behind in plain framing. The reassembler has one answer for a frame that is
not complete and for one of length zero, so a fill ends at either. -/

namespace Norr

open ByteOrder

theorem plainFraming_progressive : plainFraming.Progressive where
  shrinks := by
    intro held rest frame decoded
    simp only [plainFraming] at decoded
    split_ifs at decoded with headless _ short
    cases decoded
    simp only [kTcpLengthPrefixSize, List.length_drop] at headless ⊢
    omega
  stable := by
    intro held rest frame decoded more
    simp only [plainFraming] at decoded ⊢
    split_ifs at decoded with headless large short
    cases decoded
    have starts : held <+: held ++ more := List.prefix_append _ _
    have same : readU16 (held ++ more) 0 = readU16 held 0 := by
      rw [readU16, readU16, slice_isPrefix starts (not_lt.mp headless)]
    rw [same, List.length_append, if_neg (by omega), if_neg large, if_neg (by omega),
      slice_isPrefix starts (not_lt.mp short), List.drop_append_of_le_length (not_lt.mp short)]

/-- Two octets announce no more than the limit, so nothing is malformed. -/
theorem plainFraming_decode (held : Bytes) : plainFraming.decode held = .incomplete ∨
    ∃ frame rest, plainFraming.decode held = .frame frame rest := by
  have small : ¬kMaximumTcpFrame < (readU16 held 0).toNat :=
    not_lt.mpr (Nat.le_of_lt_succ (readU16 held 0).toNat_lt)
  simp only [plainFraming, if_neg small]
  split_ifs
  · exact .inl rfl
  · exact .inl rfl
  · exact .inr ⟨_, _, rfl⟩

/-- No frame of length zero comes before one that is not. -/
def Trailing (frames : List Bytes) : Prop := frames.Pairwise fun first later => first = [] → later = []

instance (frames : List Bytes) : Decidable (Trailing frames) := inferInstanceAs (Decidable (List.Pairwise _ _))

/-- All that the results of ::read bring. A result that ends the call is the last one read. -/
def chunksOf : List ReadResult → Bytes
  | .received (byte :: bytes) :: results => byte :: bytes ++ chunksOf results
  | .interrupted :: results => chunksOf results
  | _ => []

/-- No frame that is complete in the bytes has anything in it. -/
def Drained (held : Bytes) : Prop := ∀ frame ∈ plainFraming.complete held, frame = []

namespace TcpTransport

/-- The bytes of the reassembler that are not parsed. -/
def unparsed (transport : TcpTransport) : Bytes :=
  transport.reassembler.buffer.drop transport.reassembler.consumed

variable {held : Bytes} {after : TcpTransport} {out : ℕ} {results : List ReadResult}

/-- One fill: the complete frames up to the first of length zero, which is lost with it. -/
theorem nextLoop_drains (room : ℕ) (reassembler : FrameReassembler) (ready : List Bytes)
    (holds : reassembler.Holds held) :
    ∃ after taken rest, nextLoop room reassembler ready = (true, after, ready ++ taken) ∧ after.Holds rest ∧
      taken.length ≤ room ∧
      (∀ more, plainFraming.complete (rest ++ more) <:+ plainFraming.complete (held ++ more)) ∧
      (Trailing (plainFraming.complete held) → taken.length < room → Drained rest) := by
  induction room generalizing reassembler ready held with
  | zero =>
    refine ⟨reassembler, [], held, by rw [nextLoop, List.append_nil], holds, le_rfl, ?_, ?_⟩
    · exact fun more => List.suffix_refl _
    · exact fun _ short => absurd short (Nat.lt_irrefl 0)
  | succ room ih =>
    simp only [nextLoop]
    rcases plainFraming_decode held with waits | ⟨frame, rest, decoded⟩
    · obtain ⟨after, next, holds⟩ := holds.next_incomplete waits
      have none : plainFraming.complete held = [] := Framing.complete_none (by simp [waits])
      simp only [next, holds.sound]
      refine ⟨after, [], held, by simp, holds, Nat.zero_le _, fun more => List.suffix_refl _, ?_⟩
      intro _ _ frame complete
      rw [none] at complete
      cases complete
    · obtain ⟨after, next, holds⟩ := holds.next_frame decoded
      have first := plainFraming_progressive.complete_frame decoded
      have behind : ∀ more, plainFraming.complete (rest ++ more) <:+ plainFraming.complete (held ++ more) := by
        intro more
        rw [plainFraming_progressive.complete_frame (plainFraming_progressive.stable decoded more)]
        exact List.suffix_cons _ _
      simp only [next, holds.sound]
      by_cases empty : frame = []
      · refine ⟨after, [], rest, by simp [empty], holds, Nat.zero_le _, behind, ?_⟩
        intro trailing _ later complete
        rw [first] at trailing
        exact (List.pairwise_cons.mp trailing).1 later complete empty
      · obtain ⟨last, taken, left, ran, held, within, further, drains⟩ := ih after (ready ++ [frame]) holds
        refine ⟨last, frame :: taken, left, ?_, held, Nat.succ_le_succ within, ?_, ?_⟩
        · simp only [if_neg empty, Bool.false_eq_true, if_false, ran, List.append_assoc, List.singleton_append]
        · exact fun more => (further more).trans (behind more)
        · intro trailing short
          rw [first] at trailing
          exact drains (List.pairwise_cons.mp trailing).2 (Nat.lt_of_succ_lt_succ short)

/-- In plain framing a connection is in order, and frames that wait in the queue wait alone: they are of a
connection before, whose bytes the reassembler has lost. -/
structure Plain (transport : TcpTransport) : Prop where
  plain : transport.sshActive = false
  standard : transport.reassembler.maximumFrame = kMaximumTcpFrame
  live : transport.state = .connected ∨ transport.state = .connecting →
    transport.reassembler.violated = false ∧ (transport.Spent ∨ Drained transport.unparsed)

variable {transport : TcpTransport}

theorem Plain.outputs (kept : transport.Plain) (outputs : transport.Outputs after) : after.Plain := by
  obtain ⟨state, outbox, sent, rfl, same | failed⟩ := outputs
  · exact ⟨kept.plain, kept.standard, fun up => kept.live (same ▸ up)⟩
  · refine ⟨kept.plain, kept.standard, fun up => ?_⟩
    simp [failed] at up

/-- What a refill has come to: the reassembler holds `rest`, and `ready` is within the span. -/
structure Filled (out : ℕ) (rest : Bytes) (transport : TcpTransport) : Prop where
  plain : transport.sshActive = false
  holds : transport.reassembler.Holds rest
  within : transport.ready.length ≤ out

theorem fillReady_filled (out : ℕ) (filled : transport.Filled out held) :
    ∃ after rest, transport.fillReady out = (true, after) ∧ after.Filled out rest ∧
      after.readyHead = transport.readyHead ∧ after.state = transport.state ∧
      (∀ more, plainFraming.complete (rest ++ more) <:+ plainFraming.complete (held ++ more)) ∧
      (Trailing (plainFraming.complete held) → after.ready.length < out → Drained rest) := by
  obtain ⟨plain, holds, within⟩ := filled
  obtain ⟨reassembler, taken, rest, ran, held, fits, behind, drains⟩ :=
    nextLoop_drains (out - transport.ready.length) transport.reassembler transport.ready holds
  simp only [fillReady, plain, Bool.false_eq_true, if_false, ran]
  refine ⟨_, rest, rfl, ⟨rfl, held, ?_⟩, rfl, rfl, behind, fun trailing short => drains trailing ?_⟩
  · rw [List.length_append]
    omega
  · rw [List.length_append] at short
    omega

/-- The loop over the socket keeps the reassembler in order, and drains it where the frames allow it. -/
theorem readLoop_filled (filled : transport.Filled out held) {outcome : Except TransportError Unit}
    (ran : readLoop out results transport = (outcome, after)) :
    ∃ rest, after.Filled out rest ∧ after.readyHead = transport.readyHead ∧
      (after.state = transport.state ∨ after.state = .failed) ∧ (outcome ≠ .ok () → after.state = .failed) ∧
      (Trailing (plainFraming.complete (held ++ chunksOf results)) →
        (transport.ready.length < out → Drained held) → after.ready.length < out → Drained rest) := by
  induction results generalizing transport held with
  | nil =>
    cases ran
    exact ⟨held, filled, rfl, .inl rfl, fun error => absurd rfl error, fun _ drained => drained⟩
  | cons result results ih =>
    unfold readLoop at ran
    split_ifs at ran with full
    · cases ran
      exact ⟨held, filled, rfl, .inl rfl, fun error => absurd rfl error, fun _ drained => drained⟩
    cases result with
    | interrupted => exact ih filled ran
    | wouldBlock =>
      cases ran
      exact ⟨held, filled, rfl, .inl rfl, fun error => absurd rfl error, fun _ drained => drained⟩
    | failed =>
      cases ran
      exact ⟨held, { filled with }, rfl, .inr rfl, fun _ => rfl,
        fun _ drained => drained⟩
    | received chunk =>
      cases chunk with
      | nil =>
        cases ran
        exact ⟨held, { filled with }, rfl, .inr rfl, fun _ => rfl,
          fun _ drained => drained⟩
      | cons byte bytes =>
        obtain ⟨plain, holds, within⟩ := filled
        obtain ⟨reassembler, pushed, pushes⟩ := holds.push (byte :: bytes)
        have absorbed : transport.absorb (byte :: bytes) =
            (true, { transport with read := transport.read ++ byte :: bytes, reassembler }) := by
          simp only [absorb, plain, Bool.false_eq_true, if_false, pushed]
        have taken : { transport with read := transport.read ++ byte :: bytes, reassembler }.Filled out
            (held ++ byte :: bytes) := ⟨plain, pushes, within⟩
        obtain ⟨next, rest, fills, filled, head, state, behind, drains⟩ := fillReady_filled out taken
        simp only [absorbed, fills] at ran
        obtain ⟨last, done, sameHead, sameState, failed, drained⟩ := ih filled ran
        refine ⟨last, done, sameHead.trans head, ?_, failed, ?_⟩
        · exact sameState.imp_left fun same => same.trans state
        · intro trailing _ short
          rw [chunksOf, ← List.append_assoc] at trailing
          refine drained (trailing.sublist (behind _).sublist) (drains ?_) short
          exact trailing.sublist (plainFraming_progressive.complete_append _ _).sublist

theorem Plain.holds (kept : transport.Plain) (connected : transport.state = .connected) :
    transport.reassembler.Holds transport.unparsed :=
  ⟨(kept.live (.inl connected)).1, kept.standard, rfl⟩

/-- The refill ends with the frames of the span, or with the connection. -/
theorem refill_filled (kept : transport.Plain) (connected : transport.state = .connected) (spent : transport.Spent)
    {outcome : Except TransportError Unit} (ran : transport.refill out results = (outcome, after)) :
    ∃ rest, after.Filled out rest ∧ after.readyHead = 0 ∧ (outcome ≠ .ok () → after.state = .failed) ∧
      (Trailing (plainFraming.complete (transport.unparsed ++ chunksOf results)) →
        after.ready.length < out → Drained rest) := by
  simp only [Spent] at spent
  have empty : { transport with ready := [], readyHead := 0 }.Filled out transport.unparsed :=
    ⟨kept.plain, kept.holds connected, Nat.zero_le _⟩
  obtain ⟨next, held, fills, filled, head, state, behind, drains⟩ := fillReady_filled out empty
  rw [refill, if_pos spent, fills] at ran
  obtain ⟨rest, done, sameHead, -, failed, drained⟩ := readLoop_filled filled ran
  refine ⟨rest, done, sameHead.trans head, failed, fun trailing => ?_⟩
  refine drained (trailing.sublist (behind _).sublist) (drains ?_)
  exact trailing.sublist (plainFraming_progressive.complete_append _ _).sublist

/-- A call in plain framing: it keeps the order, and a call that returns less than it might has drained all. -/
theorem receiveFrames_drains (kept : transport.Plain) {outcome : Except TransportError (List Bytes)}
    (ran : transport.receiveFrames out results = (outcome, after)) :
    after.Plain ∧ (Trailing (plainFraming.complete (transport.unparsed ++ chunksOf results)) →
      ∀ frames, outcome = .ok frames → frames.length < out → after.Spent ∧ Drained after.unparsed) := by
  unfold receiveFrames at ran
  split_ifs at ran with idle none
  · cases ran
    exact ⟨kept, fun _ _ failed => by cases failed⟩
  · cases ran
    exact ⟨kept, fun _ frames _ fewer => absurd fewer (by omega)⟩
  have connected := not_not.mp idle
  by_cases spent : transport.Spent
  · cases refilled : transport.refill out results with
    | mk result next =>
      obtain ⟨rest, filled, head, failed, drained⟩ := refill_filled kept connected spent refilled
      have unparsed : next.unparsed = rest := filled.holds.rest
      rw [refilled] at ran
      cases result with
      | error error =>
        cases ran
        have down := failed (by simp)
        exact ⟨⟨filled.plain, filled.holds.standard, by simp [down]⟩, fun _ _ failed => by cases failed⟩
      | ok done =>
        cases ran
        have all : (next.ready.drop next.readyHead).take out = next.ready := by
          rw [head, List.drop_zero, List.take_of_length_le filled.within]
        have used : { next with readyHead := next.readyHead +
            ((next.ready.drop next.readyHead).take out).length }.Spent := by
          simp only [Spent, all]
          omega
        refine ⟨⟨filled.plain, filled.holds.standard, fun _ => ⟨filled.holds.sound, .inl used⟩⟩, ?_⟩
        intro trailing frames same fewer
        cases same
        rw [all] at fewer
        exact ⟨used, unparsed ▸ drained trailing fewer⟩
  · have drained : Drained transport.unparsed := (kept.live (.inl connected)).2.resolve_left spent
    have waiting : ¬transport.ready.length ≤ transport.readyHead := spent
    rw [refill, if_neg waiting] at ran
    cases ran
    refine ⟨⟨kept.plain, kept.standard, fun up => ⟨(kept.live up).1, .inr drained⟩⟩, ?_⟩
    intro _ frames same fewer
    cases same
    refine ⟨?_, drained⟩
    rw [List.length_take, List.length_drop] at fewer
    simp only [Spent, List.length_take, List.length_drop]
    omega

end TcpTransport

/-- The action keeps to plain framing. -/
def TcpAction.Plain {δ : Type} : TcpAction δ → Prop
  | .enableSsh _ => False
  | .enableCamouflage _ _ => False
  | _ => True

namespace TcpConnection

variable {δ : Type} (codec : Camouflage δ)

structure Plain (connection : TcpConnection δ) : Prop where
  bare : connection.camo = none
  transport : connection.transport.Plain

variable {connection : TcpConnection δ}

theorem Plain.connect (kept : connection.Plain) (result : ConnectResult) : (connection.connect result).Plain := by
  obtain ⟨bare, plain, standard, live⟩ := kept
  have dialled (state : TcpState) : (connection.transport.dialled state).Plain :=
    ⟨plain, standard, fun _ => ⟨rfl, .inr fun frame complete => by cases complete⟩⟩
  unfold TcpConnection.connect TcpTransport.connect
  split_ifs
  · exact ⟨bare, plain, standard, live⟩
  · cases result with
    | noSocket => exact ⟨bare, plain, standard, live⟩
    | noOption => exact ⟨bare, plain, standard, live⟩
    | connected => exact ⟨bare, dialled .connected⟩
    | inProgress => exact ⟨bare, dialled .connecting⟩
    | refused => exact ⟨bare, plain, standard, fun up => by simp at up⟩

theorem Plain.pollConnect (kept : connection.Plain) (result : PollResult) :
    (connection.pollConnect result).Plain := by
  obtain ⟨bare, plain, standard, live⟩ := kept
  refine ⟨bare, ?_⟩
  simp only [TcpConnection.pollConnect, TcpTransport.pollConnect]
  split_ifs with connected connecting
  · exact ⟨plain, standard, live⟩
  · exact ⟨plain, standard, live⟩
  · cases result with
    | unreadable => exact ⟨plain, standard, fun up => by simp [TcpTransport.fail] at up⟩
    | pending => exact ⟨plain, standard, live⟩
    | refused => exact ⟨plain, standard, fun up => by simp [TcpTransport.fail] at up⟩
    | established => exact ⟨plain, standard, fun _ => live (.inr (not_not.mp connecting))⟩

theorem receiveFrames_bare (bare : connection.camo = none) (out : ℕ) (reads : List ReadResult)
    (sends : List SendResult) :
    connection.receiveFrames codec out reads sends =
      ((connection.transport.receiveFrames out reads).1,
        { connection with transport := (connection.transport.receiveFrames out reads).2 }) := by
  simp only [receiveFrames, bare]

theorem Plain.perform (kept : connection.Plain) {action : TcpAction δ} (plain : action.Plain) :
    (connection.perform codec action).Plain := by
  cases action with
  | connect result => exact kept.connect result
  | pollConnect result => exact kept.pollConnect result
  | close => exact ⟨rfl, rfl, kept.transport.standard, fun up => by rcases up with up | up <;> cases up⟩
  | enableSsh client => cases plain
  | enableCamouflage camo hello => cases plain
  | flushOutput results => exact ⟨kept.bare, kept.transport.outputs (TcpTransport.flushOutput_spec rfl).1⟩
  | greetingFailed =>
    simp only [TcpConnection.perform]
    split_ifs
    · exact ⟨kept.bare, kept.transport.outputs ⟨_, _, _, rfl, .inr rfl⟩⟩
    · exact kept
  | sendFrame outgoing urgent results =>
    simp only [TcpConnection.perform, TcpConnection.sendFrame, kept.bare]
    exact ⟨rfl, kept.transport.outputs (TcpTransport.sendFrame_spec rfl).1⟩
  | receiveFrames out reads sends =>
    simp only [TcpConnection.perform, receiveFrames_bare codec kept.bare]
    exact ⟨kept.bare, (TcpTransport.receiveFrames_drains kept.transport rfl).1⟩

theorem run_plain {actions : List (TcpAction δ)} (plain : ∀ action ∈ actions, action.Plain)
    (kept : connection.Plain) : (run codec connection actions).Plain := by
  induction actions generalizing connection with
  | nil => exact kept
  | cons action actions ih =>
    exact ih (fun later member => plain later (List.mem_cons_of_mem _ member))
      (kept.perform codec (plain action List.mem_cons_self))

theorem start_plain : ({} : TcpConnection δ).Plain :=
  ⟨rfl, rfl, rfl, fun up => by simp at up⟩

/-- A call that returns fewer frames than it might leaves none that has anything in it, unless the peer sends
a frame of length zero before one that is longer. -/
theorem short_call_drains (actions : List (TcpAction δ)) (plain : ∀ action ∈ actions, action.Plain)
    (out : ℕ) (reads : List ReadResult) (sends : List SendResult)
    (trailing : Trailing (plainFraming.complete
      ((run codec {} actions).transport.unparsed ++ chunksOf reads)))
    (frames : List Bytes) (after : TcpConnection δ)
    (returned : (run codec {} actions).receiveFrames codec out reads sends = (.ok frames, after))
    (fewer : frames.length < out) : after.transport.Spent ∧ Drained after.transport.unparsed := by
  have kept := run_plain codec plain start_plain
  rw [receiveFrames_bare codec kept.bare, Prod.mk.injEq] at returned
  obtain ⟨outcome, rfl⟩ := returned
  exact (TcpTransport.receiveFrames_drains kept.transport rfl).2 trailing frames outcome fewer

/-- A frame of length zero at the end is dropped, and the frame before it is returned. -/
theorem trailing_empty_frame_drains :
    let before := run uncamouflaged {} [.connect .connected]
    let after := (before.receiveFrames uncamouflaged 2 [.received [0, 1, 7, 0, 0]] []).2
    (before.receiveFrames uncamouflaged 2 [.received [0, 1, 7, 0, 0]] []).1 = .ok [[7]] ∧
      after.transport.Spent ∧ Drained after.transport.unparsed :=
  ⟨rfl, short_call_drains uncamouflaged [.connect .connected] (by simp [TcpAction.Plain]) 2
    [.received [0, 1, 7, 0, 0]] [] (by decide +kernel) [[7]] _ rfl (by decide)⟩

/-- The fill ends at the frame of length zero, the socket is drained, and the frame behind stays. -/
theorem leading_empty_frame_strands :
    let before := run uncamouflaged {} [.connect .connected]
    let after := (before.receiveFrames uncamouflaged 1 [.received [0, 0, 0, 1, 170]] []).2
    (before.receiveFrames uncamouflaged 1 [.received [0, 0, 0, 1, 170]] []).1 = .ok [] ∧
      plainFraming.complete after.transport.unparsed = [[170]] :=
  ⟨rfl, by decide +kernel⟩

end TcpConnection

end Norr
