import Norr.Transport.Tcp

/-! The stream between two transports: what the one accepts is what the other returns. -/

namespace Norr

def framingOf (ssh : Bool) : Framing Outgoing Bytes UInt8 := if ssh then sshFraming else plainFraming

theorem framingOf_lawful (ssh : Bool) : (framingOf ssh).Lawful Outgoing.Sendable := by
  cases ssh with
  | false => exact plainFraming_lawful
  | true => exact sshFraming_lawful

theorem framingOf_payload (ssh : Bool) : (framingOf ssh).payload = Outgoing.frame := by
  cases ssh <;> rfl

namespace TcpTransport

section Sending

/-- No call of the socket fails. -/
def Unbroken (results : List SendResult) : Prop := .failed ∉ results

instance (results : List SendResult) : Decidable (Unbroken results) :=
  inferInstanceAs (Decidable (_ ∉ results))

variable {transport after : TcpTransport} {results left : List SendResult} {bytes : Bytes}

theorem Unbroken.tail {result : SendResult} (unbroken : Unbroken (result :: results)) : Unbroken results :=
  fun broken => unbroken (List.mem_cons_of_mem _ broken)

theorem take_taken (bytes : Bytes) (count more : ℕ) :
    bytes.take count ++ (bytes.drop count).take more = bytes.take (min count bytes.length + more) := by
  rcases le_total count bytes.length with partly | whole
  · rw [min_eq_left partly, List.take_add]
  · rw [List.take_of_length_le whole, List.drop_eq_nil_of_le whole, min_eq_right whole, List.take_nil,
      List.append_nil, List.take_of_length_le (Nat.le_add_right _ _)]

theorem wrote_wrote (transport : TcpTransport) (first second : Bytes) :
    (transport.wrote first).wrote second = transport.wrote (first ++ second) := by
  simp only [wrote, List.append_assoc]

/-- What write_some has taken is a part from the front, and only a call that fails ends with an error. -/
theorem writeLoop_spec {outcome : Except TransportError ℕ}
    (ran : writeLoop results transport bytes = (outcome, after, left)) :
    ∃ written state, after = { transport.wrote (bytes.take written) with state } ∧ written ≤ bytes.length ∧
      (outcome = .ok written ∧ state = transport.state ∨ outcome.isOk = false ∧ state = .failed) ∧
      (Unbroken results → outcome.isOk ∧ Unbroken left) := by
  fun_induction writeLoop results transport bytes generalizing outcome after left with
  | case1 results transport =>
    cases ran
    exact ⟨0, _, by simp [wrote], le_rfl, .inl ⟨rfl, rfl⟩, fun unbroken => ⟨rfl, unbroken⟩⟩
  | case2 transport bytes =>
    cases ran
    exact ⟨0, _, by simp [wrote], Nat.zero_le _, .inl ⟨rfl, rfl⟩, fun unbroken => ⟨rfl, unbroken⟩⟩
  | case3 results transport bytes _ ih =>
    obtain ⟨written, state, same, within, ends, complete⟩ := ih ran
    exact ⟨written, state, same, within, ends, fun unbroken => complete unbroken.tail⟩
  | case4 results transport bytes | case6 results transport bytes =>
    cases ran
    exact ⟨0, _, by simp [wrote], Nat.zero_le _, .inl ⟨rfl, rfl⟩, fun unbroken => ⟨rfl, unbroken.tail⟩⟩
  | case5 results transport bytes =>
    cases ran
    refine ⟨0, .failed, by simp [wrote, fail], Nat.zero_le _, .inr ⟨rfl, rfl⟩, ?_⟩
    exact fun unbroken => absurd List.mem_cons_self unbroken
  | case7 count results transport bytes _ _ taken error broken rest failed =>
    rename_i ih
    obtain ⟨more, state, same, within, ends, complete⟩ := ih failed
    cases ran
    rw [List.length_drop] at within
    refine ⟨min count bytes.length + more, state, ?_, ?_, ?_, fun unbroken => complete unbroken.tail⟩
    · rw [same, wrote_wrote, take_taken]
    · omega
    · exact .inr (ends.resolve_left fun ended => by cases ended.1)
  | case8 count results transport bytes _ _ taken written next rest wrote =>
    rename_i ih
    obtain ⟨more, state, same, within, ends, complete⟩ := ih wrote
    cases ran
    rw [List.length_drop] at within
    obtain ⟨ok, live⟩ := ends.resolve_right fun ended => by cases ended.1
    cases ok
    refine ⟨min count bytes.length + written, state, ?_, ?_, ?_, fun unbroken => complete unbroken.tail⟩
    · rw [same, wrote_wrote, take_taken]
    · omega
    · rw [List.length_take]
      exact .inl ⟨rfl, live⟩

/-- Only what goes out has changed, and the connection may have failed. -/
def Outputs (transport after : TcpTransport) : Prop :=
  ∃ state outbox sent, after = { transport with state, outbox, sent } ∧ (state = transport.state ∨ state = .failed)

theorem Outputs.refl (transport : TcpTransport) : transport.Outputs transport := ⟨_, _, _, rfl, .inl rfl⟩

theorem Outputs.trans {first second third : TcpTransport} (before : first.Outputs second)
    (later : second.Outputs third) : first.Outputs third := by
  obtain ⟨state, outbox, sent, rfl, kept⟩ := before
  obtain ⟨last, outbox, sent, rfl, keptAgain⟩ := later
  exact ⟨last, outbox, sent, rfl, keptAgain.elim (fun same => same ▸ kept) .inr⟩

/-- Only the output has changed: the stream of bytes, written and not yet, has grown by `record`. -/
structure Extends (transport : TcpTransport) (record : Bytes) (after : TcpTransport) : Prop where
  frame : after = { transport with outbox := after.outbox, sent := after.sent }
  stream : after.sent ++ after.outbox = transport.sent ++ transport.outbox ++ record
  grows : transport.sent <+: after.sent

theorem Extends.refl (transport : TcpTransport) : transport.Extends [] transport :=
  ⟨rfl, by rw [List.append_nil], List.prefix_refl _⟩

theorem Extends.trans {first second third : TcpTransport} {record more : Bytes} (one : first.Extends record second)
    (two : second.Extends more third) : first.Extends (record ++ more) third := by
  refine ⟨?_, ?_, one.grows.trans two.grows⟩
  · rw [two.frame, one.frame]
  · rw [two.stream, one.stream, List.append_assoc _ record]

theorem flushOutput_spec {outcome : Except TransportError Bool}
    (ran : transport.flushOutput results = (outcome, after, left)) :
    transport.Outputs after ∧ (Unbroken results → transport.Extends [] after ∧ Unbroken left ∧
      (transport.state = .connected → outcome = .ok after.outbox.isEmpty)) := by
  unfold flushOutput at ran
  split_ifs at ran with idle
  · cases ran
    exact ⟨.refl _, fun unbroken => ⟨.refl _, unbroken, fun connected => absurd connected idle⟩⟩
  · split at ran
    · rename_i error _ _ loop
      obtain ⟨written, state, rfl, -, ends, complete⟩ := writeLoop_spec loop
      cases ran
      refine ⟨⟨_, _, _, rfl, ends.imp And.right And.right⟩, fun unbroken => ?_⟩
      cases (complete unbroken).1
    · rename_i loop
      obtain ⟨written, state, rfl, -, ends, complete⟩ := writeLoop_spec loop
      cases ran
      obtain ⟨ok, rfl⟩ := ends.resolve_right fun ended => by cases ended.1
      cases ok
      refine ⟨⟨_, _, _, rfl, .inl rfl⟩, fun unbroken => ⟨⟨rfl, ?_, ⟨_, rfl⟩⟩, (complete unbroken).2, fun _ => rfl⟩⟩
      simp only [wrote, List.append_assoc, List.append_nil, List.take_append_drop]

theorem recordFor_eq {outgoing : Outgoing} (fits : outgoing.frame.length ≤ kMaximumTcpFrame) :
    transport.recordFor outgoing = .ok ((framingOf transport.sshActive).encode outgoing) := by
  unfold recordFor framingOf
  split_ifs
  · rw [SshFramer.wrap, if_neg (not_lt.mpr fits), if_neg]
    · rfl
    · rw [SshFramer.recordSize]
      omega
  · rfl

theorem sendFrame_spec {outcome : Except TransportError ℕ} {outgoing : Outgoing}
    (ran : transport.sendFrame outgoing results = (outcome, after)) :
    transport.Outputs after ∧ (Unbroken results →
      transport.Extends (if outcome.isOk then (framingOf transport.sshActive).encode outgoing else []) after) := by
  unfold sendFrame at ran
  split_ifs at ran with idle large
  · cases ran
    exact ⟨.refl _, fun _ => .refl _⟩
  · cases ran
    exact ⟨.refl _, fun _ => .refl _⟩
  · split at ran
    · rename_i flushed
      obtain ⟨outputs, complete⟩ := flushOutput_spec flushed
      cases ran
      exact ⟨outputs, fun unbroken => (complete unbroken).1⟩
    · rename_i flushed
      obtain ⟨outputs, complete⟩ := flushOutput_spec flushed
      cases ran
      exact ⟨outputs, fun unbroken => (complete unbroken).1⟩
    · rename_i drained left flushed
      obtain ⟨outputs, complete⟩ := flushOutput_spec flushed
      have active : drained.sshActive = transport.sshActive := by
        obtain ⟨_, _, _, rfl, -⟩ := outputs
        rfl
      simp only [recordFor_eq (not_lt.mp large), active] at ran
      generalize (framingOf transport.sshActive).encode outgoing = record at ran ⊢
      split at ran
      · rename_i loop
        obtain ⟨written, state, rfl, -, ends, kept⟩ := writeLoop_spec loop
        cases ran
        refine ⟨outputs.trans ⟨_, _, _, rfl, ends.imp And.right And.right⟩, fun unbroken => ?_⟩
        cases (kept (complete unbroken).2.1).1
      · rename_i loop
        obtain ⟨written, state, rfl, within, ends, kept⟩ := writeLoop_spec loop
        cases ran
        obtain ⟨ok, rfl⟩ := ends.resolve_right fun ended => by cases ended.1
        cases ok
        refine ⟨outputs.trans ⟨_, _, _, rfl, .inl rfl⟩, fun unbroken => ?_⟩
        obtain ⟨flushes, -, empty⟩ := complete unbroken
        have done : drained.outbox = [] :=
          List.isEmpty_iff.mp (Except.ok.inj (empty (not_not.mp idle))).symm
        refine flushes.trans ⟨rfl, ?_, ⟨_, rfl⟩⟩
        simp only [wrote, done, List.append_assoc, List.nil_append]
        split_ifs with short
        · rw [List.take_append_drop]
        · rw [List.append_nil, List.take_of_length_le (not_lt.mp short)]

end Sending

section Receiving

variable {records : List Outgoing} {base : List Bytes} {read held : Bytes}

theorem unwrapLoop_spec (sound : ∀ record ∈ records, record.Sendable)
    (arrived : read <+: sshFraming.stream records) (wire : Bytes) (room offset : ℕ) (ready : List Bytes)
    (parsed : sshFraming.Parsed records read (base ++ ready) (wire.drop offset)) :
    ∃ consumed frames, unwrapLoop wire room offset ready = (true, consumed, frames) ∧
      sshFraming.Parsed records read (base ++ frames) (wire.drop consumed) ∧
      (frames.length < ready.length + room → sshFraming.decode (wire.drop consumed) = .incomplete) := by
  induction room generalizing offset ready with
  | zero => exact ⟨offset, ready, rfl, parsed, fun short => absurd short (lt_irrefl _)⟩
  | succ room ih =>
    simp only [unwrapLoop]
    rcases parsed.next sshFraming_lawful sound arrived with waits | ⟨record, -, rest, decoded, further⟩
    · rw [sshFraming_waits waits]
      exact ⟨offset, ready, rfl, parsed, fun _ => waits⟩
    · obtain ⟨consumed, unwrapped, rfl⟩ := sshFraming_frame decoded
      rw [unwrapped]
      rw [List.append_assoc, List.drop_drop] at further
      obtain ⟨last, frames, ran, done, waits⟩ := ih _ _ further
      refine ⟨last, frames, ran, done, fun short => waits ?_⟩
      rw [List.length_append, List.length_singleton]
      omega

theorem nextLoop_spec (sound : ∀ record ∈ records, record.Sendable)
    (arrived : read <+: plainFraming.stream records) (room : ℕ) (reassembler : FrameReassembler)
    (ready : List Bytes) (holds : reassembler.Holds held)
    (parsed : plainFraming.Parsed records read (base ++ ready) held) :
    ∃ after frames rest, nextLoop room reassembler ready = (true, after, frames) ∧ after.Holds rest ∧
      plainFraming.Parsed records read (base ++ frames) rest ∧
      (frames.length < ready.length + room → plainFraming.decode rest = .incomplete) := by
  induction room generalizing reassembler ready held with
  | zero => exact ⟨reassembler, ready, held, rfl, holds, parsed, fun short => absurd short (lt_irrefl _)⟩
  | succ room ih =>
    simp only [nextLoop]
    rcases parsed.next plainFraming_lawful sound arrived with waits | ⟨record, known, rest, decoded, further⟩
    · obtain ⟨after, next, holds⟩ := holds.next_incomplete waits
      rw [next]
      simp only [holds.sound, if_true]
      exact ⟨after, ready, held, rfl, holds, parsed, fun _ => waits⟩
    · obtain ⟨after, next, holds⟩ := holds.next_frame decoded
      have nonempty : record.frame ≠ [] := (sound record known).1
      rw [next]
      simp only [holds.sound, plainFraming, nonempty, if_false]
      rw [List.append_assoc] at further
      obtain ⟨last, frames, bytes, ran, held, done, waits⟩ := ih _ _ holds further
      refine ⟨last, frames, bytes, ran, held, done, fun short => waits ?_⟩
      rw [List.length_append, List.length_singleton]
      omega

variable {ssh : Bool} {transport : TcpTransport}

/-- The receiver has returned `base` before it filled `ready`, and still has `held` to parse. -/
structure Receives (ssh : Bool) (records : List Outgoing) (base : List Bytes) (held : Bytes)
    (transport : TcpTransport) : Prop where
  active : transport.sshActive = ssh
  buffers : if ssh then transport.sshReassembly = held else transport.reassembler.Holds held
  parsed : (framingOf ssh).Parsed records transport.read (base ++ transport.ready) held

theorem fillReady_spec (sound : ∀ record ∈ records, record.Sendable)
    (receives : transport.Receives ssh records base held)
    (arrived : transport.read <+: (framingOf ssh).stream records) (out : ℕ) :
    ∃ after rest, transport.fillReady out = (true, after) ∧ after.readyHead = transport.readyHead ∧
      after.Receives ssh records base rest ∧
      (after.ready.length < out → (framingOf ssh).decode rest = .incomplete) := by
  obtain ⟨active, buffers, parsed⟩ := receives
  unfold fillReady
  cases ssh with
  | true =>
    simp only [if_true] at buffers
    subst buffers
    obtain ⟨consumed, frames, ran, done, waits⟩ := unwrapLoop_spec sound arrived transport.sshReassembly
      (out - transport.ready.length) 0 transport.ready parsed
    simp only [active, ran, if_true]
    refine ⟨_, _, rfl, rfl, ⟨rfl, rfl, done⟩, fun short => waits ?_⟩
    dsimp only at short
    omega
  | false =>
    obtain ⟨reassembler, frames, rest, ran, holds, done, waits⟩ := nextLoop_spec sound arrived
      (out - transport.ready.length) transport.reassembler transport.ready buffers parsed
    simp only [active, ran, Bool.false_eq_true, if_false]
    refine ⟨_, rest, rfl, rfl, ⟨rfl, holds, done⟩, fun short => waits ?_⟩
    dsimp only at short
    omega

theorem absorb_spec (receives : transport.Receives ssh records base held) (chunk : Bytes) :
    ∃ after, transport.absorb chunk = (true, after) ∧ after.readyHead = transport.readyHead ∧
      after.Receives ssh records base (held ++ chunk) := by
  obtain ⟨active, buffers, parsed⟩ := receives
  unfold absorb
  cases ssh with
  | true =>
    simp only [if_true] at buffers
    subst buffers
    simp only [active, if_true]
    exact ⟨_, rfl, rfl, rfl, rfl, parsed.received chunk⟩
  | false =>
    obtain ⟨reassembler, pushed, holds⟩ := FrameReassembler.Holds.push buffers chunk
    simp only [active, pushed, Bool.false_eq_true, if_false]
    exact ⟨_, rfl, rfl, rfl, holds, parsed.received chunk⟩

theorem Receives.fail (receives : transport.Receives ssh records base held) :
    transport.fail.Receives ssh records base held := { receives with }

/-- Only what comes in has changed. -/
structure Inputs (transport after : TcpTransport) : Prop where
  sent : after.sent = transport.sent
  outbox : after.outbox = transport.outbox
  active : after.sshActive = transport.sshActive
  grows : transport.read <+: after.read

theorem Inputs.refl (transport : TcpTransport) : transport.Inputs transport :=
  ⟨rfl, rfl, rfl, List.prefix_refl _⟩

theorem Inputs.trans {first second third : TcpTransport} (one : first.Inputs second) (two : second.Inputs third) :
    first.Inputs third :=
  ⟨two.sent.trans one.sent, two.outbox.trans one.outbox, two.active.trans one.active, one.grows.trans two.grows⟩

variable {after : TcpTransport} {delivered : List Bytes}

theorem Inputs.fail (inputs : transport.Inputs after) : transport.Inputs after.fail :=
  { inputs with }

theorem fillReady_inputs (transport : TcpTransport) (out : ℕ) : transport.Inputs (transport.fillReady out).2 := by
  simp only [fillReady]
  split_ifs <;> exact ⟨rfl, rfl, rfl, List.prefix_refl _⟩

theorem absorb_inputs (transport : TcpTransport) (chunk : Bytes) :
    transport.Inputs (transport.absorb chunk).2 := by
  simp only [absorb]
  split_ifs <;> exact ⟨rfl, rfl, rfl, List.prefix_append _ _⟩

theorem readLoop_inputs (out : ℕ) (results : List ReadResult) (transport : TcpTransport) :
    transport.Inputs (readLoop out results transport).2 := by
  fun_induction readLoop out results transport with
  | case3 results transport _ ih => exact ih
  | case5 results transport => exact (Inputs.refl transport).fail
  | case6 results transport => exact (Inputs.refl transport).fail
  | case7 results transport _ chunk _ next refused =>
    have first := absorb_inputs transport chunk
    rw [refused] at first
    exact first.fail
  | case8 results transport _ chunk _ absorbed took next malformed =>
    have first := absorb_inputs transport chunk
    have second := fillReady_inputs absorbed out
    rw [took] at first
    rw [malformed] at second
    exact (first.trans second).fail
  | case9 results transport _ chunk _ absorbed took next filled ih =>
    have first := absorb_inputs transport chunk
    have second := fillReady_inputs absorbed out
    rw [took] at first
    rw [filled] at second
    exact (first.trans second).trans ih
  | _ => exact .refl _

theorem readLoop_spec (sound : ∀ record ∈ records, record.Sendable) (out : ℕ) (results : List ReadResult)
    {outcome : Except TransportError Unit} (ran : readLoop out results transport = (outcome, after))
    (arrived : after.read <+: (framingOf ssh).stream records) (receives : transport.Receives ssh records base held)
    (waits : transport.ready.length < out → (framingOf ssh).decode held = .incomplete) :
    ∃ rest, after.Receives ssh records base rest ∧ after.readyHead = transport.readyHead ∧
      (after.ready.length < out → (framingOf ssh).decode rest = .incomplete) ∧
      (.failed ∉ results → outcome = .ok ()) := by
  induction results generalizing transport held with
  | nil =>
    cases ran
    exact ⟨held, receives, rfl, waits, fun _ => rfl⟩
  | cons result results ih =>
    unfold readLoop at ran
    split_ifs at ran with full
    · cases ran
      exact ⟨held, receives, rfl, waits, fun _ => rfl⟩
    · split at ran
      · obtain ⟨rest, done, head, waits, complete⟩ := ih ran receives waits
        exact ⟨rest, done, head, waits, fun unbroken => complete fun broken =>
          unbroken (List.mem_cons_of_mem _ broken)⟩
      · cases ran
        exact ⟨held, receives, rfl, waits, fun _ => rfl⟩
      · cases ran
        exact ⟨held, receives.fail, rfl, waits, fun unbroken => absurd List.mem_cons_self unbroken⟩
      · cases ran
        exact ⟨held, receives.fail, rfl, waits, fun _ => rfl⟩
      · rename_i chunk _
        obtain ⟨absorbed, took, first, receives⟩ := absorb_spec receives chunk
        simp only [took] at ran
        have grown : absorbed.read <+: after.read := by
          have fills := fillReady_inputs absorbed out
          split at ran
          · rename_i malformed
            rw [malformed] at fills
            cases ran
            exact fills.grows
          · rename_i next filled
            rw [filled] at fills
            have later := readLoop_inputs out results next
            rw [ran] at later
            exact (fills.trans later).grows
        obtain ⟨filled, rest, fills, second, receives, waits⟩ :=
          fillReady_spec sound receives (grown.trans arrived) out
        simp only [fills] at ran
        obtain ⟨rest, done, head, waits, complete⟩ := ih ran receives waits
        exact ⟨rest, done, (head.trans second).trans first, waits, fun unbroken =>
          complete fun broken => unbroken (List.mem_cons_of_mem _ broken)⟩

/-- What receive_frames returns continues what it has returned before. -/
structure Delivers (ssh : Bool) (records : List Outgoing) (delivered : List Bytes) (transport : TcpTransport) :
    Prop where
  split : ∃ base held, transport.Receives ssh records base held ∧
    delivered = base ++ transport.ready.take transport.readyHead

theorem Delivers.sent (delivers : transport.Delivers ssh records delivered) (more : List Outgoing) :
    transport.Delivers ssh (records ++ more) delivered := by
  obtain ⟨base, held, receives, same⟩ := delivers.split
  exact ⟨base, held, { receives with parsed := receives.parsed.sent more }, same⟩

theorem Delivers.isPrefix (delivers : transport.Delivers ssh records delivered) :
    delivered <+: records.map Outgoing.frame := by
  obtain ⟨base, held, receives, rfl⟩ := delivers.split
  have parsed := receives.parsed.isPrefix
  rw [framingOf_payload] at parsed
  refine List.IsPrefix.trans ?_ parsed
  exact (List.prefix_append_right_inj base).mpr (List.take_prefix _ _)

theorem refill_inputs (transport : TcpTransport) (out : ℕ) (results : List ReadResult) :
    transport.Inputs (transport.refill out results).2 := by
  unfold refill
  split_ifs
  · have emptied : transport.Inputs { transport with ready := [], readyHead := 0 } :=
      ⟨rfl, rfl, rfl, List.prefix_refl _⟩
    have first := emptied.trans (fillReady_inputs _ out)
    split
    · rename_i malformed
      rw [malformed] at first
      exact first.fail
    · rename_i next filled
      rw [filled] at first
      exact first.trans (readLoop_inputs out results next)
  · exact .refl transport

theorem receiveFrames_inputs (transport : TcpTransport) (out : ℕ) (results : List ReadResult) :
    transport.Inputs (transport.receiveFrames out results).2 := by
  have same := refill_inputs transport out results
  rw [receiveFrames]
  split_ifs
  · exact .refl transport
  · exact .refl transport
  · split
    · rename_i failed
      rw [failed] at same
      exact same
    · rename_i filled
      rw [filled] at same
      exact { same with }

theorem refill_spec (sound : ∀ record ∈ records, record.Sendable) {out : ℕ} {results : List ReadResult}
    {outcome : Except TransportError Unit} (ran : transport.refill out results = (outcome, after))
    (arrived : after.read <+: (framingOf ssh).stream records) (delivers : transport.Delivers ssh records delivered) :
    after.Delivers ssh records delivered ∧ (.failed ∉ results → outcome = .ok ()) ∧
      (0 < out → after.ready.length ≤ after.readyHead → after.read = (framingOf ssh).stream records →
        delivered = records.map Outgoing.frame) := by
  obtain ⟨base, held, receives, same⟩ := delivers.split
  have before : transport.read <+: (framingOf ssh).stream records := by
    have inputs := refill_inputs transport out results
    rw [ran] at inputs
    exact inputs.grows.trans arrived
  unfold refill at ran
  split_ifs at ran with used
  · rw [List.take_of_length_le used] at same
    have fresh : { transport with ready := [], readyHead := 0 }.Receives ssh records delivered held := by
      refine ⟨receives.active, receives.buffers, ?_⟩
      rw [same, List.append_nil]
      exact receives.parsed
    obtain ⟨filled, rest, fills, reads, receives, waits⟩ := fillReady_spec sound fresh before out
    simp only [fills] at ran
    obtain ⟨rest, receives, head, waits, complete⟩ := readLoop_spec sound out results ran arrived receives waits
    have start : after.readyHead = 0 := head.trans reads
    refine ⟨⟨delivered, rest, receives, by rw [start, List.take_zero, List.append_nil]⟩, complete, ?_⟩
    intro positive exhausted whole
    rw [start, Nat.le_zero, List.length_eq_zero_iff] at exhausted
    have finished := receives.parsed.finished (framingOf_lawful ssh) sound whole
      (waits (by rw [exhausted]; exact positive))
    rwa [exhausted, List.append_nil, framingOf_payload] at finished
  · cases ran
    exact ⟨delivers, fun _ => rfl, fun _ exhausted => absurd exhausted used⟩

theorem receiveFrames_spec (sound : ∀ record ∈ records, record.Sendable) {out : ℕ} {results : List ReadResult}
    {outcome : Except TransportError (List Bytes)} (ran : transport.receiveFrames out results = (outcome, after))
    (arrived : after.read <+: (framingOf ssh).stream records) (delivers : transport.Delivers ssh records delivered) :
    after.Delivers ssh records (delivered ++ outcome.toOption.getD []) ∧
      (transport.state = .connected → .failed ∉ results → outcome.isOk) ∧
      (0 < out → outcome = .ok [] → after.read = (framingOf ssh).stream records →
        delivered = records.map Outgoing.frame) := by
  unfold receiveFrames at ran
  split_ifs at ran with idle none
  · cases ran
    refine ⟨by simpa [Except.toOption] using delivers, fun connected => absurd connected idle, ?_⟩
    intro _ failed
    cases failed
  · cases ran
    refine ⟨by simpa [Except.toOption] using delivers, fun _ _ => rfl, ?_⟩
    intro positive
    omega
  · split at ran
    · rename_i failed
      cases ran
      obtain ⟨delivers, complete, -⟩ := refill_spec sound failed arrived delivers
      refine ⟨by simpa [Except.toOption] using delivers, fun _ unbroken => ?_, ?_⟩
      · cases complete unbroken
      · intro _ failed
        cases failed
    · rename_i filled refilled
      cases ran
      obtain ⟨delivers, -, finished⟩ := refill_spec sound refilled arrived delivers
      obtain ⟨base, held, receives, same⟩ := delivers.split
      refine ⟨⟨base, held, { receives with }, ?_⟩, fun _ _ => rfl, ?_⟩
      · simp only [Except.toOption, Option.getD_some, same, List.append_assoc]
        rw [List.append_cancel_left_eq, ← List.take_add, List.take_eq_take_iff, List.length_take,
          List.length_drop]
        omega
      · intro positive empty
        rcases List.take_eq_nil_iff.mp (Except.ok.inj empty) with zero | exhausted
        · exact absurd zero positive.ne'
        · exact finished positive (List.drop_eq_nil_iff.mp exhausted)

end Receiving

end TcpTransport

open TcpTransport

/-- One direction of a connection, with the frames that were accepted and returned. -/
structure TcpLink where
  sender : TcpTransport
  receiver : TcpTransport
  accepted : List Outgoing := []
  delivered : List Bytes := []

namespace TcpLink

def established (ssh : Bool) : TcpTransport := { state := .connected, sshActive := ssh }

def start (ssh : Bool) : TcpLink := { sender := established ssh, receiver := established ssh }

inductive Call
  | sendFrame (outgoing : Outgoing) (results : List SendResult)
  | flushOutput (results : List SendResult)
  | receiveFrames (out : ℕ) (results : List ReadResult)

def call (link : TcpLink) : Call → TcpLink
  | .sendFrame outgoing results =>
    match link.sender.sendFrame outgoing results with
    | (.error _, sender) => { link with sender }
    | (.ok _, sender) => { link with sender, accepted := link.accepted ++ [outgoing] }
  | .flushOutput results => { link with sender := (link.sender.flushOutput results).2.1 }
  | .receiveFrames out results =>
    match link.receiver.receiveFrames out results with
    | (.error _, receiver) => { link with receiver }
    | (.ok frames, receiver) => { link with receiver, delivered := link.delivered ++ frames }

def run (link : TcpLink) (calls : List Call) : TcpLink := calls.foldl call link

/-- Frames are not empty and not too long, and the socket takes all, some or none of the bytes. -/
def Call.Legal : Call → Prop
  | .sendFrame outgoing results => outgoing.Sendable ∧ Unbroken results
  | .flushOutput results => Unbroken results
  | .receiveFrames _ _ => True

/-- Between the sockets bytes arrive in order, in chunks of any sizes. -/
def LegalRun : TcpLink → List Call → Prop
  | _, [] => True
  | link, action :: calls => action.Legal ∧
      (link.call action).receiver.read <+: (link.call action).sender.sent ∧ LegalRun (link.call action) calls

instance : ∀ action : Call, Decidable action.Legal
  | .sendFrame _ _ => inferInstanceAs (Decidable (_ ∧ _))
  | .flushOutput results => inferInstanceAs (Decidable (Unbroken results))
  | .receiveFrames _ _ => .isTrue trivial

instance decidableLegalRun : ∀ (link : TcpLink) (calls : List Call), Decidable (LegalRun link calls)
  | _, [] => .isTrue trivial
  | link, action :: calls =>
    have := decidableLegalRun (link.call action) calls
    inferInstanceAs (Decidable (_ ∧ _ ∧ _))

structure Faithful (ssh : Bool) (link : TcpLink) : Prop where
  connected : link.sender.state = .connected
  active : link.sender.sshActive = ssh
  sendable : ∀ record ∈ link.accepted, record.Sendable
  stream : link.sender.sent ++ link.sender.outbox = (framingOf ssh).stream link.accepted
  delivers : link.receiver.Delivers ssh link.accepted link.delivered

variable {ssh : Bool} {link : TcpLink}

theorem faithful_start (ssh : Bool) : (start ssh).Faithful ssh := by
  refine ⟨rfl, rfl, by simp [start], rfl, [], [], ⟨rfl, ?_, .start _ _⟩, rfl⟩
  cases ssh with
  | false => exact ⟨rfl, rfl, rfl⟩
  | true => rfl

theorem Faithful.call (faithful : link.Faithful ssh) {action : Call} (legal : action.Legal)
    (arrived : (link.call action).receiver.read <+: (link.call action).sender.sent) :
    (link.call action).Faithful ssh := by
  cases action with
  | sendFrame outgoing results =>
    rcases ran : link.sender.sendFrame outgoing results with ⟨error | size, sender⟩
    all_goals
      have extended := (sendFrame_spec ran).2 legal.2
      have connected : sender.state = .connected := extended.frame ▸ faithful.connected
      have active : sender.sshActive = ssh := extended.frame ▸ faithful.active
      have stream := extended.stream
      simp only [Except.isOk, Except.toBool, faithful.stream, faithful.active] at stream
      simp only [TcpLink.call, ran]
    · exact ⟨connected, active, faithful.sendable, by simpa using stream, faithful.delivers⟩
    · refine ⟨connected, active, ?_, ?_, faithful.delivers.sent [outgoing]⟩
      · exact List.forall_mem_append.mpr ⟨faithful.sendable, List.forall_mem_singleton.mpr legal.1⟩
      · rw [stream, Framing.stream_append, if_pos trivial, Framing.stream, Framing.stream,
          List.flatMap_singleton]
  | flushOutput results =>
    rcases ran : link.sender.flushOutput results with ⟨outcome, sender, left⟩
    obtain ⟨extended, -⟩ := (flushOutput_spec ran).2 legal
    have stream := extended.stream
    rw [List.append_nil, faithful.stream] at stream
    simp only [TcpLink.call, ran]
    exact ⟨extended.frame ▸ faithful.connected, extended.frame ▸ faithful.active, faithful.sendable, stream,
      faithful.delivers⟩
  | receiveFrames out results =>
    rcases ran : link.receiver.receiveFrames out results with ⟨error | frames, receiver⟩
    all_goals
      simp only [TcpLink.call, ran] at arrived ⊢
      have inStream : receiver.read <+: (framingOf ssh).stream link.accepted :=
        faithful.stream ▸ arrived.trans (List.prefix_append _ _)
      obtain ⟨delivers, -⟩ := receiveFrames_spec faithful.sendable ran inStream faithful.delivers
    · refine { faithful with delivers := ?_ }
      simpa [Except.toOption] using delivers
    · exact { faithful with delivers }

theorem Faithful.run (faithful : link.Faithful ssh) (calls : List Call) (legal : LegalRun link calls) :
    (link.run calls).Faithful ssh := by
  induction calls generalizing link with
  | nil => exact faithful
  | cons action calls ih =>
    obtain ⟨first, arrived, rest⟩ := legal
    exact ih (faithful.call first arrived) rest

/-- What one side accepts is what the other returns. -/
theorem tcp_stream_faithful (ssh : Bool) (calls : List Call) (legal : LegalRun (start ssh) calls) :
    ((start ssh).run calls).sender.sent ++ ((start ssh).run calls).sender.outbox =
        (framingOf ssh).stream ((start ssh).run calls).accepted ∧
      ((start ssh).run calls).delivered <+: ((start ssh).run calls).accepted.map Outgoing.frame ∧
      ∀ out results outcome after,
        ((start ssh).run calls).receiver.receiveFrames out results = (outcome, after) →
        after.read <+: (framingOf ssh).stream ((start ssh).run calls).accepted →
        (((start ssh).run calls).receiver.state = .connected → .failed ∉ results → outcome.isOk) ∧
        (0 < out → outcome = .ok [] →
          after.read = (framingOf ssh).stream ((start ssh).run calls).accepted →
          ((start ssh).run calls).delivered = ((start ssh).run calls).accepted.map Outgoing.frame) := by
  have faithful := (faithful_start ssh).run calls legal
  refine ⟨faithful.stream, faithful.delivers.isPrefix, fun out results outcome after ran arrived => ?_⟩
  exact (receiveFrames_spec faithful.sendable ran arrived faithful.delivers).2

/-- Two SSH records, written and read in pieces. -/
def piecewise : List Call :=
  let record := SshFramer.record [1, 2, 3] 0 ++ SshFramer.record [4] 9
  [.sendFrame ⟨[1, 2, 3], 0⟩ [.sent 4], .sendFrame ⟨[4], 9⟩ [.interrupted, .sent 5, .sent 0],
    .sendFrame ⟨[4], 9⟩ [.sent 100, .sent 1], .receiveFrames 1 [.received (record.take 7)],
    .flushOutput [.sent 3, .sent 99], .receiveFrames 2 [.received ((record.drop 7).take 10), .interrupted],
    .receiveFrames 1 [.received (record.drop 17)]]

theorem tcp_stream_faithful_piecewise : LegalRun (start true) piecewise ∧
    ((start true).run piecewise).delivered = ((start true).run piecewise).accepted.map Outgoing.frame := by
  have legal : LegalRun (start true) piecewise := by decide +kernel
  obtain ⟨-, -, returns⟩ := tcp_stream_faithful true piecewise legal
  obtain ⟨-, finished⟩ := returns 1 [] _ _ rfl (by decide +kernel)
  exact ⟨legal, finished (by decide) (by decide +kernel) (by decide +kernel)⟩

/-- Two frames arrive in one read. The one is returned, and the next call has no room. -/
def noRoom : List Call :=
  [.sendFrame ⟨[1], 0⟩ [.sent 9], .sendFrame ⟨[2], 0⟩ [.sent 9],
    .receiveFrames 1 [.received (lengthPrefixed [1] ++ lengthPrefixed [2])]]

theorem no_room_returns_zero : LegalRun (start false) noRoom ∧
    (((start false).run noRoom).receiver.receiveFrames 0 []).1 = .ok [] ∧
    (((start false).run noRoom).receiver.receiveFrames 0 []).2.read =
      (framingOf false).stream ((start false).run noRoom).accepted ∧
    ((start false).run noRoom).delivered ≠ ((start false).run noRoom).accepted.map Outgoing.frame := by
  decide +kernel

end TcpLink

end Norr
