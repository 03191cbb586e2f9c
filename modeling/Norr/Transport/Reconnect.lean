import Norr.Transport.Connect

/-! What a connection inherits from the ones before it: the queue of decoded frames, which neither close nor
connect touches. -/

namespace Norr

namespace TcpTransport

/-- The transport with another queue of decoded frames. -/
def queued (transport : TcpTransport) (ready : List Bytes) (readyHead : ℕ) : TcpTransport :=
  { transport with ready, readyHead }

/-- Every decoded frame has been returned. -/
def Spent (transport : TcpTransport) : Prop := transport.ready.length ≤ transport.readyHead

instance (transport : TcpTransport) : Decidable transport.Spent := inferInstanceAs (Decidable (_ ≤ _))

variable (transport : TcpTransport) (ready : List Bytes) (readyHead : ℕ)

@[simp] theorem queued_state : (transport.queued ready readyHead).state = transport.state := rfl

@[simp] theorem queued_outbox : (transport.queued ready readyHead).outbox = transport.outbox := rfl

@[simp] theorem queued_recordFor (outgoing : Outgoing) :
    (transport.queued ready readyHead).recordFor outgoing = transport.recordFor outgoing := rfl

theorem queued_wrote (bytes : Bytes) :
    (transport.queued ready readyHead).wrote bytes = (transport.wrote bytes).queued ready readyHead := rfl

theorem writeLoop_queued (results : List SendResult) (bytes : Bytes) :
    writeLoop results (transport.queued ready readyHead) bytes =
      ((writeLoop results transport bytes).1, (writeLoop results transport bytes).2.1.queued ready readyHead,
        (writeLoop results transport bytes).2.2) := by
  fun_induction writeLoop results transport bytes with
  | case1 results transport => cases results <;> rfl
  | case2 transport bytes nonempty => rw [writeLoop.eq_2 _ _ nonempty]
  | case3 results transport bytes nonempty ih => rw [writeLoop.eq_3 _ _ _ nonempty, ih]
  | case4 results transport bytes nonempty => rw [writeLoop.eq_4 _ _ _ nonempty]
  | case5 results transport bytes nonempty =>
    rw [writeLoop.eq_5 _ _ _ nonempty]
    rfl
  | case6 results transport bytes nonempty => rw [writeLoop.eq_6 _ _ _ nonempty]
  | case7 count results transport bytes positive nonempty taken error broken rest failed ih =>
    rw [writeLoop.eq_7 _ _ _ _ nonempty positive]
    rw [queued_wrote, ih, failed]
  | case8 count results transport bytes positive nonempty taken written next rest wrote ih =>
    rw [writeLoop.eq_7 _ _ _ _ nonempty positive]
    rw [queued_wrote, ih, wrote]

theorem flushOutput_queued (results : List SendResult) :
    (transport.queued ready readyHead).flushOutput results =
      ((transport.flushOutput results).1, (transport.flushOutput results).2.1.queued ready readyHead,
        (transport.flushOutput results).2.2) := by
  simp only [flushOutput, queued_state, queued_outbox, writeLoop_queued]
  split_ifs
  · rfl
  · rcases writeLoop results transport transport.outbox with ⟨outcome, written, left⟩
    cases outcome <;> rfl

theorem sendFrame_queued (outgoing : Outgoing) (results : List SendResult) :
    (transport.queued ready readyHead).sendFrame outgoing results =
      ((transport.sendFrame outgoing results).1,
        (transport.sendFrame outgoing results).2.queued ready readyHead) := by
  simp only [sendFrame, queued_state, flushOutput_queued]
  split_ifs
  · rfl
  · rfl
  · rcases transport.flushOutput results with ⟨outcome, flushed, left⟩
    rcases outcome with error | drained
    · rfl
    · cases drained with
      | false => rfl
      | true =>
        simp only [queued_recordFor]
        cases flushed.recordFor outgoing with
        | error error => rfl
        | ok record =>
          simp only [writeLoop_queued]
          rcases writeLoop left flushed record with ⟨outcome, written, rest⟩
          cases outcome <;> rfl

theorem connect_queued (result : ConnectResult) :
    (transport.queued ready readyHead).connect result =
      ((transport.connect result).1, (transport.connect result).2.queued ready readyHead) := by
  rcases transport with ⟨state, _, _, _, _, _, _, _, _⟩
  cases state <;> cases result <;> rfl

theorem pollConnect_queued (result : PollResult) :
    (transport.queued ready readyHead).pollConnect result =
      ((transport.pollConnect result).1, (transport.pollConnect result).2.queued ready readyHead) := by
  rcases transport with ⟨state, _, _, _, _, _, _, _, _⟩
  cases state <;> cases result <;> rfl

/-- A queue that is used up plays no part in the refill. -/
theorem refill_queued {transport : TcpTransport} (spent : transport.Spent) {ready : List Bytes} {readyHead : ℕ}
    (other : (transport.queued ready readyHead).Spent) (out : ℕ) (reads : List ReadResult) :
    (transport.queued ready readyHead).refill out reads = transport.refill out reads := by
  simp only [Spent] at spent other
  rw [refill, refill, if_pos spent, if_pos other]
  rfl

end TcpTransport

namespace TcpConnection

variable {δ : Type} (codec : Camouflage δ)

def queued (connection : TcpConnection δ) (ready : List Bytes) (readyHead : ℕ) : TcpConnection δ :=
  { connection with transport := connection.transport.queued ready readyHead }

theorem sendFrame_queued (connection : TcpConnection δ) (ready : List Bytes) (readyHead : ℕ)
    (outgoing : Outgoing) (urgent : Bool) (results : List SendResult) :
    (connection.queued ready readyHead).sendFrame codec outgoing urgent results =
      (connection.sendFrame codec outgoing urgent results).queued ready readyHead := by
  rcases connection with ⟨transport, socket, camo⟩
  cases camo with
  | none => simp only [sendFrame, queued, TcpTransport.sendFrame_queued]
  | some camo =>
    simp only [sendFrame, queued, TcpTransport.queued_state, TcpTransport.flushOutput_queued]
    split_ifs
    · rfl
    · rcases transport.flushOutput results with ⟨outcome, flushed, left⟩
      rcases outcome with error | drained
      · rfl
      · simp only [TcpTransport.queued_outbox, TcpTransport.writeLoop_queued]
        split_ifs
        · rfl
        · rcases TcpTransport.writeLoop left flushed (codec.wrap camo outgoing.frame).1 with
            ⟨outcome, written, rest⟩
          cases outcome <;> rfl
        · rfl

/-- A connection sees the queue of decoded frames in receive_frames only. -/
theorem perform_queued (connection : TcpConnection δ) (ready : List Bytes) (readyHead : ℕ) (action : TcpAction δ)
    (other : connection.returned codec action = none) :
    (connection.queued ready readyHead).perform codec action =
      (connection.perform codec action).queued ready readyHead := by
  cases action with
  | connect result =>
    simp only [perform, connect, queued, TcpTransport.connect_queued]
    rcases connection.transport.connect result with ⟨outcome, after⟩
    cases outcome <;> rfl
  | pollConnect result =>
    simp only [perform, pollConnect, queued, TcpTransport.queued_state, TcpTransport.pollConnect_queued]
    rfl
  | close => rfl
  | enableSsh client =>
    simp only [perform, enableSsh]
    rw [apply_ite (fun after => queued after ready readyHead)]
    rfl
  | enableCamouflage camo hello =>
    simp only [perform, enableCamouflage]
    rw [apply_ite (fun after => queued after ready readyHead)]
    rfl
  | flushOutput results => simp only [perform, queued, TcpTransport.flushOutput_queued]
  | greetingFailed =>
    simp only [perform]
    rw [apply_ite (fun after => queued after ready readyHead)]
    rfl
  | sendFrame outgoing urgent results =>
    exact sendFrame_queued codec connection ready readyHead outgoing urgent results
  | receiveFrames out reads sends => cases other

/-- Receiving starts a queue that is used up anew. -/
theorem receiveFrames_queued {connection : TcpConnection δ} (spent : connection.transport.Spent)
    {ready : List Bytes} {readyHead : ℕ} (other : (connection.transport.queued ready readyHead).Spent)
    (out : ℕ) (reads : List ReadResult) (sends : List SendResult) :
    (connection.queued ready readyHead).receiveFrames codec out reads sends =
        connection.receiveFrames codec out reads sends ∨
      ((connection.queued ready readyHead).receiveFrames codec out reads sends).1 =
          (connection.receiveFrames codec out reads sends).1 ∧
        (connection.receiveFrames codec out reads sends).2 = connection ∧
        ((connection.queued ready readyHead).receiveFrames codec out reads sends).2 =
          connection.queued ready readyHead := by
  rcases connection with ⟨transport, socket, camo⟩
  by_cases idle : transport.state ≠ .connected ∨ out = 0
  · right
    cases camo <;>
      rcases idle with closed | rfl <;>
      by_cases connected : transport.state = .connected <;>
      simp_all [receiveFrames, queued, TcpTransport.receiveFrames]
  · left
    simp only [not_or, not_not] at idle
    cases camo with
    | none =>
      simp only [receiveFrames, queued, TcpTransport.receiveFrames, TcpTransport.queued_state, idle.1, ne_eq,
        not_true_eq_false, if_false, idle.2, TcpTransport.refill_queued spent other]
    | some camo =>
      have refill : camoRefill codec out reads sends (transport.queued ready readyHead) camo =
          camoRefill codec out reads sends transport camo := by
        simp only [TcpTransport.Spent] at spent other
        rw [camoRefill, camoRefill, if_pos spent, if_pos other]
        rfl
      simp only [receiveFrames, queued, TcpTransport.queued_state, idle.1, ne_eq, not_true_eq_false, if_false,
        idle.2, refill]

theorem returned_or (action : TcpAction δ) :
    (∀ connection : TcpConnection δ, connection.returned codec action = none) ∨
      ∃ out reads sends, action = .receiveFrames out reads sends := by
  cases action with
  | receiveFrames out reads sends => exact .inr ⟨out, reads, sends, rfl⟩
  | _ => exact .inl fun _ => rfl

/-- An action that returns no frames leaves a queue that is used up so. -/
theorem perform_spent {connection : TcpConnection δ} (spent : connection.transport.Spent) {action : TcpAction δ}
    (other : connection.returned codec action = none) : (connection.perform codec action).transport.Spent := by
  have same := perform_queued codec connection connection.transport.ready connection.transport.readyHead action other
  change connection.perform codec action = _ at same
  rw [same]
  exact spent

/-- The two differ in their queues at most, and both queues are used up then. -/
def Alike (first second : TcpConnection δ) : Prop :=
  first = second ∨ first.transport.Spent ∧ ∃ ready readyHead, second = first.queued ready readyHead ∧
    (first.transport.queued ready readyHead).Spent

theorem Alike.perform {first second : TcpConnection δ} (alike : first.Alike second) (action : TcpAction δ) :
    first.returned codec action = second.returned codec action ∧
      (first.perform codec action).Alike (second.perform codec action) := by
  rcases alike with rfl | ⟨spent, ready, readyHead, rfl, other⟩
  · exact ⟨rfl, .inl rfl⟩
  rcases returned_or codec action with silent | ⟨out, reads, sends, rfl⟩
  · rw [silent, silent, perform_queued codec first ready readyHead action (silent _)]
    exact ⟨rfl, .inr ⟨perform_spent codec spent (silent _), ready, readyHead, rfl, other⟩⟩
  · rcases receiveFrames_queued codec spent other out reads sends with same | ⟨answer, kept, alsoKept⟩
    · simp only [returned, TcpConnection.perform, same]
      exact ⟨trivial, .inl rfl⟩
    · simp only [returned, TcpConnection.perform, answer, kept, alsoKept]
      exact ⟨trivial, .inr ⟨spent, ready, readyHead, rfl, other⟩⟩

theorem Alike.returns {first second : TcpConnection δ} (alike : first.Alike second) (actions : List (TcpAction δ)) :
    first.returns codec actions = second.returns codec actions := by
  induction actions generalizing first second with
  | nil => rfl
  | cons action actions ih =>
    have step := alike.perform codec action
    rw [TcpConnection.returns, TcpConnection.returns, step.1, ih step.2]

/-- The connect opens a new connection. -/
def Opens (connection : TcpConnection δ) (result : ConnectResult) : Prop :=
  connection.transport.state ≠ .connected ∧ connection.transport.state ≠ .connecting ∧
    (result = .connected ∨ result = .inProgress)

/-- Nothing is left of the connection before. -/
structure Clean (connection : TcpConnection δ) : Prop where
  spent : connection.transport.Spent
  unread : connection.transport.sshReassembly = []
  bare : connection.camo = none

/-- A transport that has had no connection, with the frame limit and the mode of this one. -/
def anew (connection : TcpConnection δ) : TcpConnection δ where
  transport :=
    { reassembler := connection.transport.reassembler.reset, sshActive := connection.transport.sshActive }

theorem connect_alike {connection : TcpConnection δ} {result : ConnectResult} (opens : connection.Opens result)
    (clean : connection.Clean) : (connection.connect result).Alike (connection.anew.connect result) := by
  obtain ⟨spent, unread, bare⟩ := clean
  obtain ⟨unconnected, idle, result⟩ := opens
  have free : ¬(connection.transport.state = .connected ∨ connection.transport.state = .connecting) :=
    not_or.mpr ⟨unconnected, idle⟩
  right
  rcases result with rfl | rfl <;>
    simp only [connect, TcpTransport.connect, if_neg free] <;>
    exact ⟨spent, [], 0, by simp [anew, queued, TcpTransport.queued, TcpTransport.dialled, unread, bare,
      FrameReassembler.reset], Nat.zero_le _⟩

/-- After a clean opening receive_frames returns what it returns on a transport that never was connected. -/
theorem clean_opening_inherits_nothing (earlier later : List (TcpAction δ)) (result : ConnectResult)
    (opens : (run codec {} earlier).Opens result) (clean : (run codec {} earlier).Clean) :
    (run codec {} earlier).returns codec (.connect result :: later) =
      (run codec {} earlier).anew.returns codec (.connect result :: later) := by
  have alike := connect_alike opens clean
  simp only [returns, returned, perform, alike.returns codec later]

/-- No camouflage can be made. -/
def uncamouflaged : Camouflage Empty where
  feed := nofun
  payloads := nofun
  violated := nofun
  takeHandshakeReply := nofun
  wrap := nofun

/-- The second connection returns its own frame alone, though the first had one as well. -/
theorem returned_queue_reconnects :
    let before := run uncamouflaged {} [.connect .connected, .receiveFrames 1 [.received [0, 1, 7]] [], .close]
    before.returns uncamouflaged [.connect .connected, .receiveFrames 2 [.received [0, 1, 8]] []] =
        before.anew.returns uncamouflaged [.connect .connected, .receiveFrames 2 [.received [0, 1, 8]] []] ∧
      before.returns uncamouflaged [.connect .connected, .receiveFrames 2 [.received [0, 1, 8]] []] =
        [none, some (.ok [[8]])] :=
  ⟨clean_opening_inherits_nothing uncamouflaged _ _ _ ⟨by decide, by decide, .inl rfl⟩ ⟨by decide, rfl, rfl⟩, rfl⟩

/-- A read fails after a frame was decoded; the next connection returns that frame and has read nothing. -/
theorem stale_frame_returned :
    let before :=
      run uncamouflaged {} [.connect .connected, .receiveFrames 2 [.received [0, 1, 7], .failed] [], .close]
    before.Opens .connected ∧
      before.returns uncamouflaged [.connect .connected, .receiveFrames 1 [] []] = [none, some (.ok [[7]])] ∧
      (run uncamouflaged before [.connect .connected, .receiveFrames 1 [] []]).transport.read = [] ∧
      before.anew.returns uncamouflaged [.connect .connected, .receiveFrames 1 [] []] = [none, some (.ok [])] :=
  ⟨⟨by decide, by decide, .inl rfl⟩, rfl, rfl, rfl⟩

end TcpConnection

end Norr
