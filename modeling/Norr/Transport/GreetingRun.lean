import Norr.Lib.Runs
import Norr.Transport.Greeting

/-! Both ends of a connection that begins with a greeting, and what poll_pop3 does to one of them. -/

namespace Norr

open TcpTransport

inductive Side
  | client
  | server
  deriving DecidableEq

namespace Side

def other : Side → Side
  | client => server
  | server => client

/-- The lines of the greeting that come from this side. -/
def lines (profile : GreetProfile) : Side → List Bytes
  | client => [(greetScript profile).clientReply, (greetScript profile).clientFinal]
  | server => [(greetScript profile).greeting, (greetScript profile).serverAck, (greetScript profile).serverFinal]

/-- The lines that are said before any is heard. -/
def opening : Side → ℕ
  | client => 0
  | server => 1

end Side

/-- One end, with the frames that were accepted from it and returned to it. -/
structure Party where
  greeter : Greeter
  accepted : List Outgoing := []
  delivered : List Bytes := []

/-- What has been sent to a party that it has not read in the course of the greeting. -/
def Party.channel (me peer : Party) : Bytes := peer.greeter.transport.sent.drop me.greeter.polled.length

structure Exchange where
  client : Party
  server : Party

namespace Exchange

def party (exchange : Exchange) : Side → Party
  | .client => exchange.client
  | .server => exchange.server

def update (exchange : Exchange) (party : Party) : Side → Exchange
  | .client => { exchange with client := party }
  | .server => { exchange with server := party }

/-- Frames are sent and received once poll_pop3 has reported that the side is ready. -/
inductive Action
  | poll (side : Side) (before : List SendResult) (arrivals : List Arrival) (after : List SendResult)
  | sendFrame (side : Side) (outgoing : Outgoing) (results : List SendResult)
  | flushOutput (side : Side) (results : List SendResult)
  | receiveFrames (side : Side) (out : ℕ) (results : List ReadResult)

def act (me peer : Party) : Action → Party
  | .poll _ before arrivals after =>
    { me with greeter := (me.greeter.pollPop3 (me.channel peer) before arrivals after).2 }
  | .sendFrame _ outgoing results =>
    if me.greeter.ready then
      match me.greeter.transport.sendFrame outgoing results with
      | (.error _, transport) => { me with greeter := { me.greeter with transport } }
      | (.ok _, transport) =>
        { me with greeter := { me.greeter with transport }, accepted := me.accepted ++ [outgoing] }
    else me
  | .flushOutput _ results =>
    if me.greeter.ready then
      { me with greeter := { me.greeter with transport := (me.greeter.transport.flushOutput results).2.1 } }
    else me
  | .receiveFrames _ out results =>
    if me.greeter.ready then
      match me.greeter.transport.receiveFrames out results with
      | (.error _, transport) => { me with greeter := { me.greeter with transport } }
      | (.ok frames, transport) =>
        { me with greeter := { me.greeter with transport }, delivered := me.delivered ++ frames }
    else me

def Action.side : Action → Side
  | .poll side _ _ _ => side
  | .sendFrame side _ _ => side
  | .flushOutput side _ => side
  | .receiveFrames side _ _ => side

def perform (exchange : Exchange) (action : Action) : Exchange :=
  exchange.update (act (exchange.party action.side) (exchange.party action.side.other) action) action.side

def start (profile : GreetProfile) : Exchange :=
  { client := { greeter := Greeter.enablePop3 (TcpLink.established false) true profile }
    server := { greeter := Greeter.enablePop3 (TcpLink.established false) false profile } }

def run (profile : GreetProfile) (actions : List Action) : Exchange := actions.foldl perform (start profile)

/-- The calls of the socket do not fail, and what is read has been sent. -/
def Legal (exchange : Exchange) (action : Action) : Prop :=
  match action with
  | .poll _ before arrivals after => Unbroken before ∧ Unbroken after ∧ .closed ∉ arrivals ∧ .failed ∉ arrivals
  | .sendFrame _ outgoing results => outgoing.Sendable ∧ Unbroken results
  | .flushOutput _ results => Unbroken results
  | .receiveFrames side out results =>
    ((exchange.party side).greeter.transport.receiveFrames out results).2.read <+:
      (exchange.party side).channel (exchange.party side.other)

end Exchange

/-- What a poll finds in the socket until there is nothing more. -/
def offered : List Arrival → Bytes → Bytes
  | .next :: arrivals, octet :: channel => octet :: offered arrivals channel
  | .interrupted :: arrivals, channel => offered arrivals channel
  | _, _ => []

namespace Exchange

/-- The greeting takes the lines of the peer and nothing else, and the frames come as they were sent. -/
structure Exact (profile : GreetProfile) (exchange : Exchange) : Prop where
  polled : ∀ side, (exchange.party side).greeter.polled <+: (side.other.lines profile).flatten
  ready : ∀ side, (exchange.party side).greeter.ready = true →
    (exchange.party side).greeter.polled = (side.other.lines profile).flatten
  frames : ∀ side, (exchange.party side).delivered <+: (exchange.party side.other).accepted.map Outgoing.frame

/-- A poll of the client that finds no octet behind the last line of the server. -/
def Clean (profile : GreetProfile) (exchange : Exchange) : Action → Prop
  | .poll .client _ arrivals _ => exchange.client.greeter.ready = false →
      exchange.client.greeter.transport.state = .connected →
      exchange.client.greeter.polled.length + (offered arrivals (exchange.client.channel exchange.server)).length ≤
        (Side.server.lines profile).flatten.length
  | _ => True

instance (exchange : Exchange) : ∀ action, Decidable (exchange.Legal action)
  | .poll _ _ _ _ => inferInstanceAs (Decidable (_ ∧ _ ∧ _ ∧ _))
  | .sendFrame _ _ _ => inferInstanceAs (Decidable (_ ∧ _))
  | .flushOutput _ results => inferInstanceAs (Decidable (Unbroken results))
  | .receiveFrames _ _ _ => inferInstanceAs (Decidable (_ <+: _))

instance (profile : GreetProfile) (exchange : Exchange) : ∀ action, Decidable (exchange.Clean profile action)
  | .poll .client _ _ _ => inferInstanceAs (Decidable (_ → _ → _))
  | .poll .server _ _ _ => .isTrue trivial
  | .sendFrame _ _ _ => .isTrue trivial
  | .flushOutput _ _ => .isTrue trivial
  | .receiveFrames _ _ _ => .isTrue trivial

end Exchange

/-! The loop over the socket -/

theorem offered_isPrefix (arrivals : List Arrival) (channel : Bytes) : offered arrivals channel <+: channel := by
  fun_induction offered arrivals channel with
  | case1 arrivals octet channel ih => exact (List.prefix_cons_inj octet).mpr ih
  | case2 arrivals channel ih => exact ih
  | case3 => exact List.nil_prefix

theorem recvLoop_spec (needed : ℕ) (inbox : Bytes) {arrivals : List Arrival} (channel taken : Bytes)
    (unclosed : .closed ∉ arrivals) (unbroken : .failed ∉ arrivals) :
    ∃ more, Greeter.recvLoop needed inbox arrivals channel taken = (true, taken ++ more) ∧
      more <+: offered arrivals channel ∧
      (more = offered arrivals channel ∨ needed ≤ countLines (inbox ++ taken ++ more)) := by
  fun_induction Greeter.recvLoop needed inbox arrivals channel taken with
  | case1 channel taken => exact ⟨[], by rw [List.append_nil], List.nil_prefix, Or.inl rfl⟩
  | case2 arrival arrivals channel taken enough =>
    exact ⟨[], by rw [List.append_nil], List.nil_prefix, Or.inr (by rwa [List.append_nil])⟩
  | case3 arrivals taken few => exact ⟨[], by rw [List.append_nil], List.nil_prefix, Or.inl rfl⟩
  | case4 arrivals taken few octet channel ih =>
    obtain ⟨more, result, within, rest⟩ := ih (fun member => unclosed (List.mem_cons_of_mem _ member))
      (fun member => unbroken (List.mem_cons_of_mem _ member))
    refine ⟨octet :: more, ?_, (List.prefix_cons_inj octet).mpr within, ?_⟩
    · rw [result, List.append_assoc]
      rfl
    · refine rest.imp (congrArg _) ?_
      intro enough
      simpa only [List.append_assoc, List.singleton_append] using enough
  | case5 arrivals taken few channel ih =>
    exact ih (fun member => unclosed (List.mem_cons_of_mem _ member))
      (fun member => unbroken (List.mem_cons_of_mem _ member))
  | case6 arrivals taken few channel => exact ⟨[], by rw [List.append_nil], List.nil_prefix, Or.inl rfl⟩
  | case7 => exact absurd List.mem_cons_self unclosed
  | case8 => exact absurd List.mem_cons_self unbroken

/-! Lines -/

/-- A line is ended by its only newline. -/
def IsLine (line : Bytes) : Prop := ∃ content, line = content ++ [newline] ∧ countLines content = 0

theorem isLine_of_parts {line : Bytes} (last : line.getLast? = some newline) (one : countLines line = 1) :
    IsLine line := by
  obtain ⟨content, rfl⟩ := List.getLast?_eq_some_iff.mp last
  refine ⟨content, rfl, ?_⟩
  rw [countLines, List.count_append] at one
  simpa [countLines] using one

theorem lines_areLines (profile : GreetProfile) (side : Side) : ∀ line ∈ side.lines profile, IsLine line := by
  have ended : ∀ line ∈ side.lines profile, line.getLast? = some newline ∧ countLines line = 1 := by
    cases profile <;> cases side <;> decide +kernel
  exact fun line member => isLine_of_parts (ended line member).1 (ended line member).2

theorem IsLine.countLines_eq {line : Bytes} (isLine : IsLine line) : countLines line = 1 := by
  obtain ⟨content, rfl, none⟩ := isLine
  rw [countLines] at none ⊢
  rw [List.count_append, none]
  rfl

/-- Short of its end a line has no newline. -/
theorem IsLine.countLines_isPrefix {line part : Bytes} (isLine : IsLine line) (within : part <+: line)
    (short : part ≠ line) : countLines part = 0 := by
  obtain ⟨content, rfl, none⟩ := isLine
  rcases List.prefix_concat_iff.mp within with whole | less
  · exact absurd whole short
  · exact Nat.eq_zero_of_le_zero ((less.sublist.count_le newline).trans_eq none)

/-! What poll_pop3 does -/

/-- The line that answers the one heard at a step, if any is left to say. -/
def Side.reply (profile : GreetProfile) (side : Side) (step : ℕ) : Bytes :=
  ((side.lines profile)[side.opening + step]?).getD []

namespace Greeter

variable {side : Side} {me after : Greeter} {taken : Bytes}

theorem answer_idle (none : countLines me.inbox = 0) : me.answer = me := by
  simp [answer, advance, none]

theorem answer_line (me : Greeter) (role : me.client = decide (side = .client)) (waiting : me.ready = false)
    (steps : me.step < (side.other.lines me.profile).length) (line : 1 ≤ countLines me.inbox) :
    me.answer =
      { me with
        transport := { me.transport with outbox := me.transport.outbox ++ side.reply me.profile me.step }
        step := min (me.step + 1) 2
        ready := decide (me.step + 1 = (side.other.lines me.profile).length)
        inbox := [] } := by
  have nothing : ¬ 1 ≤ countLines [] := by decide
  cases side with
  | client =>
    obtain zero | one | two : me.step = 0 ∨ me.step = 1 ∨ me.step = 2 := by
      simp only [Side.other, Side.lines, List.length_cons, List.length_nil] at steps
      omega
    · simp [answer, advance, role, zero, line, waiting, nothing, Side.reply, Side.lines, Side.other, Side.opening]
    · simp [answer, advance, role, one, line, waiting, nothing, Side.reply, Side.lines, Side.other, Side.opening]
    · simp [answer, advance, role, two, line, Side.reply, Side.lines, Side.other, Side.opening]
  | server =>
    obtain zero | one : me.step = 0 ∨ me.step = 1 := by
      simp only [Side.other, Side.lines, List.length_cons, List.length_nil] at steps
      omega
    · simp [answer, advance, role, zero, line, waiting, nothing, Side.reply, Side.lines, Side.other, Side.opening]
    · simp [answer, advance, role, one, line, Side.reply, Side.lines, Side.other, Side.opening]

/-- What has been read is kept for the next poll. -/
structure Waits (me : Greeter) (taken : Bytes) (after : Greeter) : Prop where
  same : after = { me with transport := after.transport, inbox := me.inbox ++ taken, polled := me.polled ++ taken }
  flushes : me.transport.Extends [] after.transport

/-- What has been read is a line, and it is answered. -/
structure Answers (side : Side) (me : Greeter) (taken : Bytes) (after : Greeter) : Prop where
  same : after = { me with
    transport := after.transport
    step := min (me.step + 1) 2
    ready := decide (me.step + 1 = (side.other.lines me.profile).length)
    inbox := []
    polled := me.polled ++ taken }
  flushes : me.transport.Extends (side.reply me.profile me.step) after.transport

/-- What has been read of an offer, and what came of it. -/
structure Heard (side : Side) (me : Greeter) (offer taken : Bytes) (after : Greeter) : Prop where
  within : taken <+: offer
  rest : taken = offer ∨ me.step + 1 ≤ countLines (me.inbox ++ taken)
  result : countLines (me.inbox ++ taken) = 0 ∧ me.Waits taken after ∨
    1 ≤ countLines (me.inbox ++ taken) ∧ me.Answers side taken after

theorem flush_flushes (greeter : Greeter) {results : List SendResult} (unbroken : Unbroken results) :
    greeter.flush results = { greeter with transport := (greeter.flush results).transport } ∧
      greeter.transport.Extends [] (greeter.flush results).transport := by
  rw [flush]
  split
  · exact ⟨rfl, .refl _⟩
  · exact ⟨rfl, ((flushOutput_spec rfl).2 unbroken).1⟩

theorem readAndAnswer_cases (me : Greeter) (channel : Bytes) {arrivals : List Arrival} {results : List SendResult}
    (role : me.client = decide (side = .client)) (waiting : me.ready = false)
    (steps : me.step < (side.other.lines me.profile).length) (unclosed : .closed ∉ arrivals)
    (unfailed : .failed ∉ arrivals) (unbroken : Unbroken results) :
    ∃ taken, me.Heard side (offered arrivals channel) taken (me.readAndAnswer channel arrivals results).2 := by
  obtain ⟨taken, received, within, rest⟩ := recvLoop_spec (me.step + 1) me.inbox channel [] unclosed unfailed
  rw [List.nil_append] at received
  rw [List.append_nil] at rest
  refine ⟨taken, within, rest, ?_⟩
  set heard : Greeter := { me with inbox := me.inbox ++ taken, polled := me.polled ++ taken } with heard_eq
  have result : (me.readAndAnswer channel arrivals results).2 = heard.answer.flush results := by
    rw [readAndAnswer, received]
    rfl
  rw [result]
  obtain ⟨same, flushes⟩ := flush_flushes heard.answer unbroken
  rcases Nat.eq_zero_or_pos (countLines (me.inbox ++ taken)) with none | line
  · have idle : heard.answer = heard := answer_idle none
    rw [idle] at same flushes ⊢
    exact Or.inl ⟨none, same, flushes⟩
  · have answered := answer_line heard role waiting steps line
    refine Or.inr ⟨line, ?_, ?_⟩
    · rw [same, answered]
    · have said : me.transport.Extends (side.reply me.profile me.step) heard.answer.transport := by
        rw [answered]
        exact ⟨rfl, by simp [heard_eq], List.prefix_refl _⟩
      simpa using said.trans flushes

theorem pollPop3_idle (me : Greeter) (channel : Bytes) (before : List SendResult) (arrivals : List Arrival)
    (results : List SendResult) (idle : ¬ (me.ready = false ∧ me.transport.state = .connected)) :
    (me.pollPop3 channel before arrivals results).2 = me := by
  rw [pollPop3]
  split_ifs with lost done
  · rfl
  · rfl
  all_goals exact absurd ⟨by simpa using done, not_not.mp lost⟩ idle

/-- Everything that a poll can do while the greeting lasts. -/
theorem pollPop3_cases (me : Greeter) (channel : Bytes) {before results : List SendResult} {arrivals : List Arrival}
    (role : me.client = decide (side = .client)) (waiting : me.ready = false)
    (steps : me.step < (side.other.lines me.profile).length) (connected : me.transport.state = .connected)
    (unbroken : Unbroken before) (unclosed : .closed ∉ arrivals) (unfailed : .failed ∉ arrivals)
    (unbroken' : Unbroken results) :
    me.transport.outbox ≠ [] ∧ me.Waits [] (me.pollPop3 channel before arrivals results).2 ∨
    ∃ taken, me.Heard side (offered arrivals channel) taken (me.pollPop3 channel before arrivals results).2 := by
  rw [pollPop3, if_neg (not_not.mpr connected), if_neg (by rw [waiting]; decide)]
  split_ifs with drained
  · exact Or.inr (readAndAnswer_cases me channel role waiting steps unclosed unfailed unbroken')
  · rcases flushed : me.transport.flushOutput before with ⟨outcome, transport, left⟩
    obtain ⟨flushes, -, ok⟩ := (flushOutput_spec flushed).2 unbroken
    cases outcome with
    | error error => cases ok connected
    | ok empty =>
      dsimp only
      split_ifs with done
      · right
        obtain ⟨taken, heard⟩ :=
          readAndAnswer_cases { me with transport } channel role waiting steps unclosed unfailed unbroken'
        refine ⟨taken, heard.within, heard.rest, heard.result.imp (And.imp_right ?_) (And.imp_right ?_)⟩
        · exact fun waits => ⟨waits.same, flushes.trans waits.flushes⟩
        · exact fun answers => ⟨answers.same, flushes.trans answers.flushes⟩
      · exact Or.inl ⟨drained, by simp, flushes⟩

end Greeter

end Norr
