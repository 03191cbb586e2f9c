import Norr.Transport.Stream

/-! The greeting of a mail or chat service in front of the frames: `greet_script` and `poll_pop3` of
`tcp_transport.cpp`, on a socket whose stream and results are given. -/

namespace Norr

inductive GreetProfile
  | pop3
  | smtp
  | xmpp
  deriving DecidableEq, Repr

structure GreetScript where
  greeting : Bytes
  clientReply : Bytes
  serverAck : Bytes
  clientFinal : Bytes
  serverFinal : Bytes

def text (characters : String) : Bytes := characters.toList.map fun character => UInt8.ofNat character.toNat

def greetScript : GreetProfile → GreetScript
  | .smtp =>
    { greeting := text "220 mail.example.com ESMTP Postfix\r\n"
      clientReply := text "EHLO localhost\r\n"
      serverAck := text "250-mail.example.com\r\n"
      clientFinal := text "MAIL FROM:<norr@localhost>\r\n"
      serverFinal := text "250 2.1.0 Ok\r\n" }
  | .xmpp =>
    { greeting := text ("<stream:stream xmlns='jabber:client' " ++
        "xmlns:stream='http://etherx.jabber.org/streams' version='1.0'>\r\n")
      clientReply := text ("<?xml version='1.0'?><stream:stream to='example.com' " ++
        "xmlns='jabber:client' version='1.0'>\r\n")
      serverAck := text "<stream:features/>\r\n"
      clientFinal := text "<iq type='get' id='n1'><ping xmlns='urn:xmpp:ping'/></iq>\r\n"
      serverFinal := text "<iq type='result' id='n1'/>\r\n" }
  | .pop3 =>
    { greeting := text "+OK POP3 ready\r\n"
      clientReply := text "USER norr\r\n"
      serverAck := text "+OK\r\n"
      clientFinal := text "PASS norr\r\n"
      serverFinal := text "+OK logged in\r\n" }

def newline : UInt8 := 10

def countLines (bytes : Bytes) : ℕ := bytes.count newline

/-- What one ::recv of an octet comes to: the next one has arrived, or there is none. -/
inductive Arrival
  | next
  | interrupted
  | wouldBlock
  | closed
  | failed
  deriving DecidableEq

/-- A transport with its members for the greeting; `polled` is the history of what they have read. -/
structure Greeter where
  transport : TcpTransport
  client : Bool
  profile : GreetProfile
  ready : Bool := false
  step : ℕ := 0
  inbox : Bytes := []
  polled : Bytes := []

namespace Greeter

/-- The loop of poll_pop3 over the socket, with what it has taken. Without results nothing more has arrived. -/
def recvLoop (needed : ℕ) (inbox : Bytes) : List Arrival → Bytes → Bytes → Bool × Bytes
  | [], _, taken => (true, taken)
  | arrival :: arrivals, channel, taken =>
    if needed ≤ countLines (inbox ++ taken) then (true, taken)
    else
      match arrival, channel with
      | .next, [] => (true, taken)
      | .next, octet :: channel => recvLoop needed inbox arrivals channel (taken ++ [octet])
      | .interrupted, channel => recvLoop needed inbox arrivals channel taken
      | .wouldBlock, _ => (true, taken)
      | .closed, _ => (false, taken)
      | .failed, _ => (false, taken)

def enablePop3 (transport : TcpTransport) (client : Bool) (profile : GreetProfile) : Greeter :=
  { transport := if client then transport
      else { transport with outbox := transport.outbox ++ (greetScript profile).greeting }
    client
    profile }

/-- A line is there at step `current`: it is answered, and the inbox is cleared. -/
def advance (current following : ℕ) (line : Bytes) (ready : Bool) (greeter : Greeter) : Greeter :=
  if greeter.step = current ∧ 1 ≤ countLines greeter.inbox then
    { greeter with
      transport := { greeter.transport with outbox := greeter.transport.outbox ++ line }
      step := following
      ready := greeter.ready || ready
      inbox := [] }
  else greeter

def answer (greeter : Greeter) : Greeter :=
  let script := greetScript greeter.profile
  if greeter.client then
    advance 2 2 [] true (advance 1 2 script.clientFinal false (advance 0 1 script.clientReply false greeter))
  else advance 1 2 script.serverFinal true (advance 0 1 script.serverAck false greeter)

def flush (greeter : Greeter) (results : List SendResult) : Greeter :=
  if greeter.transport.outbox = [] then greeter
  else { greeter with transport := (greeter.transport.flushOutput results).2.1 }

/-- What poll_pop3 does once nothing is left to be written. -/
def readAndAnswer (greeter : Greeter) (channel : Bytes) (arrivals : List Arrival) (results : List SendResult) :
    Except TransportError Bool × Greeter :=
  let (alive, taken) := recvLoop (greeter.step + 1) greeter.inbox arrivals channel []
  let greeter := { greeter with inbox := greeter.inbox ++ taken, polled := greeter.polled ++ taken }
  if alive then
    let greeter := greeter.answer.flush results
    (.ok greeter.ready, greeter)
  else (.error .receiveFailed, { greeter with transport := greeter.transport.fail })

/-- poll_pop3 after enable_pop3; `channel` is what the peer has sent and this side has not read. -/
def pollPop3 (greeter : Greeter) (channel : Bytes) (before : List SendResult) (arrivals : List Arrival)
    (after : List SendResult) : Except TransportError Bool × Greeter :=
  if greeter.transport.state ≠ .connected then (.error .notStarted, greeter)
  else if greeter.ready then (.ok true, greeter)
  else if greeter.transport.outbox = [] then greeter.readAndAnswer channel arrivals after
  else
    match greeter.transport.flushOutput before with
    | (.error error, transport, _) => (.error error, { greeter with transport })
    | (.ok _, transport, _) =>
      let greeter := { greeter with transport }
      if transport.outbox = [] then greeter.readAndAnswer channel arrivals after else (.ok false, greeter)

end Greeter

end Norr
