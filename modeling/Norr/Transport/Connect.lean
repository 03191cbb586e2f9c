import Norr.Transport.Greeting

/-! One TcpTransport over several connections: connect, poll_connect, close and the modes of
`tcp_transport.cpp`. The camouflage is a decoder of its own; TLS is what ::read returns, and the greetings
before the first frame are elsewhere. -/

namespace Norr

inductive ConnectResult
  | noSocket
  | noOption
  | connected
  | inProgress
  | refused
  deriving DecidableEq

/-- What SO_ERROR says while connecting. -/
inductive PollResult
  | unreadable
  | pending
  | refused
  | established
  deriving DecidableEq

def kTcpOutboxLimit : ℕ := 4 * 1024 * 1024

def kSshClientBanner : Bytes := text "SSH-2.0-OpenSSH_9.6p1 Ubuntu-3ubuntu13\r\n"
def kSshServerBanner : Bytes := text "SSH-2.0-OpenSSH_9.6p1 Ubuntu-3ubuntu13.5\r\n"

namespace TcpTransport

/-- The transport on a new socket, whose histories are empty. -/
def dialled (transport : TcpTransport) (state : TcpState) : TcpTransport :=
  { transport with state, outbox := [], reassembler := transport.reassembler.reset, sent := [], read := [] }

def connect (transport : TcpTransport) (result : ConnectResult) : Except TransportError Unit × TcpTransport :=
  if transport.state = .connected ∨ transport.state = .connecting then (.error .alreadyStarted, transport)
  else
    match result with
    | .noSocket => (.error .socketCreationFailed, transport)
    | .noOption => (.error .socketOptionFailed, transport)
    | .connected => (.ok (), transport.dialled .connected)
    | .inProgress => (.ok (), transport.dialled .connecting)
    | .refused => (.error .sendFailed, { transport with outbox := [], state := .failed })

def pollConnect (transport : TcpTransport) (result : PollResult) : Except TransportError Bool × TcpTransport :=
  if transport.state = .connected then (.ok true, transport)
  else if transport.state ≠ .connecting then (.error .notStarted, transport)
  else
    match result with
    | .unreadable => (.error .socketOptionFailed, transport.fail)
    | .pending => (.ok false, transport)
    | .refused => (.error .sendFailed, transport.fail)
    | .established => (.ok true, { transport with state := .connected })

def close (transport : TcpTransport) : TcpTransport :=
  { transport with
    state := .closed
    reassembler := transport.reassembler.reset
    outbox := []
    sshActive := false
    sshReassembly := [] }

end TcpTransport

/-- A camouflage; `payloads` is the loop over next_payload. -/
structure Camouflage (δ : Type) where
  feed : δ → Bytes → δ
  payloads : δ → List Bytes × δ
  violated : δ → Bool
  takeHandshakeReply : δ → Bytes × δ
  wrap : δ → Bytes → Bytes × δ

structure TcpConnection (δ : Type) where
  transport : TcpTransport := {}
  socket : Bool := false
  camo : Option δ := none

namespace TcpConnection

variable {δ : Type} (codec : Camouflage δ)

/-- The loop of receive_frames with a camouflage. -/
def camoLoop (out : ℕ) : List ReadResult → TcpTransport → δ → Except TransportError Unit × TcpTransport × δ
  | [], transport, camo => (.ok (), transport, camo)
  | .interrupted :: results, transport, camo => camoLoop out results transport camo
  | .wouldBlock :: _, transport, camo => (.ok (), transport, camo)
  | .failed :: _, transport, camo => (.error .receiveFailed, transport.fail, camo)
  | .received [] :: _, transport, camo => (.ok (), transport.fail, camo)
  | .received chunk :: results, transport, camo =>
    let decoded := codec.payloads (codec.feed camo chunk)
    let fed := { transport with read := transport.read ++ chunk, ready := transport.ready ++ decoded.1 }
    if out ≤ fed.ready.length then (.ok (), fed, decoded.2) else camoLoop out results fed decoded.2

def camoRefill (out : ℕ) (reads : List ReadResult) (sends : List SendResult) (transport : TcpTransport) (camo : δ) :
    Except TransportError Unit × TcpTransport × δ :=
  if transport.ready.length ≤ transport.readyHead then
    match camoLoop codec out reads { transport with ready := [], readyHead := 0 } camo with
    | (.error error, transport, camo) => (.error error, transport, camo)
    | (.ok (), transport, camo) =>
      if codec.violated camo then (.error .receiveFailed, transport.fail, camo)
      else
        let (reply, camo) := codec.takeHandshakeReply camo
        if reply = [] then (.ok (), transport, camo)
        else (.ok (), ({ transport with outbox := transport.outbox ++ reply }.flushOutput sends).2.1, camo)
  else (.ok (), transport, camo)

def receiveFrames (connection : TcpConnection δ) (out : ℕ) (reads : List ReadResult) (sends : List SendResult) :
    Except TransportError (List Bytes) × TcpConnection δ :=
  match connection.camo with
  | none =>
    let (outcome, transport) := connection.transport.receiveFrames out reads
    (outcome, { connection with transport })
  | some camo =>
    if connection.transport.state ≠ .connected then (.error .notStarted, connection)
    else if out = 0 then (.ok [], connection)
    else
      match camoRefill codec out reads sends connection.transport camo with
      | (.error error, transport, camo) => (.error error, { connection with transport, camo := some camo })
      | (.ok (), transport, camo) =>
        let frames := (transport.ready.drop transport.readyHead).take out
        (.ok frames, { connection with
          transport := { transport with readyHead := transport.readyHead + frames.length }
          camo := some camo })

/-- send_frame; without a camouflage it is the one of the framings. -/
def sendFrame (connection : TcpConnection δ) (outgoing : Outgoing) (urgent : Bool) (results : List SendResult) :
    TcpConnection δ :=
  match connection.camo with
  | none => { connection with transport := (connection.transport.sendFrame outgoing results).2 }
  | some camo =>
    if connection.transport.state ≠ .connected ∨ kMaximumTcpFrame < outgoing.frame.length then connection
    else
      match connection.transport.flushOutput results with
      | (.error _, transport, _) => { connection with transport }
      | (.ok drained, transport, results) =>
        if drained = false ∧ urgent = false ∧ kTcpOutboxLimit ≤ transport.outbox.length then
          { connection with transport }
        else
          let (wrapped, camo) := codec.wrap camo outgoing.frame
          match if drained then TcpTransport.writeLoop results transport wrapped
            else (.ok 0, transport, results) with
          | (.error _, transport, _) => { connection with transport, camo := some camo }
          | (.ok written, transport, _) =>
            { connection with
              transport := { transport with outbox := transport.outbox ++ wrapped.drop written }
              camo := some camo }

def connect (connection : TcpConnection δ) (result : ConnectResult) : TcpConnection δ :=
  match connection.transport.connect result with
  | (.error _, transport) => { connection with transport }
  | (.ok (), transport) => { connection with transport, socket := true }

def pollConnect (connection : TcpConnection δ) (result : PollResult) : TcpConnection δ :=
  -- only an error that the socket reports gives the socket up
  let refused := connection.transport.state = .connecting ∧ result = .refused
  { connection with
    transport := (connection.transport.pollConnect result).2
    socket := connection.socket && !decide refused }

def close (connection : TcpConnection δ) : TcpConnection δ :=
  { transport := connection.transport.close }

def enableSsh (connection : TcpConnection δ) (client : Bool) : TcpConnection δ :=
  if connection.socket = false ∨ connection.camo.isSome ∨ connection.transport.sshActive then connection
  else { connection with
    transport := { connection.transport with
      sshActive := true
      sshReassembly := []
      outbox := connection.transport.outbox ++ if client then kSshClientBanner else kSshServerBanner } }

/-- enable_camouflage with the camouflage it makes and what its open() returns. -/
def enableCamouflage (connection : TcpConnection δ) (camo : δ) (hello : Bytes) : TcpConnection δ :=
  if connection.socket = false ∨ connection.camo.isSome then connection
  else { connection with
    transport := { connection.transport with outbox := connection.transport.outbox ++ hello }
    camo := some camo }

end TcpConnection

/-- A call of the transport with what the system answers in it. -/
inductive TcpAction (δ : Type)
  | connect (result : ConnectResult)
  | pollConnect (result : PollResult)
  | close
  | enableSsh (client : Bool)
  | enableCamouflage (camo : δ) (hello : Bytes)
  | flushOutput (results : List SendResult)
  /-- A poll of a greeting gives the connection up. -/
  | greetingFailed
  | sendFrame (outgoing : Outgoing) (urgent : Bool) (results : List SendResult)
  | receiveFrames (out : ℕ) (reads : List ReadResult) (sends : List SendResult)

namespace TcpConnection

variable {δ : Type} (codec : Camouflage δ)

def perform (connection : TcpConnection δ) : TcpAction δ → TcpConnection δ
  | .connect result => connection.connect result
  | .pollConnect result => connection.pollConnect result
  | .close => connection.close
  | .enableSsh client => connection.enableSsh client
  | .enableCamouflage camo hello => connection.enableCamouflage camo hello
  | .flushOutput results => { connection with transport := (connection.transport.flushOutput results).2.1 }
  | .greetingFailed =>
    if connection.transport.state = .connected then { connection with transport := connection.transport.fail }
    else connection
  | .sendFrame outgoing urgent results => connection.sendFrame codec outgoing urgent results
  | .receiveFrames out reads sends => (connection.receiveFrames codec out reads sends).2

/-- What receive_frames returns, where the action is a call of it. -/
def returned (connection : TcpConnection δ) : TcpAction δ → Option (Except TransportError (List Bytes))
  | .receiveFrames out reads sends => some (connection.receiveFrames codec out reads sends).1
  | _ => none

def run (connection : TcpConnection δ) (actions : List (TcpAction δ)) : TcpConnection δ :=
  actions.foldl (perform codec) connection

/-- All that receive_frames returns in a run. -/
def returns (connection : TcpConnection δ) : List (TcpAction δ) → List (Option (Except TransportError (List Bytes)))
  | [] => []
  | action :: actions => connection.returned codec action :: (connection.perform codec action).returns actions

end TcpConnection

end Norr
