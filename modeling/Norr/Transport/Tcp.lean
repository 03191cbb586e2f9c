import Norr.Transport.Framers

/-! The framed stream of `tcp_transport.cpp`, plain or in SSH records, over a socket whose results are
given. -/

namespace Norr

inductive TcpState
  | closed
  | connecting
  | connected
  | failed
  deriving DecidableEq, Repr

inductive TransportError
  | sendFailed
  | receiveFailed
  | wouldBlock
  | notStarted
  | messageTooLarge
  | alreadyStarted
  | socketCreationFailed
  | socketOptionFailed
  deriving DecidableEq, Repr

/-- A result of ::send; a count is at most what was offered. -/
inductive SendResult
  | sent (count : ℕ)
  | interrupted
  | wouldBlock
  | failed
  deriving DecidableEq

/-- A result of ::read; the empty chunk is the end of the stream. -/
inductive ReadResult
  | received (chunk : Bytes)
  | interrupted
  | wouldBlock
  | failed
  deriving DecidableEq

/-- `sent` and `read` are the histories of the socket. -/
structure TcpTransport where
  state : TcpState := .closed
  reassembler : FrameReassembler := {}
  outbox : Bytes := []
  ready : List Bytes := []
  readyHead : ℕ := 0
  sshActive : Bool := false
  sshReassembly : Bytes := []
  sent : Bytes := []
  read : Bytes := []

namespace TcpTransport

/-- The socket has taken the bytes. -/
def wrote (transport : TcpTransport) (bytes : Bytes) : TcpTransport :=
  { transport with sent := transport.sent ++ bytes }

def fail (transport : TcpTransport) : TcpTransport := { transport with state := .failed }

/-- A loop over write_some, up to the first call that takes nothing. Without results the socket is full. -/
def writeLoop : List SendResult → TcpTransport → Bytes →
    Except TransportError ℕ × TcpTransport × List SendResult
  | results, transport, [] => (.ok 0, transport, results)
  | [], transport, _ => (.ok 0, transport, [])
  | .interrupted :: results, transport, bytes => writeLoop results transport bytes
  | .wouldBlock :: results, transport, _ => (.ok 0, transport, results)
  | .failed :: results, transport, _ => (.error .sendFailed, transport.fail, results)
  | .sent 0 :: results, transport, _ => (.ok 0, transport, results)
  | .sent count :: results, transport, bytes =>
    let taken := bytes.take count
    match writeLoop results (transport.wrote taken) (bytes.drop count) with
    | (.error error, transport, results) => (.error error, transport, results)
    | (.ok written, transport, results) => (.ok (taken.length + written), transport, results)

def flushOutput (transport : TcpTransport) (results : List SendResult) :
    Except TransportError Bool × TcpTransport × List SendResult :=
  if transport.state ≠ .connected then (.error .notStarted, transport, results)
  else
    match writeLoop results transport transport.outbox with
    | (.error error, transport, results) => (.error error, transport, results)
    | (.ok offset, transport, results) =>
      let outbox := transport.outbox.drop offset
      (.ok outbox.isEmpty, { transport with outbox }, results)

/-- The record that send_frame makes. -/
def recordFor (transport : TcpTransport) (outgoing : Outgoing) : Except SshFramerError Bytes :=
  if transport.sshActive then
    SshFramer.wrap outgoing.frame (SshFramer.recordSize outgoing.frame.length) outgoing.padState
  else .ok (lengthPrefixed outgoing.frame)

def sendFrame (transport : TcpTransport) (outgoing : Outgoing) (results : List SendResult) :
    Except TransportError ℕ × TcpTransport :=
  if transport.state ≠ .connected then (.error .notStarted, transport)
  else if kMaximumTcpFrame < outgoing.frame.length then (.error .messageTooLarge, transport)
  else
    match transport.flushOutput results with
    | (.error error, transport, _) => (.error error, transport)
    | (.ok false, transport, _) => (.error .wouldBlock, transport)
    | (.ok true, transport, results) =>
      match transport.recordFor outgoing with
      | .error _ => (.error .messageTooLarge, transport)
      | .ok record =>
        match writeLoop results transport record with
        | (.error error, transport, _) => (.error error, transport)
        | (.ok written, transport, _) =>
          let outbox := if written < record.length then record.drop written else transport.outbox
          (.ok outgoing.frame.length, { transport with outbox })

/-- The loop of fill_ready over SSH records: `room` more frames fit. -/
def unwrapLoop (wire : Bytes) : ℕ → ℕ → List Bytes → Bool × ℕ × List Bytes
  | 0, offset, ready => (true, offset, ready)
  | room + 1, offset, ready =>
    match SshFramer.unwrap (wire.drop offset) kMaximumTcpFrame with
    | .error .incomplete => (true, offset, ready)
    | .error _ => (false, offset, ready)
    | .ok (payload, consumed) => unwrapLoop wire room (offset + consumed) (ready ++ [payload])

/-- The loop of fill_ready over the reassembler; an empty frame ends it like a missing one. -/
def nextLoop : ℕ → FrameReassembler → List Bytes → Bool × FrameReassembler × List Bytes
  | 0, reassembler, ready => (true, reassembler, ready)
  | room + 1, reassembler, ready =>
    let (frame, reassembler) := reassembler.next
    if reassembler.violated then (false, reassembler, ready)
    else if frame = [] then (true, reassembler, ready)
    else nextLoop room reassembler (ready ++ [frame])

/-- fill_ready; `out` is the size of the span of receive_frames. -/
def fillReady (transport : TcpTransport) (out : ℕ) : Bool × TcpTransport :=
  let room := out - transport.ready.length
  if transport.sshActive then
    let (sound, offset, ready) := unwrapLoop transport.sshReassembly room 0 transport.ready
    (sound, { transport with
      ready
      sshReassembly := if sound then transport.sshReassembly.drop offset else transport.sshReassembly })
  else
    let (sound, reassembler, ready) := nextLoop room transport.reassembler transport.ready
    (sound, { transport with ready, reassembler })

/-- The bytes of a read go into the buffer of the framing. -/
def absorb (transport : TcpTransport) (chunk : Bytes) : Bool × TcpTransport :=
  let transport := { transport with read := transport.read ++ chunk }
  if transport.sshActive then
    (true, { transport with sshReassembly := transport.sshReassembly ++ chunk })
  else
    let (pushed, reassembler) := transport.reassembler.push chunk
    (pushed, { transport with reassembler })

/-- The loop of receive_frames over the socket. Without results it is drained. -/
def readLoop (out : ℕ) : List ReadResult → TcpTransport → Except TransportError Unit × TcpTransport
  | [], transport => (.ok (), transport)
  | result :: results, transport =>
    if out ≤ transport.ready.length then (.ok (), transport)
    else
      match result with
      | .interrupted => readLoop out results transport
      | .wouldBlock => (.ok (), transport)
      | .failed => (.error .receiveFailed, transport.fail)
      | .received [] => (.ok (), transport.fail)
      | .received chunk =>
        match transport.absorb chunk with
        | (false, transport) => (.error .receiveFailed, transport.fail)
        | (true, transport) =>
          match transport.fillReady out with
          | (false, transport) => (.error .messageTooLarge, transport.fail)
          | (true, transport) => readLoop out results transport

/-- The refill of ready_ when it is used up. -/
def refill (transport : TcpTransport) (out : ℕ) (results : List ReadResult) :
    Except TransportError Unit × TcpTransport :=
  if transport.ready.length ≤ transport.readyHead then
    match { transport with ready := [], readyHead := 0 }.fillReady out with
    | (false, transport) => (.error .messageTooLarge, transport.fail)
    | (true, transport) => readLoop out results transport
  else (.ok (), transport)

def receiveFrames (transport : TcpTransport) (out : ℕ) (results : List ReadResult) :
    Except TransportError (List Bytes) × TcpTransport :=
  if transport.state ≠ .connected then (.error .notStarted, transport)
  else if out = 0 then (.ok [], transport)
  else
    match transport.refill out results with
    | (.error error, transport) => (.error error, transport)
    | (.ok (), transport) =>
      let frames := (transport.ready.drop transport.readyHead).take out
      (.ok frames, { transport with readyHead := transport.readyHead + frames.length })

end TcpTransport

end Norr
