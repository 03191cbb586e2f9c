import Norr.Net.Address
import Norr.Session.ReplayWindow
import Norr.Wire.Packet

/-! A session: one pair of traffic keys with its send counter and replay window (`session.cpp`).

The counters that only feed statistics are left out; `sent` and `received` decide and stay. -/

namespace Norr

def kRejectAfterMessages : UInt64 := 0xFFFFFFFFFFFFFFFF - 0x2000

def kSessionExpiry : Duration := seconds 180

inductive SessionError
  | unknownPeer
  | unknownKeyId
  | notEstablished
  | counterExhausted
  | replayed
  | tooOld
  | authenticationFailed
  | bufferTooSmall
  | keyIdExhausted
  | tooManySessions
  | generationMismatch
  deriving DecidableEq, Repr

structure PacketCounter where
  value : UInt64 := 0
  exhausted : Bool := false
  deriving DecidableEq, Repr

def PacketCounter.next (counter : PacketCounter) : Except Error UInt64 × PacketCounter :=
  if counter.exhausted then (.error .counterExhausted, counter)
  else if counter.value = 0xFFFFFFFFFFFFFFFF then (.ok counter.value, { counter with exhausted := true })
  else (.ok counter.value, { counter with value := counter.value + 1 })

/-- How many counters are used up. -/
def PacketCounter.position (counter : PacketCounter) : ℕ :=
  counter.value.toNat + if counter.exhausted then 1 else 0

theorem PacketCounter.next_position {counter after : PacketCounter} {value : UInt64}
    (taken : counter.next = (.ok value, after)) :
    value.toNat = counter.position ∧ after.position = counter.position + 1 := by
  unfold PacketCounter.next at taken
  split_ifs at taken with exhausted greatest
  · cases taken
  · cases taken
    simp [PacketCounter.position, exhausted]
  · cases taken
    have below : counter.value.toNat + 1 < 2 ^ 64 := by
      have bound := counter.value.toNat_lt
      have differs : counter.value.toNat ≠ 2 ^ 64 - 1 := fun same => greatest (UInt64.toNat_inj.mp same)
      omega
    have next : (counter.value + 1).toNat = counter.value.toNat + 1 := by
      rw [UInt64.toNat_add]
      exact Nat.mod_eq_of_lt below
    simp only [PacketCounter.position, exhausted, next]
    exact ⟨rfl, rfl⟩

structure Session where
  peer : PeerId
  localKeyId : UInt16
  remoteKeyId : UInt16
  sendKey : TrafficKey
  receiveKey : TrafficKey
  sendCounter : PacketCounter := {}
  replay : ReplayWindow := {}
  endpoint : Option Endpoint := none
  lastReceived : Instant := 0
  establishedAt : Instant
  sent : UInt64 := 0
  received : UInt64 := 0
  sampleBase : UInt64 := 0
  sampleReceived : UInt64 := 0
  sampleRecovered : UInt64 := 0
  sampleLate : UInt64 := 0
  samplePrimed : Bool := false
  deriving DecidableEq

namespace Session

def noteAuthenticatedEndpoint (session : Session) (endpoint : Endpoint) : Session :=
  { session with endpoint := some endpoint }

def expired (session : Session) (now : Instant) : Bool :=
  kRejectAfterMessages ≤ session.sent || kSessionExpiry ≤ now - session.establishedAt

def reserveCounter (session : Session) : Except SessionError UInt64 × Session :=
  if kRejectAfterMessages ≤ session.sent then (.error .counterExhausted, session)
  else
    match session.sendCounter.next with
    | (.error _, counter) => (.error .counterExhausted, { session with sendCounter := counter })
    | (.ok value, counter) =>
      (.ok value, { session with sendCounter := counter, sent := session.sent + 1 })

variable (crypto : Crypto)

def header (session : Session) (type : FrameType) (counter : UInt64) (ciphertextLength : ℕ) :
    PacketHeader :=
  { version := kProtocolVersion
    type
    flags := 0
    keyId := session.remoteKeyId
    counter
    payloadLength := UInt16.ofNat ciphertextLength }

def sealReserved (session : Session) (type : FrameType) (counter : UInt64) (plaintext : Bytes)
    (room : ℕ) : Except SessionError Bytes :=
  let ciphertextLength := plaintext.length + kAeadTagSize
  if room < kPacketHeaderSize + ciphertextLength then .error .bufferTooSmall
  else if kMaximumPacketSize - kPacketHeaderSize < ciphertextLength then .error .bufferTooSmall
  else
    match serializeHeader (session.header type counter ciphertextLength) ciphertextLength room with
    | .error _ => .error .bufferTooSmall
    | .ok associated =>
      match crypto.seal session.sendKey counter associated plaintext (room - kPacketHeaderSize) with
      | .error .bufferTooSmall => .error .bufferTooSmall
      | .error _ => .error .authenticationFailed
      | .ok sealed => .ok (associated ++ sealed)

def checkWindow (session : Session) (counter : UInt64) : Except SessionError Unit :=
  if counter < session.replay.highest ∧ ReplayWindow.kWindowSize ≤ session.replay.highest - counter then
    .error .tooOld
  else .ok ()

def decrypt (session : Session) (view : PacketView) (packet : Bytes) (room : ℕ) :
    Except SessionError Bytes :=
  if packet.length < kPacketHeaderSize then .error .bufferTooSmall
  else
    match crypto.open session.receiveKey view.header.counter (packet.take kPacketHeaderSize) view.payload
      room with
    | .error .bufferTooSmall => .error .bufferTooSmall
    | .error _ => .error .authenticationFailed
    | .ok opened => .ok opened

/-- `now` is the steady clock at the moment of the call. -/
def commit (session : Session) (counter : UInt64) (now : Instant) :
    Except SessionError Unit × Session :=
  match session.replay.accept counter with
  | (.replayed, replay) =>
    (.error .replayed, { session with replay, sampleLate := session.sampleLate + 1 })
  | (.tooOld, replay) => (.error .tooOld, { session with replay })
  | (.accepted, replay) =>
    (.ok (), { session with
      replay
      received := session.received + 1
      sampleReceived := session.sampleReceived + 1
      lastReceived := now })

def noteRecovered (session : Session) : Session :=
  { session with sampleRecovered := session.sampleRecovered + 1 }

end Session

def Session.seal (crypto : Crypto) (session : Session) (type : FrameType) (plaintext : Bytes) (room : ℕ) :
    Except SessionError Bytes × Session :=
  if room < kPacketHeaderSize + plaintext.length + kAeadTagSize then (.error .bufferTooSmall, session)
  else
    match session.reserveCounter with
    | (.error error, session) => (.error error, session)
    | (.ok counter, session) => (session.sealReserved crypto type counter plaintext room, session)

def Session.open (crypto : Crypto) (session : Session) (view : PacketView) (packet : Bytes) (room : ℕ)
    (now : Instant) : Except SessionError Bytes × Session :=
  match session.checkWindow view.header.counter with
  | .error error => (.error error, session)
  | .ok () =>
    match session.decrypt crypto view packet room with
    | .error error => (.error error, session)
    | .ok opened =>
      match session.commit view.header.counter now with
      | (.error error, session) => (.error error, session)
      | (.ok (), session) => (.ok opened, session)

namespace Session

variable {crypto : Crypto} {now : Instant}
variable {session after : Session} {room : ℕ} {plaintext packet : Bytes} {view : PacketView}

theorem reserveCounter_position {counter : UInt64} (reserved : session.reserveCounter = (.ok counter, after)) :
    counter.toNat = session.sendCounter.position ∧ after.sendCounter.position = session.sendCounter.position + 1 ∧
      after.peer = session.peer ∧ after.remoteKeyId = session.remoteKeyId ∧ after.sendKey = session.sendKey := by
  unfold reserveCounter at reserved
  split_ifs at reserved
  · cases reserved
  · split at reserved
    · cases reserved
    · rename_i taken
      cases reserved
      obtain ⟨here, next⟩ := PacketCounter.next_position taken
      exact ⟨here, next, rfl, rfl, rfl⟩

/-- What is sealed under a reserved counter, and opens again. -/
theorem sealReserved_ok (inverts : crypto.Inverts) {type : FrameType}
    (named : session.remoteKeyId ≠ kPreSessionKeyId) (counter : UInt64)
    (fits : kPacketHeaderSize + (plaintext.length + kAeadTagSize) ≤ room)
    (small : plaintext.length + kAeadTagSize ≤ kMaximumPacketSize - kPacketHeaderSize) :
    ∃ header sealed, session.sealReserved crypto type counter plaintext room =
        .ok (headerBytes header sealed.length ++ sealed) ∧
      header = session.header type counter sealed.length ∧ header.Valid ∧
      sealed.length = plaintext.length + kAeadTagSize ∧
      ∀ outRoom, plaintext.length ≤ outRoom → crypto.open session.sendKey counter
        (headerBytes header sealed.length) sealed outRoom = .ok plaintext := by
  have valid : (session.header type counter (plaintext.length + kAeadTagSize)).Valid :=
    ⟨rfl, rfl, rfl, fun reserved => named reserved.1⟩
  have associated := serializeHeader_valid valid small ((Nat.le_add_right _ _).trans fits)
  obtain ⟨sealed, done, sized, opens⟩ := inverts.seal_ok session.sendKey counter
    (headerBytes (session.header type counter (plaintext.length + kAeadTagSize)) (plaintext.length + kAeadTagSize))
    plaintext (Nat.le_sub_of_add_le' fits)
  refine ⟨session.header type counter sealed.length, sealed, ?_, rfl, sized.symm ▸ valid, sized, ?_⟩
  · simp only [sealReserved]
    rw [if_neg (not_lt.mpr fits), if_neg (not_lt.mpr small), associated]
    simp only [done, sized]
  · rw [sized]
    exact opens

theorem decrypt_ok (decrypted : session.decrypt crypto view packet room = .ok plaintext) :
    crypto.open session.receiveKey view.header.counter (packet.take kPacketHeaderSize) view.payload room =
      .ok plaintext := by
  unfold Session.decrypt at decrypted
  split_ifs at decrypted
  split at decrypted <;> cases decrypted
  assumption

theorem open_ok (opened : session.open crypto view packet room now = (.ok plaintext, after)) :
    session.decrypt crypto view packet room = .ok plaintext ∧
      session.commit view.header.counter now = (.ok (), after) := by
  unfold Session.open at opened
  split at opened
  · cases opened
  · split at opened
    · cases opened
    · rename_i decrypted
      split at opened
      · cases opened
      · rename_i committed
        cases opened
        exact ⟨decrypted, committed⟩

theorem open_error {error : SessionError}
    (opened : session.open crypto view packet room now = (.error error, after)) :
    after = session ∨ session.commit view.header.counter now = (.error error, after) := by
  unfold Session.open at opened
  split at opened
  · cases opened
    exact .inl rfl
  · split at opened
    · cases opened
      exact .inl rfl
    · split at opened
      · rename_i committed
        cases opened
        exact .inr committed
      · cases opened

theorem open_fresh (now : Instant) (long : kPacketHeaderSize ≤ packet.length)
    (fresh : session.replay.FreshFrom view.header.counter.toNat)
    (opens : crypto.open session.receiveKey view.header.counter (packet.take kPacketHeaderSize) view.payload room =
      .ok plaintext) :
    ∃ after, session.open crypto view packet room now = (.ok plaintext, after) ∧
      after.receiveKey = session.receiveKey ∧ after.peer = session.peer ∧
      after.replay.FreshFrom (view.header.counter.toNat + 1) := by
  obtain ⟨accepted, later⟩ := fresh.accept
  have checked : session.checkWindow view.header.counter = .ok () := by
    unfold Session.checkWindow
    rw [if_neg]
    rintro ⟨below, -⟩
    rw [UInt64.lt_iff_toNat_lt] at below
    cases started : session.replay.initialized with
    | false =>
      rw [fresh.1 started] at below
      exact absurd below (Nat.not_lt_zero _)
    | true => exact absurd (fresh.2 started) (by omega)
  have decrypted : session.decrypt crypto view packet room = .ok plaintext := by
    unfold Session.decrypt
    rw [if_neg (not_lt.mpr long), opens]
  cases accepting : session.replay.accept view.header.counter with
  | mk verdict replay =>
    rw [accepting] at accepted later
    cases accepted
    simp only [Session.open, checked, decrypted, Session.commit, accepting]
    exact ⟨_, rfl, rfl, rfl, later⟩

end Session

end Norr
