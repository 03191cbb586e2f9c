import Norr.Common
import Norr.Lib.Bytes
import Norr.Lib.Framing

/-! The two framings of a TCP stream: the FrameReassembler of `tcp_transport.cpp` and `ssh_framer.cpp`. -/

namespace Norr

open ByteOrder

def kTcpLengthPrefixSize : ℕ := 2
def kMaximumTcpFrame : ℕ := 65535

theorem none_consumed : 0 ≤ ([] : Bytes).length := Nat.zero_le _

structure FrameReassembler where
  maximumFrame : ℕ := kMaximumTcpFrame
  buffer : Bytes := []
  consumed : ℕ := 0
  frame : Bytes := []
  violated : Bool := false
  within : consumed ≤ buffer.length := by exact none_consumed

namespace FrameReassembler

def push (reassembler : FrameReassembler) (bytes : Bytes) : Bool × FrameReassembler :=
  if reassembler.violated then (false, reassembler)
  else (true, { reassembler with
    buffer := reassembler.buffer ++ bytes
    within := reassembler.within.trans (by simp) })

def compact (reassembler : FrameReassembler) : FrameReassembler :=
  if reassembler.consumed = 0 then reassembler
  else { reassembler with
    buffer := reassembler.buffer.drop reassembler.consumed
    consumed := 0
    within := Nat.zero_le _ }

/-- The length in front of the bytes that are not consumed. -/
def announced (reassembler : FrameReassembler) : ℕ :=
  (readU16 (reassembler.buffer.drop reassembler.consumed) 0).toNat

def next (reassembler : FrameReassembler) : Bytes × FrameReassembler :=
  let available := reassembler.buffer.length - reassembler.consumed
  let length := reassembler.announced
  if reassembler.violated then ([], reassembler)
  else if available < kTcpLengthPrefixSize then ([], reassembler.compact)
  else if reassembler.maximumFrame < length then ([], { reassembler with violated := true })
  else if short : available < kTcpLengthPrefixSize + length then ([], reassembler.compact)
  else
    let frame := slice reassembler.buffer (reassembler.consumed + kTcpLengthPrefixSize) length
    let advanced : FrameReassembler := { reassembler with
      frame
      consumed := reassembler.consumed + (kTcpLengthPrefixSize + length)
      within := by have := reassembler.within; omega }
    (frame, if 65536 < advanced.consumed ∨ advanced.buffer.length < advanced.consumed * 2 then
        advanced.compact
      else advanced)

def reset (reassembler : FrameReassembler) : FrameReassembler :=
  { maximumFrame := reassembler.maximumFrame }

end FrameReassembler

inductive SshFramerError
  | payloadTooLarge
  | bufferTooSmall
  | malformed
  | incomplete
  deriving DecidableEq, Repr

def kSshHeaderSize : ℕ := 5
def kSshBlockSize : ℕ := 8
def kSshMinPadding : ℕ := 4

namespace SshFramer

/-- The generator of the padding; its state is one of the thread. -/
def cheapRandomByte (padState : UInt64) : UInt8 × UInt64 :=
  let padState := padState + 0x9E3779B97F4A7C15
  let value := (padState ^^^ (padState >>> 30)) * 0xBF58476D1CE4E5B9
  let value := (value ^^^ (value >>> 27)) * 0x94D049BB133111EB
  let value := value ^^^ (value >>> 31)
  (value.toUInt8, padState)

def paddingBytes : ℕ → UInt64 → Bytes
  | 0, _ => []
  | count + 1, padState =>
    let (byte, padState) := cheapRandomByte padState
    byte :: paddingBytes count padState

def paddingFor (payload : ℕ) : ℕ :=
  let padding := kSshBlockSize - (kSshHeaderSize + payload) % kSshBlockSize
  if padding < kSshMinPadding then padding + kSshBlockSize else padding

def recordSize (payload : ℕ) : ℕ := 4 + 1 + payload + paddingFor payload

def record (payload : Bytes) (padState : UInt64) : Bytes :=
  let padding := paddingFor payload.length
  bigEndian 4 (1 + payload.length + padding) ++ [UInt8.ofNat padding] ++ payload ++
    paddingBytes padding padState

/-- `room` is the size of the buffer the record is written into. -/
def wrap (payload : Bytes) (room : ℕ) (padState : UInt64) : Except SshFramerError Bytes :=
  if kMaximumTcpFrame < payload.length then .error .payloadTooLarge
  else
    let packetLength := 1 + payload.length + paddingFor payload.length
    if room < 4 + packetLength then .error .bufferTooSmall
    else .ok (record payload padState)

/-- The payload with the number of bytes its record takes. -/
def unwrap (wire : Bytes) (room : ℕ) : Except SshFramerError (Bytes × ℕ) :=
  if wire.length < kSshHeaderSize then .error .incomplete
  else
    let packetLength := ofBigEndian (slice wire 0 4)
    let padding := (wire.getD 4 0).toNat
    if packetLength < 2 ∨ kMaximumTcpFrame + kSshBlockSize + 1 < packetLength then .error .malformed
    else if padding < kSshMinPadding ∨ packetLength < padding + 1 then .error .malformed
    else if wire.length < 4 + packetLength then .error .incomplete
    else
      let payloadLength := packetLength - padding - 1
      if room < payloadLength then .error .bufferTooSmall
      else .ok (slice wire kSshHeaderSize payloadLength, 4 + packetLength)

end SshFramer

/-- A frame as send_frame is called with it, and the state of the padding then. -/
structure Outgoing where
  frame : Bytes
  padState : UInt64

def Outgoing.Sendable (outgoing : Outgoing) : Prop :=
  outgoing.frame ≠ [] ∧ outgoing.frame.length ≤ kMaximumTcpFrame

instance (outgoing : Outgoing) : Decidable outgoing.Sendable :=
  inferInstanceAs (Decidable (_ ∧ _))

def lengthPrefixed (frame : Bytes) : Bytes := writeU16 (UInt16.ofNat frame.length) ++ frame

def plainFraming : Framing Outgoing Bytes UInt8 where
  payload := Outgoing.frame
  encode outgoing := lengthPrefixed outgoing.frame
  decode held :=
    let length := (readU16 held 0).toNat
    if held.length < kTcpLengthPrefixSize then .incomplete
    else if kMaximumTcpFrame < length then .malformed
    else if held.length < kTcpLengthPrefixSize + length then .incomplete
    else .frame (slice held kTcpLengthPrefixSize length) (held.drop (kTcpLengthPrefixSize + length))

def sshFraming : Framing Outgoing Bytes UInt8 where
  payload := Outgoing.frame
  encode outgoing := SshFramer.record outgoing.frame outgoing.padState
  decode held :=
    match SshFramer.unwrap held kMaximumTcpFrame with
    | .ok (payload, consumed) => .frame payload (held.drop consumed)
    | .error .incomplete => .incomplete
    | .error _ => .malformed

section Laws

theorem length_lt_of_isPrefix {part whole : Bytes} (starts : part <+: whole) (differs : part ≠ whole) :
    part.length < whole.length :=
  lt_of_le_of_ne starts.length_le fun same => differs (starts.eq_of_length same)

theorem lengthPrefixed_announces {frame : Bytes} (fits : frame.length ≤ kMaximumTcpFrame) (rest : Bytes) :
    (readU16 (lengthPrefixed frame ++ rest) 0).toNat = frame.length := by
  have announced : readU16 (lengthPrefixed frame ++ rest) 0 = UInt16.ofNat frame.length := readU16_of_slice rfl
  rw [announced]
  exact UInt16.toNat_ofNat_of_lt' (Nat.lt_of_le_of_lt fits (by decide))

theorem lengthPrefixed_length (frame : Bytes) :
    (lengthPrefixed frame).length = kTcpLengthPrefixSize + frame.length := by
  rw [lengthPrefixed, List.length_append, writeU16_length, kTcpLengthPrefixSize]

theorem plainFraming_lawful : plainFraming.Lawful Outgoing.Sendable where
  nothing := rfl
  whole := by
    intro outgoing rest sendable
    have size := lengthPrefixed_length outgoing.frame
    simp only [plainFraming, lengthPrefixed_announces sendable.2, List.length_append, size]
    rw [if_neg (by omega), if_neg (not_lt.mpr sendable.2), if_neg (by omega), Decoded.frame.injEq]
    refine ⟨?_, List.drop_left' size⟩
    exact slice_append _ _ rest _ _ (writeU16_length _) rfl
  part := by
    intro outgoing part sendable starts differs
    have shorter := length_lt_of_isPrefix starts differs
    have size := lengthPrefixed_length outgoing.frame
    have announces := lengthPrefixed_announces sendable.2 []
    rw [List.append_nil] at announces
    simp only [plainFraming] at starts shorter ⊢
    split_ifs with headless large short
    · rfl
    all_goals
      have same : readU16 part 0 = readU16 (lengthPrefixed outgoing.frame) 0 := by
        rw [readU16, readU16, slice_isPrefix starts (not_lt.mp headless)]
      rw [same, announces] at large
    · exact absurd large (not_lt.mpr sendable.2)
    · rw [same, announces, ← size] at short
      exact absurd shorter short

namespace SshFramer

theorem paddingFor_spec (payload : ℕ) : 4 ≤ paddingFor payload ∧ paddingFor payload ≤ 11 ∧
    (5 + payload + paddingFor payload) % 8 = 0 := by
  unfold paddingFor
  dsimp only
  split_ifs with narrow <;> simp only [kSshBlockSize, kSshHeaderSize, kSshMinPadding] at narrow ⊢ <;> omega

/-- The padding fills up a block, so unwrap never refuses the length of a record. -/
theorem packetLength_le {payload : ℕ} (fits : payload ≤ kMaximumTcpFrame) :
    1 + payload + paddingFor payload ≤ kMaximumTcpFrame + kSshBlockSize + 1 := by
  have padding := paddingFor_spec payload
  simp only [kMaximumTcpFrame, kSshBlockSize] at fits ⊢
  omega

theorem paddingBytes_length (count : ℕ) (padState : UInt64) :
    (paddingBytes count padState).length = count := by
  induction count generalizing padState with
  | zero => rfl
  | succ count ih => simp [paddingBytes, ih]

variable (payload : Bytes) (padState : UInt64)

theorem record_length : (record payload padState).length =
    4 + (1 + payload.length + paddingFor payload.length) := by
  simp only [record, List.length_append, bigEndian_length, paddingBytes_length, List.length_singleton]
  omega

/-- The header that unwrap reads, in a record and in every part of it that is long enough. -/
theorem record_header (fits : payload.length ≤ kMaximumTcpFrame) {wire : Bytes} (rest : Bytes)
    (starts : wire <+: record payload padState ++ rest) (long : kSshHeaderSize ≤ wire.length) :
    ofBigEndian (slice wire 0 4) = 1 + payload.length + paddingFor payload.length ∧
      (wire.getD 4 0).toNat = paddingFor payload.length := by
  have padding := paddingFor_spec payload.length
  have length := packetLength_le fits
  simp only [kMaximumTcpFrame, kSshBlockSize, kSshHeaderSize] at length long
  have first : slice (record payload padState ++ rest) 0 4 =
      bigEndian 4 (1 + payload.length + paddingFor payload.length) := rfl
  have second : (record payload padState ++ rest).getD 4 0 = UInt8.ofNat (paddingFor payload.length) := rfl
  constructor
  · rw [slice_isPrefix starts (by omega), first, ofBigEndian_bigEndian]
    omega
  · obtain ⟨missing, whole⟩ := starts
    rw [← List.getD_append wire missing 0 4 (by omega), whole, second]
    exact UInt8.toNat_ofNat_of_lt' (padding.2.1.trans_lt (by decide))

/-- What unwrap makes of a record, or of a part of it. -/
theorem unwrap_record (fits : payload.length ≤ kMaximumTcpFrame) {wire : Bytes} (rest : Bytes)
    (starts : wire <+: record payload padState ++ rest) :
    unwrap wire kMaximumTcpFrame =
      if wire.length < (record payload padState).length then .error .incomplete
      else .ok (payload, (record payload padState).length) := by
  have padding := paddingFor_spec payload.length
  have length := packetLength_le fits
  have size := record_length payload padState
  unfold unwrap
  split_ifs with headless short short
  · rfl
  · simp only [kSshHeaderSize] at headless
    omega
  all_goals
    obtain ⟨packetLength, paddingLength⟩ :=
      record_header payload padState fits rest starts (not_lt.mp headless)
    simp only [packetLength, paddingLength, kSshMinPadding]
    rw [if_neg (by omega), if_neg (by omega), ← size]
  · rw [if_pos short]
  · rw [if_neg short, if_neg (by omega)]
    have payloadLength : 1 + payload.length + paddingFor payload.length - paddingFor payload.length - 1 =
        payload.length := by omega
    rw [payloadLength, slice_isPrefix starts (by simp only [kSshHeaderSize]; omega), record,
      List.append_assoc _ (paddingBytes _ _), slice_append _ payload _ _ _ (by simp [kSshHeaderSize]) rfl]

end SshFramer

open SshFramer in
theorem sshFraming_lawful : sshFraming.Lawful Outgoing.Sendable where
  nothing := rfl
  whole := by
    intro outgoing rest sendable
    simp only [sshFraming]
    rw [unwrap_record _ _ sendable.2 rest (List.prefix_refl _), if_neg (by simp)]
    simp only [List.drop_left]
  part := by
    intro outgoing part sendable starts differs
    have shorter := length_lt_of_isPrefix starts differs
    simp only [sshFraming] at starts shorter ⊢
    rw [unwrap_record _ _ sendable.2 [] (by rwa [List.append_nil]), if_pos shorter]

theorem sshFraming_waits {held : Bytes} (waits : sshFraming.decode held = .incomplete) :
    SshFramer.unwrap held kMaximumTcpFrame = .error .incomplete := by
  simp only [sshFraming] at waits
  split at waits
  · cases waits
  · assumption
  · cases waits

theorem sshFraming_frame {held frame rest : Bytes} (decoded : sshFraming.decode held = .frame frame rest) :
    ∃ consumed, SshFramer.unwrap held kMaximumTcpFrame = .ok (frame, consumed) ∧
      rest = held.drop consumed := by
  simp only [sshFraming] at decoded
  split at decoded
  · rename_i consumed unwrapped
    cases decoded
    exact ⟨consumed, unwrapped, rfl⟩
  · cases decoded
  · cases decoded

namespace FrameReassembler

/-- The reassembler is in order and has these bytes to parse. -/
structure Holds (reassembler : FrameReassembler) (held : Bytes) : Prop where
  sound : reassembler.violated = false
  standard : reassembler.maximumFrame = kMaximumTcpFrame
  rest : reassembler.buffer.drop reassembler.consumed = held

variable {reassembler : FrameReassembler} {held : Bytes}

theorem Holds.push (holds : reassembler.Holds held) (bytes : Bytes) :
    ∃ after, reassembler.push bytes = (true, after) ∧ after.Holds (held ++ bytes) := by
  rw [FrameReassembler.push, if_neg (by rw [holds.sound]; decide)]
  refine ⟨_, rfl, holds.sound, holds.standard, ?_⟩
  rw [List.drop_append_of_le_length reassembler.within, holds.rest]

theorem Holds.compact (holds : reassembler.Holds held) : reassembler.compact.Holds held := by
  unfold FrameReassembler.compact
  split_ifs
  · exact holds
  · exact { holds with }

theorem Holds.available (holds : reassembler.Holds held) :
    reassembler.buffer.length - reassembler.consumed = held.length := by
  rw [← holds.rest, List.length_drop]

theorem Holds.next_incomplete (holds : reassembler.Holds held)
    (waits : plainFraming.decode held = .incomplete) :
    ∃ after, reassembler.next = ([], after) ∧ after.Holds held := by
  refine ⟨reassembler.compact, ?_, holds.compact⟩
  simp only [plainFraming] at waits
  simp only [FrameReassembler.next, announced, holds.rest, holds.available, holds.standard]
  rw [if_neg (by rw [holds.sound]; decide)]
  split_ifs at waits ⊢
  · rfl
  · rfl

theorem Holds.next_frame (holds : reassembler.Holds held) {frame rest : Bytes}
    (decoded : plainFraming.decode held = .frame frame rest) :
    ∃ after, reassembler.next = (frame, after) ∧ after.Holds rest := by
  simp only [plainFraming] at decoded
  simp only [FrameReassembler.next, announced, holds.rest, holds.available, holds.standard]
  rw [if_neg (by rw [holds.sound]; decide)]
  have sliced (length : ℕ) : slice reassembler.buffer (reassembler.consumed + kTcpLengthPrefixSize) length =
      slice held kTcpLengthPrefixSize length := by
    rw [slice, slice, ← holds.rest, List.drop_drop]
  have dropped (count : ℕ) : reassembler.buffer.drop (reassembler.consumed + count) = held.drop count := by
    rw [← holds.rest, List.drop_drop]
  split_ifs at decoded ⊢
  · cases decoded
    refine ⟨_, Prod.ext (sliced _) rfl, ?_⟩
    exact Holds.compact ⟨holds.sound, rfl, dropped _⟩
  · cases decoded
    refine ⟨_, Prod.ext (sliced _) rfl, ?_⟩
    exact ⟨holds.sound, rfl, dropped _⟩

end FrameReassembler

end Laws

end Norr
