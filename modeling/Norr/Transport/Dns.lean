import Norr.Transport.Obfuscation
import Norr.Transport.UdpReceive

/-! Datagrams as DNS messages: `dns_framer.cpp` and the DnsCarrier of `carrier.cpp`. A domain is the bytes of
its text. -/

namespace Norr

open ByteOrder

def kDnsHeaderSize : ℕ := 12
def kDnsQuestionTrailerSize : ℕ := 4
def kDnsPayloadLengthSize : ℕ := 2
def kDnsLabelMaxSize : ℕ := 63
def kDnsTypeTxt : UInt16 := 0x0010
def kDnsClassIn : UInt16 := 0x0001
def kDnsFlagsQuery : UInt16 := 0x0100
def kDnsFlagsResponse : UInt16 := 0x8180

inductive DnsFramerError
  | payloadTooLarge
  | bufferTooSmall
  | malformed
  deriving DecidableEq, Repr

inductive DnsRole
  | client
  | server
  deriving DecidableEq, Repr

structure DnsFramer where
  role : DnsRole := .client
  qname : Bytes := []
  id : UInt16 := 0

namespace DnsFramer

def kDefaultDomain : Bytes := "t.example.com".toUTF8.toList

/-- A label is cut to its maximum, and an empty one is left out. -/
def encodeLabel (label : Bytes) : Bytes :=
  let cut := label.take kDnsLabelMaxSize
  if cut = [] then [] else UInt8.ofNat cut.length :: cut

def encodeDomain (domain : Bytes) : Bytes := (domain.splitOn 0x2E).flatMap encodeLabel ++ [0]

def configure (framer : DnsFramer) (role : DnsRole) (domain : Bytes) : DnsFramer :=
  { framer with role, qname := encodeDomain (if domain = [] then kDefaultDomain else domain) }

def envelopeSize (framer : DnsFramer) : ℕ :=
  kDnsHeaderSize + framer.qname.length + kDnsQuestionTrailerSize + kDnsPayloadLengthSize

def header (framer : DnsFramer) (id : UInt16) : Bytes :=
  ByteOrder.writeU16 id ++
    ByteOrder.writeU16 (if framer.role = .server then kDnsFlagsResponse else kDnsFlagsQuery) ++
    ByteOrder.writeU16 1 ++ ByteOrder.writeU16 (if framer.role = .server then 1 else 0) ++
    ByteOrder.writeU16 0 ++ ByteOrder.writeU16 0

def wrap (framer : DnsFramer) (payload : Bytes) (room : ℕ) : Except DnsFramerError Bytes × DnsFramer :=
  if 0xFFFF < payload.length then (.error .payloadTooLarge, framer)
  else if room < framer.envelopeSize + payload.length then (.error .bufferTooSmall, framer)
  else
    let id := framer.id + 1
    (.ok (framer.header id ++ (framer.qname ++ (ByteOrder.writeU16 kDnsTypeTxt ++ ByteOrder.writeU16 kDnsClassIn ++
      (ByteOrder.writeU16 (UInt16.ofNat payload.length) ++ payload)))), { framer with id })

/-- The loop over the labels of a name: what follows its end. A round takes a byte at least. -/
def skipName : ℕ → Bytes → Option Bytes
  | 0, _ => none
  | _ + 1, [] => none
  | rounds + 1, label :: rest =>
    if label = 0 then some rest
    else if kDnsLabelMaxSize < label.toNat ∨ rest.length < label.toNat then none
    else skipName rounds (rest.drop label.toNat)

/-- The framer's own state is not read. -/
def unwrap (wire : Bytes) (room : ℕ) : Except DnsFramerError Bytes :=
  if wire.length < kDnsHeaderSize then .error .malformed
  else
    match skipName wire.length (wire.drop kDnsHeaderSize) with
    | none => .error .malformed
    | some rest =>
      if rest.length < kDnsQuestionTrailerSize + kDnsPayloadLengthSize then .error .malformed
      else
        let length := (ByteOrder.readU16 rest kDnsQuestionTrailerSize).toNat
        let body := rest.drop (kDnsQuestionTrailerSize + kDnsPayloadLengthSize)
        if body.length < length then .error .malformed
        else if room < length then .error .bufferTooSmall
        else .ok (body.take length)

theorem encodeLabel_cases (label : Bytes) :
    encodeLabel label = [] ∨ ∃ cut, encodeLabel label = UInt8.ofNat cut.length :: cut ∧ cut.length ≠ 0 ∧
      cut.length ≤ kDnsLabelMaxSize := by
  simp only [encodeLabel]
  split_ifs with empty
  · exact .inl rfl
  · refine .inr ⟨_, rfl, ?_, List.length_take_le _ _⟩
    exact fun none_left => empty (List.length_eq_zero_iff.mp none_left)

theorem skipName_labels {labels : List Bytes} {rounds : ℕ} (rest : Bytes)
    (enough : (labels.flatMap encodeLabel).length < rounds) :
    skipName rounds (labels.flatMap encodeLabel ++ 0 :: rest) = some rest := by
  induction labels generalizing rounds with
  | nil =>
    obtain ⟨rounds, rfl⟩ := Nat.exists_eq_succ_of_ne_zero (Nat.ne_of_gt enough)
    simp [skipName]
  | cons label labels ih =>
    rw [List.flatMap_cons] at enough ⊢
    rcases encodeLabel_cases label with nothing | ⟨cut, same, some_left, small⟩
    · rw [nothing, List.nil_append] at enough ⊢
      exact ih enough
    · obtain ⟨rounds, rfl⟩ := Nat.exists_eq_succ_of_ne_zero (Nat.ne_of_gt (Nat.zero_lt_of_lt enough))
      rw [same, List.length_append, List.length_cons] at enough
      have bounded : cut.length < 256 := small.trans_lt (by decide)
      have byte : (UInt8.ofNat cut.length).toNat = cut.length := UInt8.toNat_ofNat_of_lt' bounded
      have nonzero : UInt8.ofNat cut.length ≠ 0 := by
        intro zero
        rw [zero] at byte
        exact some_left byte.symm
      rw [same, List.cons_append, List.cons_append, skipName, if_neg nonzero, byte, if_neg, List.append_assoc,
        List.drop_left]
      · exact ih (by omega)
      · rw [List.length_append, List.length_append]
        omega

theorem header_length (framer : DnsFramer) (id : UInt16) : (framer.header id).length = kDnsHeaderSize := by
  simp only [header, List.length_append, writeU16_length]
  rfl

theorem unwrap_framed {head trailer payload : Bytes} {labels : List Bytes} (headed : head.length = kDnsHeaderSize)
    (trailed : trailer.length = kDnsQuestionTrailerSize) (fits : payload.length ≤ 0xFFFF) {room : ℕ}
    (roomy : payload.length ≤ room) :
    unwrap (head ++ (labels.flatMap encodeLabel ++ 0 :: (trailer ++
      (writeU16 (UInt16.ofNat payload.length) ++ payload)))) room = .ok payload := by
  let rest := trailer ++ (writeU16 (UInt16.ofNat payload.length) ++ payload)
  have length : rest.length = kDnsQuestionTrailerSize + kDnsPayloadLengthSize + payload.length := by
    rw [List.length_append, List.length_append, trailed, writeU16_length, Nat.add_assoc]
    rfl
  have announced : (readU16 rest kDnsQuestionTrailerSize).toNat = payload.length := by
    have value := readU16_append trailer payload (UInt16.ofNat payload.length) _ trailed
    rw [List.append_assoc] at value
    rw [value, UInt16.toNat_ofNat']
    exact Nat.mod_eq_of_lt (by omega)
  have body : rest.drop (kDnsQuestionTrailerSize + kDnsPayloadLengthSize) = payload := by
    rw [← List.drop_drop, List.drop_left' trailed]
    exact List.drop_left' (writeU16_length _)
  have skipped : skipName (head ++ (labels.flatMap encodeLabel ++ 0 :: rest)).length
      (labels.flatMap encodeLabel ++ 0 :: rest) = some rest := by
    apply skipName_labels
    simp only [List.length_append, List.length_cons]
    omega
  have large : ¬ (head ++ (labels.flatMap encodeLabel ++ 0 :: rest)).length < kDnsHeaderSize := by
    rw [List.length_append]
    omega
  rw [unwrap, if_neg large, List.drop_left' headed, skipped]
  simp only [announced, body]
  rw [if_neg (by omega), if_neg (Nat.lt_irrefl _), if_neg (by omega), List.take_length]

/-- Every configured framer is read back, whatever its role and its domain. -/
theorem wrap_unwrap (framer : DnsFramer) (role : DnsRole) (domain : Bytes) {payload : Bytes}
    (fits : payload.length ≤ 0xFFFF) :
    ∃ wire, ((framer.configure role domain).wrap payload
        ((framer.configure role domain).envelopeSize + payload.length)).1 = .ok wire ∧
      wire.length = (framer.configure role domain).envelopeSize + payload.length ∧
      ∀ room, payload.length ≤ room → unwrap wire room = .ok payload := by
  obtain ⟨labels, named⟩ : ∃ labels : List Bytes, (framer.configure role domain).qname =
      labels.flatMap encodeLabel ++ [0] := ⟨_, rfl⟩
  revert named
  generalize framer.configure role domain = configured
  intro named
  have headed := configured.header_length (configured.id + 1)
  refine ⟨_, by rw [wrap, if_neg (by omega), if_neg (Nat.lt_irrefl _)], ?_, fun room roomy => ?_⟩
  · simp only [List.length_append, headed, writeU16_length, envelopeSize, kDnsQuestionTrailerSize,
      kDnsPayloadLengthSize]
    omega
  · rw [named, List.append_assoc, List.singleton_append]
    exact unwrap_framed headed rfl fits roomy

theorem wrap_keeps (framer : DnsFramer) (payload : Bytes) (room : ℕ) :
    ∃ id, (framer.wrap payload room).2 = { framer with id } := by
  simp only [wrap]
  split_ifs
  · exact ⟨framer.id, rfl⟩
  · exact ⟨framer.id, rfl⟩
  · exact ⟨_, rfl⟩

end DnsFramer

structure DnsCarrier where
  framer : DnsFramer
  obfuscator : Obfuscator := {}

namespace DnsCarrier

variable (cipher : StreamCipher) (random : Randomness)

def obfuscate (carrier : DnsCarrier) (payload : Bytes) : Option Bytes × Obfuscator :=
  if carrier.obfuscator.enabled then
    let wrapped := carrier.obfuscator.wrap cipher random payload (payload.length + carrier.obfuscator.maxOverhead)
    (wrapped.1.toOption, wrapped.2)
  else (some payload, carrier.obfuscator)

/-- One round of the loop of send_batch: the framed datagram, or nothing if it is skipped. -/
def encode (carrier : DnsCarrier) (payload : Bytes) : Option Bytes × DnsCarrier :=
  match carrier.obfuscate cipher random payload with
  | (none, obfuscator) => (none, { carrier with obfuscator })
  | (some inner, obfuscator) =>
    let framed := carrier.framer.wrap inner (carrier.framer.envelopeSize + inner.length)
    (framed.1.toOption, ⟨framed.2, obfuscator⟩)

def encodeAll : DnsCarrier → List OutboundDatagram → List OutboundDatagram × DnsCarrier
  | carrier, [] => ([], carrier)
  | carrier, datagram :: datagrams =>
    let encoded := carrier.encode cipher random datagram.payload
    let rest := encodeAll encoded.2 datagrams
    match encoded.1 with
    | none => rest
    | some payload => (⟨datagram.destination, payload⟩ :: rest.1, rest.2)

/-- `send` is the answer of the UdpTransport to a batch. -/
def sendBatch (carrier : DnsCarrier) (send : List OutboundDatagram → Except TransportError ℕ)
    (datagrams : List OutboundDatagram) : Except TransportError ℕ × DnsCarrier :=
  let encoded := carrier.encodeAll cipher random datagrams
  if encoded.1 = [] then (.ok 0, encoded.2)
  else
    match send encoded.1 with
    | .error error => (.error error, encoded.2)
    | .ok sent => (.ok (min sent datagrams.length), encoded.2)

def decode (carrier : DnsCarrier) (wire : Bytes) : Option Bytes := do
  let inner ← (DnsFramer.unwrap wire wire.length).toOption
  if carrier.obfuscator.enabled then (carrier.obfuscator.unwrap cipher inner inner.length).toOption else some inner

/-- What receive_batch keeps of a batch from the transport. -/
def receiveBatch (carrier : DnsCarrier) (received : List ReceivedDatagram) : List ReceivedDatagram :=
  received.filterMap fun datagram => (carrier.decode cipher datagram.payload).map (⟨datagram.source, ·⟩)

/-- Every datagram of a batch fits into a DNS message, at the time it is wrapped. -/
def Fits : DnsCarrier → List OutboundDatagram → Prop
  | _, [] => True
  | carrier, datagram :: datagrams =>
    (∀ inner ∈ (carrier.obfuscate cipher random datagram.payload).1,
      carrier.framer.envelopeSize + inner.length ≤ 65535) ∧
    Fits (carrier.encode cipher random datagram.payload).2 datagrams

/-- A carrier of the constructor, and the other end of its obfuscation. -/
structure Matches (sender receiver : DnsCarrier) : Prop where
  framed : ∃ framer role domain, sender.framer = DnsFramer.configure framer role domain
  mode : receiver.obfuscator.config.mode = sender.obfuscator.config.mode
  key : receiver.obfuscator.key = sender.obfuscator.key

variable {cipher random} {sender receiver : DnsCarrier}

theorem obfuscate_unwrap (cipher : StreamCipher) (random : Randomness)
    (mode : receiver.obfuscator.config.mode = sender.obfuscator.config.mode)
    (key : receiver.obfuscator.key = sender.obfuscator.key) (payload : Bytes) :
    ∃ inner obfuscator, sender.obfuscate cipher random payload = (some inner, obfuscator) ∧
      sender.obfuscator.SameSetup obfuscator ∧
      (if receiver.obfuscator.enabled then (receiver.obfuscator.unwrap cipher inner inner.length).toOption
        else some inner) = some payload := by
  have same : receiver.obfuscator.enabled = sender.obfuscator.enabled := by
    rw [Obfuscator.enabled, Obfuscator.enabled, mode]
  rw [same, obfuscate]
  by_cases enabled : sender.obfuscator.enabled
  · obtain ⟨wire, wrapped, large, -, opened⟩ :=
      Obfuscator.wrap_unwrap cipher random (of_decide_eq_true enabled) mode key payload
    rw [if_pos enabled]
    refine ⟨wire, _, Prod.ext (congrArg Except.toOption wrapped) rfl, Obfuscator.wrap_setup _ _ _ _ _, ?_⟩
    rw [if_pos enabled, opened _ large]
    rfl
  · rw [if_neg enabled]
    exact ⟨payload, _, rfl, ⟨rfl, rfl⟩, if_neg enabled⟩

theorem encode_decode (matching : sender.Matches receiver) {payload : Bytes}
    (fits : ∀ inner ∈ (sender.obfuscate cipher random payload).1,
      sender.framer.envelopeSize + inner.length ≤ 65535) :
    (∃ wire, (sender.encode cipher random payload).1 = some wire ∧ receiver.decode cipher wire = some payload) ∧
      (sender.encode cipher random payload).2.Matches receiver := by
  obtain ⟨⟨framer, role, domain, framed⟩, mode, key⟩ := matching
  obtain ⟨inner, obfuscator, hidden, setup, opened⟩ := obfuscate_unwrap cipher random mode key payload
  have small := fits inner (congrArg Prod.fst hidden)
  obtain ⟨wire, wrapped, length, unframed⟩ := DnsFramer.wrap_unwrap framer role domain
    (show inner.length ≤ 0xFFFF by omega)
  rw [← framed] at wrapped length
  rw [encode, hidden]
  refine ⟨⟨wire, congrArg Except.toOption wrapped, ?_⟩, ⟨?_, ?_, ?_⟩⟩
  · have inside : DnsFramer.unwrap wire wire.length = .ok inner := unframed _ (by omega)
    rw [decode, inside]
    exact opened
  · obtain ⟨id, kept⟩ := DnsFramer.wrap_keeps sender.framer inner (sender.framer.envelopeSize + inner.length)
    exact ⟨{ framer with id }, role, domain, kept.trans (by rw [framed]; rfl)⟩
  · exact mode.trans (congrArg _ setup.config.symm)
  · exact key.trans setup.key.symm

/-- A batch that fits arrives as it was sent. -/
theorem encodeAll_receiveBatch (matching : sender.Matches receiver) {datagrams : List OutboundDatagram}
    (fits : Fits cipher random sender datagrams) (source : Endpoint) :
    (sender.encodeAll cipher random datagrams).1.map (·.destination) = datagrams.map (·.destination) ∧
      receiver.receiveBatch cipher ((sender.encodeAll cipher random datagrams).1.map (⟨source, ·.payload⟩)) =
        datagrams.map (⟨source, ·.payload⟩) := by
  induction datagrams generalizing sender with
  | nil => exact ⟨rfl, rfl⟩
  | cons datagram datagrams ih =>
    obtain ⟨⟨wire, encoded, decoded⟩, still⟩ := encode_decode matching fits.1
    obtain ⟨destinations, payloads⟩ := ih still fits.2
    simp only [encodeAll, encoded, List.map_cons, destinations]
    refine ⟨trivial, ?_⟩
    rw [receiveBatch] at payloads ⊢
    rw [List.filterMap_cons, decoded, Option.map_some, payloads]

theorem sendBatch_eq {batch datagrams : List OutboundDatagram} {carrier : DnsCarrier}
    (encoded : (carrier.encodeAll cipher random datagrams).1 = batch) (all : batch.length = datagrams.length)
    {send : List OutboundDatagram → Except TransportError ℕ}
    (honest : ∀ count, send batch = .ok count → count ≤ batch.length) :
    (carrier.sendBatch cipher random send datagrams).1 = if datagrams = [] then .ok 0 else send batch := by
  have empty : batch = [] ↔ datagrams = [] := by
    rw [← List.length_eq_zero_iff, all, List.length_eq_zero_iff]
  simp only [sendBatch, encoded, empty]
  split_ifs
  · rfl
  · cases sent : send batch with
    | error error => rfl
    | ok count =>
      have bounded := honest count sent
      exact congrArg Except.ok (Nat.min_eq_left (by omega))

/-- Obfuscation alone, framing alone, and a batch through a DnsCarrier and back. -/
theorem obfuscation_framing_lossless (cipher : StreamCipher) (random : Randomness) (crypto : Crypto)
    (preshared : PresharedKey) :
    (∀ (sender receiver : Obfuscator) (plaintext : Bytes), sender.config.mode ≠ .off →
      receiver.config.mode = sender.config.mode → sender.key = deriveObfuscationKey crypto preshared →
      receiver.key = deriveObfuscationKey crypto preshared →
      ∃ wire, (sender.wrap cipher random plaintext (plaintext.length + sender.maxOverhead)).1 = .ok wire ∧
        wire.length ≤ plaintext.length + sender.maxOverhead ∧
        receiver.unwrap cipher wire wire.length = .ok plaintext) ∧
    (∀ (framer : DnsFramer) (role : DnsRole) (domain payload : Bytes),
      (framer.configure role domain).envelopeSize + payload.length ≤ 65535 →
      ∃ wire, ((framer.configure role domain).wrap payload
          ((framer.configure role domain).envelopeSize + payload.length)).1 = .ok wire ∧
        wire.length = (framer.configure role domain).envelopeSize + payload.length ∧
        DnsFramer.unwrap wire wire.length = .ok payload) ∧
    (∀ (sender receiver : DnsCarrier) (datagrams : List OutboundDatagram) (source : Endpoint),
      sender.Matches receiver → Fits cipher random sender datagrams →
      ∃ batch, batch.map (·.destination) = datagrams.map (·.destination) ∧
        (∀ send, (∀ count, send batch = .ok count → count ≤ batch.length) →
          (sender.sendBatch cipher random send datagrams).1 = if datagrams = [] then .ok 0 else send batch) ∧
        receiver.receiveBatch cipher (batch.map (⟨source, ·.payload⟩)) = datagrams.map (⟨source, ·.payload⟩)) := by
  refine ⟨?_, ?_, ?_⟩
  · intro sender receiver plaintext mode modes ownKey otherKey
    obtain ⟨wire, wrapped, large, small, opened⟩ :=
      Obfuscator.wrap_unwrap cipher random mode modes (otherKey.trans ownKey.symm) plaintext
    exact ⟨wire, wrapped, small, opened _ large⟩
  · intro framer role domain payload fits
    obtain ⟨wire, wrapped, length, unframed⟩ := DnsFramer.wrap_unwrap framer role domain
      (show payload.length ≤ 0xFFFF by omega)
    exact ⟨wire, wrapped, length, unframed _ (by omega)⟩
  · intro sender receiver datagrams source matching fits
    obtain ⟨destinations, payloads⟩ := encodeAll_receiveBatch matching fits source
    have all := congrArg List.length destinations
    rw [List.length_map, List.length_map] at all
    exact ⟨_, destinations, fun send honest => sendBatch_eq rfl all honest, payloads⟩

open Randomness StreamCipher

def paddedCarrier : DnsCarrier :=
  ⟨DnsFramer.configure {} .client [], Obfuscator.configure .plain {}
    { mode := .full, junkPadding := true, lengthBucket := 16 } (Octets.zero 32) none⟩

def resolver : Endpoint := ⟨.fromBytes .ipv4 [10, 0, 0, 1], 53⟩

def questions : List OutboundDatagram := [⟨resolver, [1, 2, 3]⟩, ⟨resolver, [4]⟩]

/-- The first question is padded with 12 bytes and the second with 14. -/
theorem padded_carrier_lossless :
    ((paddedCarrier.encodeAll flipping steady questions).1.map (·.payload.length) =
      List.replicate 2 (paddedCarrier.framer.envelopeSize + 24)) ∧
    (∃ wire, (paddedCarrier.obfuscator.wrap flipping steady [1, 2, 3]
        (3 + paddedCarrier.obfuscator.maxOverhead)).1 = .ok wire ∧
      wire.length ≤ 3 + paddedCarrier.obfuscator.maxOverhead ∧
      paddedCarrier.obfuscator.unwrap flipping wire wire.length = .ok [1, 2, 3]) ∧
    (∃ wire, (paddedCarrier.framer.wrap [1, 2, 3] (paddedCarrier.framer.envelopeSize + 3)).1 = .ok wire ∧
      wire.length = paddedCarrier.framer.envelopeSize + 3 ∧ DnsFramer.unwrap wire wire.length = .ok [1, 2, 3]) ∧
    (∃ batch, batch.map (·.destination) = [resolver, resolver] ∧
      (∀ send, (∀ count, send batch = .ok count → count ≤ batch.length) →
        (paddedCarrier.sendBatch flipping steady send questions).1 = send batch) ∧
      paddedCarrier.receiveBatch flipping (batch.map (⟨resolver, ·.payload⟩)) =
        [⟨resolver, [1, 2, 3]⟩, ⟨resolver, [4]⟩]) := by
  have lossless := obfuscation_framing_lossless flipping steady .plain (Octets.zero 32)
  refine ⟨by decide +kernel, lossless.1 _ _ [1, 2, 3] (by decide) rfl rfl rfl,
    lossless.2.1 _ .client [] [1, 2, 3] (by decide +kernel), ?_⟩
  exact lossless.2.2 paddedCarrier paddedCarrier questions resolver
    ⟨⟨_, _, _, rfl⟩, rfl, rfl⟩ ⟨by decide +kernel, by decide +kernel, trivial⟩

end DnsCarrier

end Norr
