import Norr.Worker.Batching

/-! Frames through the tunnel: what the sender accepts from its TUN device is what the receiver hands to
its own, when the carrier loses nothing and keeps the order. -/

namespace Norr

open Fec ByteOrder

/-- Padding does not change the length a packet declares. -/
theorem declaredIpLength_padded {bytes : Bytes} {length : ℕ} (declared : declaredIpLength bytes = some length)
    (rest : Bytes) : declaredIpLength (bytes ++ rest) = some length := by
  unfold declaredIpLength at declared
  dsimp only at declared
  split_ifs at declared with empty four short small six tiny
  all_goals
    have nonempty : bytes ++ rest ≠ [] := fun nil => empty (List.append_eq_nil_iff.mp nil).1
    have version : ipVersion (bytes ++ rest) = ipVersion bytes := by
      rw [ipVersion, ipVersion, List.getD_append _ _ _ _ (List.length_pos_iff.mpr empty)]
    have long : bytes.length ≤ (bytes ++ rest).length := by
      rw [List.length_append]
      exact Nat.le_add_right _ _
    unfold declaredIpLength
    rw [if_neg nonempty, version]
  · have header : kIpv4HeaderSize = 20 := rfl
    have total : readU16 (bytes ++ rest) 2 = readU16 bytes 2 := by
      rw [readU16, readU16, slice_isPrefix (List.prefix_append bytes rest) (by omega)]
    rw [if_pos four, if_neg (by omega), total]
    dsimp only
    rw [if_neg small]
    exact declared
  · have header : kIpv6HeaderSize = 40 := rfl
    have total : readU16 (bytes ++ rest) 4 = readU16 bytes 4 := by
      rw [readU16, readU16, slice_isPrefix (List.prefix_append bytes rest) (by omega)]
    rw [if_neg four, if_pos six, if_neg (by omega), total]
    exact declared

theorem paddedLength_bounds (length : ℕ) : length ≤ paddedLength length ∧
    (length ≤ 9216 → paddedLength length ≤ 9216) := by
  unfold paddedLength kPaddingAlignment
  split_ifs <;> omega

namespace Worker

theorem profilePadded_bounds (profile : TrafficProfile) (length : ℕ) :
    length ≤ profilePaddedLength profile length ∧
      (length ≤ kFrameBufferSize → profilePaddedLength profile length ≤ kFrameBufferSize) := by
  obtain ⟨above, below⟩ := paddedLength_bounds length
  unfold profilePaddedLength
  cases found : (profileBuckets profile).find? (paddedLength length ≤ ·) with
  | none => exact ⟨above, below⟩
  | some bucket =>
    have fits : paddedLength length ≤ bucket := by
      simpa using List.find?_some found
    have small : ∀ bucket ∈ profileBuckets profile, bucket ≤ kFrameBufferSize := by
      cases profile <;> decide
    exact ⟨above.trans fits, fun _ => small bucket (List.mem_of_find?_eq_some found)⟩

theorem paddedFrame_bounds {worker : Worker} (mtu : worker.mtu ≤ kFrameBufferSize) {length : ℕ}
    (size : length ≤ kFrameBufferSize) :
    length ≤ worker.paddedFrame length ∧ worker.paddedFrame length ≤ kFrameBufferSize := by
  obtain ⟨above, below⟩ := profilePadded_bounds worker.profile length
  unfold paddedFrame
  dsimp only
  split_ifs
  · exact ⟨le_max_left _ _, max_le size mtu⟩
  · exact ⟨above, below size⟩

/-- The padding of a frame is cut off again. -/
theorem innerPacket_padded {routes : RoutingTable} {peer : PeerId} {frame : Bytes} {view : IpPacketView}
    (parsed : parseIpPacket frame = .ok view) (accepted : (routes.classify view peer).accepted = true)
    (padded : ℕ) : innerPacket routes peer (padTo frame padded) = .ok frame := by
  have declared := declaredIpLength_padded (parse_declared parsed) (List.replicate (padded - frame.length) 0)
  have cut : (padTo frame padded).take frame.length = frame := List.take_left
  unfold innerPacket
  rw [padTo, declared]
  dsimp only
  rw [← padTo, if_neg (by rw [padTo, List.length_append]; omega), cut, parsed]
  dsimp only
  rw [if_pos accepted]

variable {crypto : Crypto} {heap : HeapAlgorithms}

/-- A sealed frame on the wire: it parses, is neither a handshake nor a symbol, and opens. -/
structure SealedAs (crypto : Crypto) (key : TrafficKey) (keyId : UInt16) (position : ℕ) (plain wire : Bytes) :
    Prop where
  size : wire.length ≤ 0xFFFF
  first : wire.head? = some 0x11
  opens : ∃ view, parsePacket wire = .ok view ∧ view.header.keyId = keyId ∧ view.header.type = .data ∧
    view.header.counter.toNat = position ∧
    crypto.open key view.header.counter (wire.take kPacketHeaderSize) view.payload kFrameBufferSize = .ok plain

theorem sealReserved_sealed (inverts : crypto.Inverts) {session : Session}
    (named : session.remoteKeyId ≠ kPreSessionKeyId) (counter : UInt64) {plain : Bytes}
    (size : plain.length ≤ kFrameBufferSize) :
    ∃ wire, session.sealReserved crypto .data counter plain kEncryptBufferSize = .ok wire ∧
      SealedAs crypto session.sendKey session.remoteKeyId counter.toNat plain wire := by
  have room : plain.length ≤ 9216 := size
  have fits : kPacketHeaderSize + (plain.length + kAeadTagSize) ≤ kEncryptBufferSize := by
    simp only [kEncryptBufferSize, kPacketHeaderSize, kAeadTagSize, kFrameBufferSize, kPaddingAlignment]
    omega
  have small : plain.length + kAeadTagSize ≤ kMaximumPacketSize - kPacketHeaderSize := by
    simp only [kMaximumPacketSize, kPacketHeaderSize, kAeadTagSize]
    omega
  obtain ⟨header, sealed, done, rfl, valid, sized, opens⟩ :=
    Session.sealReserved_ok inverts named counter fits small
  refine ⟨_, done, ?_, ?_, _, parse_headerBytes _ valid sealed (sized.symm ▸ small), rfl, rfl, rfl, ?_⟩
  · rw [List.length_append, headerBytes_length, sized]
    simp only [kPacketHeaderSize, kAeadTagSize]
    omega
  · change some ((kProtocolVersion <<< 4) ||| FrameType.data.code) = some 0x11
    decide
  · rw [List.take_left' (headerBytes_length _ _)]
    exact opens _ size

theorem deliverOpened_frame (worker : Worker) (ref : SessionRef) (session : Session) (packet : Bytes)
    {header : PacketHeader} (data : header.type = .data) {plaintext frame : Bytes}
    (inner : innerPacket worker.routes session.peer plaintext = .ok frame) (env : Env) :
    ∃ delivery : Delivery, delivery.handed = some frame ∧
      (worker.deliverOpened crypto ref session packet header plaintext env).2 =
        { worker with deliveries := worker.deliveries ++ [delivery] } := by
  simp only [deliverOpened, data, reduceCtorEq, if_false, inner]
  split_ifs
  · exact ⟨_, rfl, rfl⟩
  · exact ⟨_, rfl, rfl⟩

/-- The decoder the symbols of a source pass through. -/
def decoderFor (worker : Worker) (source : Endpoint) : FecDecoder :=
  ((worker.fecSources.find? (·.source = source)).map FecSource.decoder).getD {}

theorem mem_dropStalest {sources : List FecSource} {entry : FecSource} (member : entry ∈ dropStalest sources) :
    entry ∈ sources := by
  unfold dropStalest at member
  split at member
  · exact member
  · exact List.mem_of_mem_eraseIdx member

theorem receiveSymbol_decoder (worker : Worker) (source : Endpoint) (header : FecSymbolHeader) (body : Bytes)
    (now : Instant) :
    (worker.receiveSymbol source header body now).1 = ((worker.decoderFor source).receive header body now).2 ∧
      (worker.receiveSymbol source header body now).2.decoderFor source =
        ((worker.decoderFor source).receive header body now).1 := by
  have search (sources : List FecSource) : sources.find? (·.source = source) =
      (sources.findIdx? (·.source = source)).bind fun index => sources[index]? :=
    List.find?_eq_bind_findIdx?_getElem?
  unfold receiveSymbol
  cases place : worker.fecSources.findIdx? (·.source = source) with
  | none =>
    have absent := List.findIdx?_eq_none_iff.mp place
    have blank : worker.decoderFor source = {} := by
      rw [decoderFor, search, place]
      rfl
    have kept : (if kMaximumFecSources ≤ worker.fecSources.length then dropStalest worker.fecSources
        else worker.fecSources).find? (·.source = source) = none := by
      rw [List.find?_eq_none]
      intro entry member
      rw [absent entry]
      · simp
      · split_ifs at member
        · exact mem_dropStalest member
        · exact member
    rw [blank]
    refine ⟨rfl, ?_⟩
    dsimp only [decoderFor]
    rw [List.find?_append, kept]
    simp
  | some index =>
    obtain ⟨bound, own, -⟩ := List.findIdx?_eq_some_iff_getElem.mp place
    have decoder : worker.decoderFor source =
        (worker.fecSources[index]?.map FecSource.decoder).getD {} := by
      rw [decoderFor, search, place]
      rfl
    dsimp only
    rw [decoder]
    refine ⟨rfl, ?_⟩
    rw [decoderFor, search, List.findIdx?_set_same, place]
    · simp [bound]
    · intro old found
      rw [List.getElem?_eq_getElem bound] at found
      cases found
      rw [own]
      simp

end Worker

/-- One direction of a tunnel: the session at both ends, and how either end knows the other. -/
structure Tunnel where
  peer : PeerId
  outgoing : SessionRef
  incoming : SessionRef
  keyId : UInt16
  key : TrafficKey
  source : Endpoint
  ingress : PeerId
  routes : RoutingTable

namespace Tunnel

open Worker

/-- What the tunnel's end does: read a frame from the TUN device, or send what is staged. -/
inductive Call
  | route (frame : Bytes) (env : Env)
  | flush (env : Env)

namespace Call

def env : Call → Env
  | route _ env => env
  | flush env => env

def frames : Call → List Bytes
  | route frame _ => [frame]
  | flush _ => []

variable (crypto : Crypto) (heap : HeapAlgorithms)

def perform (worker : Worker) : Call → Worker
  | route frame env => (worker.routeFromTun crypto heap frame true env).2
  | flush env => (worker.flushTransmit crypto env).2

/-- route_from_tun accepts the frame for the peer. -/
def Accepted (peer : PeerId) (worker : Worker) : Call → Prop
  | route frame env => frame.length ≤ kFrameBufferSize ∧
      (worker.routeFromTun crypto heap frame true env).1 = .none ∧
      ∀ view, parseIpPacket frame = .ok view → (worker.routes.classify view kNoPeer).peer = peer
  | flush _ => True

def performAll (worker : Worker) (calls : List Call) : Worker := calls.foldl (perform crypto heap) worker

def AllAccepted (peer : PeerId) : Worker → List Call → Prop
  | _, [] => True
  | worker, call :: calls => call.Accepted crypto heap peer worker ∧
      AllAccepted peer (call.perform crypto heap worker) calls

end Call

variable {crypto : Crypto} {heap : HeapAlgorithms} {tunnel : Tunnel} {sender receiver after : Worker}
  {position padded start : ℕ} {frame plain wire : Bytes} {frames staged delivered : List Bytes}
  {sent : List OutboundDatagram} {inbound : InboundDatagram} {inbounds : List InboundDatagram} {env : Env}

/-- The receiver has the session, and no counter from `position` on has reached it. -/
structure Listens (tunnel : Tunnel) (receiver : Worker) (position : ℕ) : Prop where
  found : receiver.node.table.findByKeyId tunnel.keyId = some tunnel.incoming
  session : ∃ session, receiver.node.table.get tunnel.incoming = some session ∧
    session.receiveKey = tunnel.key ∧ session.peer = tunnel.ingress ∧ session.replay.FreshFrom position
  routes : receiver.routes = tunnel.routes

/-- A packet that the receiver's routes accept from its peer. -/
def Admits (tunnel : Tunnel) (frame : Bytes) : Prop :=
  ∃ view, parseIpPacket frame = .ok view ∧ (tunnel.routes.classify view tunnel.ingress).accepted = true

/-- The receiver hands over the frame and awaits the next counter. -/
structure Hands (tunnel : Tunnel) (receiver after : Worker) (frames : List Bytes) (position : ℕ) : Prop where
  handed : after.deliveries.map Delivery.handed = receiver.deliveries.map Delivery.handed ++ frames.map some
  listens : tunnel.Listens after position

theorem forwardSealed_hands (listens : tunnel.Listens receiver position) (admitted : tunnel.Admits frame)
    (sealed : SealedAs crypto tunnel.key tunnel.keyId position (padTo frame padded) wire)
    (source : Endpoint) (env : Env) :
    tunnel.Hands receiver (receiver.forwardSealed crypto heap source wire false env).2 [frame] (position + 1) ∧
      (receiver.forwardSealed crypto heap source wire false env).2.fecSources = receiver.fecSources := by
  obtain ⟨view, parsed, accepted⟩ := admitted
  obtain ⟨session, present, key, peer, fresh⟩ := listens.session
  obtain ⟨outer, read, keyId, type, counter, opens⟩ := sealed.opens
  rw [← counter] at fresh
  rw [← key] at opens
  have long : kPacketHeaderSize ≤ wire.length := by
    by_contra short
    rw [parsePacket, if_pos (not_le.mp short)] at read
    cases read
  obtain ⟨after, opened, sameKey, samePeer, later⟩ := Session.open_fresh env.now long fresh opens
  have inner : innerPacket receiver.routes session.peer (padTo frame padded) = .ok frame := by
    rw [listens.routes, peer]
    exact innerPacket_padded parsed accepted padded
  have found := listens.found
  rw [← keyId] at found
  simp only [forwardSealed, read, found, present, opened, Bool.false_eq_true, if_false]
  obtain ⟨delivery, handed, done⟩ := deliverOpened_frame
    (receiver.updateSession tunnel.incoming fun _ => after.noteAuthenticatedEndpoint source) tunnel.incoming
    (after.noteAuthenticatedEndpoint source) wire type (by rw [← samePeer] at inner; exact inner) env
  rw [done]
  refine ⟨⟨?_, listens.found, ⟨after.noteAuthenticatedEndpoint source, ?_, ?_, ?_, ?_⟩, listens.routes⟩, rfl⟩
  · rw [List.map_append, List.map_singleton, handed]
    rfl
  · exact SessionTable.get_update_self present _
  · exact sameKey.trans key
  · exact samePeer.trans peer
  · exact counter ▸ later

/-- Received in order, the datagrams hand over the frames; none of them is a handshake or overtaken. -/
structure Delivers (crypto : Crypto) (heap : HeapAlgorithms) (tunnel : Tunnel) (receiver : Worker)
    (inbounds : List InboundDatagram) (frames : List Bytes) (position : ℕ) : Prop extends
    Hands tunnel receiver (receiver.forwardAll crypto heap inbounds) frames position where
  calm : Calm crypto heap receiver inbounds
  data : ∀ inbound ∈ inbounds, looksLikeHandshake inbound.payload = false

theorem Delivers.nil (listens : tunnel.Listens receiver position) :
    Delivers crypto heap tunnel receiver [] [] position :=
  ⟨⟨(List.append_nil _).symm, listens⟩, trivial, by simp⟩

theorem forwardAll_append (receiver : Worker) (first second : List InboundDatagram) :
    receiver.forwardAll crypto heap (first ++ second) =
      (receiver.forwardAll crypto heap first).forwardAll crypto heap second := List.foldl_append ..

theorem Delivers.append {first second : List InboundDatagram} {early late : List Bytes} {middle : ℕ}
    (before : Delivers crypto heap tunnel receiver first early middle)
    (after : Delivers crypto heap tunnel (receiver.forwardAll crypto heap first) second late position) :
    Delivers crypto heap tunnel receiver (first ++ second) (early ++ late) position := by
  refine ⟨⟨?_, ?_⟩, ?_, ?_⟩
  · rw [forwardAll_append, after.handed, before.handed, List.map_append, List.append_assoc]
  · rw [forwardAll_append]
    exact after.listens
  · exact calm_append.mpr ⟨before.calm, after.calm⟩
  · rw [List.forall_mem_append]
    exact ⟨before.data, after.data⟩

/-- One datagram, which starts like a frame or a symbol. -/
theorem Delivers.single {first : UInt8}
    (hands : tunnel.Hands receiver (receiver.forwardAll crypto heap [inbound]) frames position)
    (calm : ¬ receiver.Overtaken inbound) (starts : inbound.payload.head? = some first) (above : 0x10 ≤ first) :
    Delivers crypto heap tunnel receiver [inbound] frames position := by
  refine ⟨hands, ⟨calm, trivial⟩, fun single member => ?_⟩
  rw [List.mem_singleton.mp member, looksLikeHandshake, starts]
  simpa using above

theorem plain_delivers (listens : tunnel.Listens receiver position) (admitted : tunnel.Admits frame)
    (sealed : SealedAs crypto tunnel.key tunnel.keyId position (padTo frame padded) wire)
    (payload : inbound.payload = wire) :
    Delivers crypto heap tunnel receiver [inbound] [frame] (position + 1) ∧
      (receiver.forwardAll crypto heap [inbound]).fecSources = receiver.fecSources := by
  have other : looksLikeFecSymbol wire = false := by
    rw [looksLikeFecSymbol, sealed.first]
    decide
  have forwarded : receiver.forwardAll crypto heap [inbound] =
      (receiver.forwardSealed crypto heap inbound.source wire false inbound.env).2 := by
    rw [forwardAll, List.foldl_cons, List.foldl_nil, forwardFromTransport, payload, other]
    rfl
  obtain ⟨hands, sources⟩ : tunnel.Hands receiver
      (receiver.forwardSealed crypto heap inbound.source wire false inbound.env).2 [frame] (position + 1) ∧ _ :=
    forwardSealed_hands listens admitted sealed inbound.source inbound.env
  rw [← forwarded] at hands sources
  refine ⟨.single hands ?_ (payload ▸ sealed.first) (by decide), sources⟩
  rintro ⟨-, -, shaped, -⟩
  rw [payload, other] at shaped
  cases shaped

/-- A symbol on its way in, and what its decoder makes of it. -/
structure Symbol (receiver : Worker) (inbound : InboundDatagram) (header : FecSymbolHeader) (body : Bytes)
    (after : FecDecoder) : Prop where
  payload : inbound.payload = serializeFecHeader header ++ body
  parsed : parseFecHeader inbound.payload = some header
  received : (receiver.decoderFor inbound.source).receive header body inbound.env.now = (after, [])

namespace Symbol

variable {header : FecSymbolHeader} {body : Bytes} {after : FecDecoder}

theorem body_eq (symbol : Symbol receiver inbound header body after) :
    inbound.payload.drop kFecHeaderSize = body := by
  rw [symbol.payload]
  exact List.drop_left' (serializeFecHeader_length header)

theorem first (symbol : Symbol receiver inbound header body after) : inbound.payload.head? = some kFecTag := by
  rw [symbol.payload]
  rfl

theorem silent (symbol : Symbol receiver inbound header body after) :
    receiver.receiveSymbol inbound.source header body inbound.env.now =
        ([], (receiver.receiveSymbol inbound.source header body inbound.env.now).2) ∧
      (receiver.receiveSymbol inbound.source header body inbound.env.now).2.decoderFor inbound.source = after := by
  obtain ⟨recovered, decoder⟩ := receiver.receiveSymbol_decoder inbound.source header body inbound.env.now
  rw [symbol.received] at recovered decoder
  exact ⟨Prod.ext recovered rfl, decoder⟩

theorem forwarded (symbol : Symbol receiver inbound header body after) :
    receiver.forwardAll crypto heap [inbound] =
      (if header.parity then (.none, (receiver.receiveSymbol inbound.source header body inbound.env.now).2)
        else (receiver.receiveSymbol inbound.source header body inbound.env.now).2.forwardSealed crypto heap
          inbound.source body false inbound.env).2 := by
  have shaped : looksLikeFecSymbol inbound.payload = true := by
    rw [looksLikeFecSymbol, symbol.first]
    rfl
  rw [forwardAll, List.foldl_cons, List.foldl_nil, forwardFromTransport, if_pos shaped, symbol.parsed]
  dsimp only
  rw [symbol.body_eq, symbol.silent.1]
  rfl

theorem calm (symbol : Symbol receiver inbound header body after) : ¬ receiver.Overtaken inbound := by
  rintro ⟨other, parsed, -, -, recovers, -⟩
  rw [symbol.parsed] at parsed
  cases parsed
  rw [symbol.body_eq, symbol.silent.1] at recovers
  exact recovers rfl

end Symbol

theorem Listens.symbol (listens : tunnel.Listens receiver position)
    (source : Endpoint) (header : FecSymbolHeader) (body : Bytes) (now : Instant) :
    tunnel.Listens (receiver.receiveSymbol source header body now).2 position ∧
      (receiver.receiveSymbol source header body now).2.deliveries = receiver.deliveries := by
  unfold receiveSymbol
  split <;> exact ⟨{ listens with }, rfl⟩

/-- Parity of a finished block hands over nothing. -/
theorem parity_delivers (listens : tunnel.Listens receiver position)
    (inbounds : List InboundDatagram) (sourced : ∀ inbound ∈ inbounds, inbound.source = tunnel.source)
    (parity : ∀ inbound ∈ inbounds, ∃ header body, inbound.payload = serializeFecHeader header ++ body ∧
      parseFecHeader inbound.payload = some header ∧ header.parity = true ∧
      header.blockId ∈ (receiver.decoderFor tunnel.source).finished) :
    Delivers crypto heap tunnel receiver inbounds [] position ∧
      (receiver.forwardAll crypto heap inbounds).decoderFor tunnel.source = receiver.decoderFor tunnel.source := by
  induction inbounds generalizing receiver with
  | nil => exact ⟨.nil listens, rfl⟩
  | cons inbound inbounds ih =>
    rw [List.forall_mem_cons] at sourced parity
    obtain ⟨header, body, payload, parsed, isParity, finished⟩ := parity.1
    have symbol : Symbol receiver inbound header body (receiver.decoderFor tunnel.source) :=
      ⟨payload, parsed, by rw [sourced.1]; exact receive_finished _ header body _ finished⟩
    obtain ⟨later, deliveries⟩ := listens.symbol inbound.source header body inbound.env.now
    have decoder := symbol.silent.2
    have forwarded : receiver.forwardAll crypto heap [inbound] =
        (receiver.receiveSymbol inbound.source header body inbound.env.now).2 := by
      rw [symbol.forwarded, isParity]
      rfl
    rw [← forwarded] at later deliveries decoder
    rw [sourced.1] at decoder
    have head : Delivers crypto heap tunnel receiver [inbound] [] position := by
      refine .single ⟨?_, later⟩ symbol.calm symbol.first (by decide)
      rw [deliveries]
      exact (List.append_nil _).symm
    obtain ⟨tail, same⟩ : Delivers crypto heap tunnel (receiver.forwardAll crypto heap [inbound]) inbounds []
        position ∧ _ := ih later sourced.2 (by rw [decoder]; exact parity.2)
    exact ⟨head.append tail, same.trans decoder⟩

/-- A frame under FEC: its symbol and the parity that follows. -/
theorem coded_delivers (listens : tunnel.Listens receiver position) (admitted : tunnel.Admits frame)
    (sealed : SealedAs crypto tunnel.key tunnel.keyId position (padTo frame padded) wire)
    {encoder : FecEncoder} (synced : encoder.Synced (receiver.decoderFor tunnel.source))
    (sourced : ∀ inbound ∈ inbounds, inbound.source = tunnel.source)
    (payloads : inbounds.map InboundDatagram.payload =
      (serializeFecHeader (encoder.nextHeader wire.length) ++ wire) :: (encoder.add wire).2) :
    Delivers crypto heap tunnel receiver inbounds [frame] (position + 1) ∧
      (encoder.add wire).1.Synced ((receiver.forwardAll crypto heap inbounds).decoderFor tunnel.source) := by
  obtain ⟨inbound, rest, rfl, payload, parities⟩ := List.map_eq_cons_iff.mp payloads
  rw [List.forall_mem_cons] at sourced
  obtain ⟨after, received, synced', -, read, symbols⟩ := synced.packet sealed.size inbound.env.now
  have symbol : Symbol receiver inbound (encoder.nextHeader wire.length) wire after :=
    ⟨payload, payload.symm ▸ read, by rw [sourced.1]; exact received⟩
  have decoder := symbol.silent.2
  obtain ⟨later, deliveries⟩ := listens.symbol inbound.source (encoder.nextHeader wire.length) wire inbound.env.now
  have forwarded : receiver.forwardAll crypto heap [inbound] = _ := symbol.forwarded
  generalize (receiver.receiveSymbol inbound.source (encoder.nextHeader wire.length) wire inbound.env.now).2 = middle
    at decoder later deliveries forwarded
  obtain ⟨hands, sources⟩ : tunnel.Hands _ (middle.forwardSealed crypto heap inbound.source wire false
      inbound.env).2 [frame] (position + 1) ∧ _ :=
    forwardSealed_hands later admitted sealed inbound.source inbound.env
  have kept : (receiver.forwardAll crypto heap [inbound]).decoderFor tunnel.source = after := by
    rw [← decoder, ← sourced.1, forwarded, decoderFor, decoderFor, ← sources]
    rfl
  have head : Delivers crypto heap tunnel receiver [inbound] [frame] (position + 1) := by
    refine .single ⟨?_, ?_⟩ symbol.calm symbol.first (by decide)
    · rw [forwarded]
      exact hands.handed.trans (by rw [deliveries])
    · rw [forwarded]
      exact hands.listens
  obtain ⟨tail, same⟩ : Delivers crypto heap tunnel (receiver.forwardAll crypto heap [inbound]) rest []
      (position + 1) ∧ _ := parity_delivers head.listens rest sourced.2 (by
    intro other member
    have present : other.payload ∈ (encoder.add wire).2 := by
      rw [← parities]
      exact List.mem_map_of_mem member
    obtain ⟨header, body, split, read, isParity, finished⟩ := symbols _ present
    exact ⟨header, body, split, read, isParity, kept.symm ▸ finished⟩)
  refine ⟨head.append tail, ?_⟩
  have whole : (receiver.forwardAll crypto heap (inbound :: rest)).decoderFor tunnel.source = after :=
    same.trans kept
  rw [whole]
  exact synced'

/-- The sender's encoder for the peer and the decoder that follows it. -/
structure Coded (tunnel : Tunnel) (sender : Worker) (decoder : FecDecoder) : Prop where
  absent : sender.fecPeers.findIdx? (·.peer = tunnel.peer) = none → decoder = {}
  present : ∀ index entry, sender.fecPeers.findIdx? (·.peer = tunnel.peer) = some index →
    sender.fecPeers[index]? = some entry → entry.encoder.plan.active = true → entry.encoder.Synced decoder

theorem Coded.of_same {decoder : FecDecoder} (coded : tunnel.Coded sender decoder)
    (same : after.fecPeers = sender.fecPeers) : tunnel.Coded after decoder := by
  refine ⟨?_, ?_⟩
  · rw [same]
    exact coded.absent
  · rw [same]
    exact coded.present

theorem Coded.of_framed {decoder : FecDecoder} {index : ℕ} {entry framed : FecPeer}
    (place : sender.fecPeers.findIdx? (·.peer = tunnel.peer) = some index)
    (found : sender.fecPeers[index]? = some entry)
    (fecPeers : after.fecPeers = sender.fecPeers.set index framed) (owner : framed.peer = entry.peer)
    (synced : framed.encoder.Synced decoder) : tunnel.Coded after decoder := by
  have same : after.fecPeers.findIdx? (·.peer = tunnel.peer) = some index := by
    rw [fecPeers, List.findIdx?_set_same, place]
    intro old present
    rw [found] at present
    cases present
    rw [owner]
  constructor
  · intro absent
    rw [same] at absent
    cases absent
  · intro other candidate here present active
    rw [same] at here
    cases here
    rw [fecPeers, List.getElem?_set_self (List.getElem?_eq_some_iff.mp found).1] at present
    cases present
    exact synced

/-- The plaintext is the frame, padded; its encoder is the one of the peer. -/
structure Prepared (tunnel : Tunnel) (sender : Worker) (plain : Bytes) (fec : Option ℕ) (frame : Bytes) : Prop where
  padded : ∃ padded, plain = padTo frame padded
  size : plain.length ≤ kFrameBufferSize
  admitted : tunnel.Admits frame
  place : ∀ index, fec = some index → sender.fecPeers.findIdx? (·.peer = tunnel.peer) = some index

/-- A job holds the frame under the counter at `position`. -/
structure StagedAs (tunnel : Tunnel) (sender : Worker) (position : ℕ) (job : TransmitJob) (frame : Bytes) :
    Prop where
  session : job.session = tunnel.outgoing
  counter : job.counter.toNat = position
  prepared : tunnel.Prepared sender job.plain job.fec frame

/-- What a job needs of the sender, and leaves as it is. -/
structure Speaks (tunnel : Tunnel) (sender : Worker) : Prop where
  named : tunnel.keyId ≠ kPreSessionKeyId
  session : ∃ session, sender.node.table.get tunnel.outgoing = some session ∧
    session.remoteKeyId = tunnel.keyId ∧ session.sendKey = tunnel.key

/-- The datagrams of one batch as the receiver takes them from the carrier. -/
structure Arrives (tunnel : Tunnel) (sent : List OutboundDatagram) (inbounds : List InboundDatagram) : Prop where
  payloads : inbounds.map InboundDatagram.payload = sent.map OutboundDatagram.payload
  sourced : ∀ inbound ∈ inbounds, inbound.source = tunnel.source

theorem Arrives.split {first second : List OutboundDatagram} (arrives : tunnel.Arrives (first ++ second) inbounds) :
    ∃ early late, inbounds = early ++ late ∧ tunnel.Arrives first early ∧ tunnel.Arrives second late := by
  have payloads := arrives.payloads
  rw [List.map_append] at payloads
  obtain ⟨early, late, rfl, before, after⟩ := List.map_eq_append_iff.mp payloads
  have sourced := List.forall_mem_append.mp arrives.sourced
  exact ⟨early, late, rfl, ⟨before, sourced.1⟩, ⟨after, sourced.2⟩⟩

/-- What was sent from one state of the sender to another hands over the frames, whoever follows the sender. -/
def Conveys (crypto : Crypto) (heap : HeapAlgorithms) (tunnel : Tunnel) (sender after : Worker) (position : ℕ)
    (sent : List OutboundDatagram) (frames : List Bytes) : Prop :=
  ∀ receiver inbounds, tunnel.Listens receiver position →
    tunnel.Coded sender (receiver.decoderFor tunnel.source) → tunnel.Arrives sent inbounds →
    Delivers crypto heap tunnel receiver inbounds frames (position + frames.length) ∧
      tunnel.Coded after ((receiver.forwardAll crypto heap inbounds).decoderFor tunnel.source)

theorem Conveys.refl (sender : Worker) (position : ℕ) : Conveys crypto heap tunnel sender sender position [] [] := by
  intro receiver inbounds listens coded arrives
  have none : inbounds = [] := List.map_eq_nil_iff.mp arrives.payloads
  subst none
  exact ⟨.nil listens, coded⟩

theorem Conveys.trans {middle : Worker} {first second : List OutboundDatagram} {early late : List Bytes}
    (before : Conveys crypto heap tunnel sender middle position first early)
    (later : Conveys crypto heap tunnel middle after (position + early.length) second late) :
    Conveys crypto heap tunnel sender after position (first ++ second) (early ++ late) := by
  intro receiver inbounds listens coded arrives
  obtain ⟨old, new, rfl, taken, taken'⟩ := arrives.split
  obtain ⟨delivers, coded'⟩ := before receiver old listens coded taken
  obtain ⟨delivers', coded''⟩ := later (receiver.forwardAll crypto heap old) new delivers.listens coded' taken'
  rw [forwardAll_append, List.length_append, ← Nat.add_assoc]
  exact ⟨delivers.append delivers', coded''⟩

theorem Conveys.coded {last : Worker} (conveys : Conveys crypto heap tunnel sender after position sent frames)
    (coded : ∀ decoder, tunnel.Coded after decoder → tunnel.Coded last decoder) :
    Conveys crypto heap tunnel sender last position sent frames := fun receiver inbounds listens follows arrives =>
  (conveys receiver inbounds listens follows arrives).imp_right (coded _)

theorem flushJob_conveys (heap : HeapAlgorithms) (inverts : crypto.Inverts) (speaks : tunnel.Speaks sender)
    {job : TransmitJob} (staged : tunnel.StagedAs sender position job frame)
    (now : Instant) (batch : List OutboundDatagram) :
    ∃ sent, (flushJob crypto now (batch, sender) job).1 = batch ++ sent ∧
      Conveys crypto heap tunnel sender (flushJob crypto now (batch, sender) job).2 position sent [frame] := by
  obtain ⟨session, present, keyId, key⟩ := speaks.session
  obtain ⟨⟨padded, plain⟩, size, admitted, index⟩ := staged.prepared
  obtain ⟨wire, done, sealed⟩ := sealReserved_sealed inverts (keyId.symm ▸ speaks.named) job.counter size
  rw [keyId, key, staged.counter, plain] at sealed
  have bare (sent : List OutboundDatagram) (single : sent.map OutboundDatagram.payload = [wire])
      (after : Worker) (same : after.fecPeers = sender.fecPeers) :
      Conveys crypto heap tunnel sender after position sent [frame] := by
    intro receiver inbounds listens coded arrives
    obtain ⟨inbound, rfl, payload⟩ := List.map_eq_singleton_iff.mp (arrives.payloads.trans single)
    obtain ⟨delivers, sources⟩ : Delivers crypto heap tunnel receiver [inbound] [frame] (position + 1) ∧ _ :=
      plain_delivers listens admitted sealed payload
    refine ⟨delivers, ?_⟩
    rw [decoderFor, sources]
    exact coded.of_same same
  simp only [flushJob, staged.session, present, done]
  cases lane : job.fec with
  | none => exact ⟨_, rfl, bare _ rfl _ rfl⟩
  | some place =>
    dsimp only
    have own := index place lane
    cases found : sender.fecPeers[place]? with
    | none => exact ⟨_, rfl, bare _ rfl _ rfl⟩
    | some entry =>
      dsimp only
      cases active : entry.encoder.plan.active with
      | false => exact ⟨_, rfl, bare _ rfl _ rfl⟩
      | true =>
        simp only [Bool.true_eq_false, if_false, FecPeer.frame]
        refine ⟨_, rfl, fun receiver inbounds listens coded arrives => ?_⟩
        have payloads := arrives.payloads
        rw [outbound, List.map_map, show OutboundDatagram.payload ∘
          (fun payload => (⟨job.destination, payload⟩ : OutboundDatagram)) = id from rfl, List.map_id] at payloads
        obtain ⟨delivers, later⟩ : Delivers crypto heap tunnel receiver inbounds [frame] (position + 1) ∧ _ :=
          coded_delivers listens admitted sealed (coded.present place entry own found active) arrives.sourced
            payloads
        exact ⟨delivers, .of_framed own found rfl rfl later⟩

/-- What sealing a job leaves as it is, and choosing its encoder. -/
structure Steady (before after : Worker) : Prop where
  node : after.node = before.node
  mtu : after.mtu = before.mtu
  queueing : after.queueingEnabled = before.queueingEnabled
  outbox : after.outbox = before.outbox
  place : ∀ peer index, before.fecPeers.findIdx? (·.peer = peer) = some index →
    after.fecPeers.findIdx? (·.peer = peer) = some index

theorem Steady.refl (worker : Worker) : Steady worker worker := ⟨rfl, rfl, rfl, rfl, fun _ _ same => same⟩

theorem Steady.trans {first second third : Worker} (early : Steady first second) (late : Steady second third) :
    Steady first third :=
  ⟨late.node.trans early.node, late.mtu.trans early.mtu, late.queueing.trans early.queueing,
    late.outbox.trans early.outbox, fun peer index here => late.place peer index (early.place peer index here)⟩

theorem flushJob_steady (now : Instant) (batch : List OutboundDatagram) (sender : Worker) (job : TransmitJob) :
    Steady sender (flushJob crypto now (batch, sender) job).2 := by
  simp only [flushJob]
  split
  · exact .refl sender
  · rename_i session _
    have logged : Steady sender (sender.noteSeal job.session session job.counter) :=
      ⟨rfl, rfl, rfl, rfl, fun _ _ same => same⟩
    split
    · exact logged
    · split
      · exact logged
      · split
        · exact logged
        · rename_i index _ entry found
          split_ifs
          · exact logged
          · refine ⟨rfl, rfl, rfl, rfl, fun peer place here => ?_⟩
            refine (List.findIdx?_set_same _ _ _ _ ?_).trans here
            intro old present
            rw [found] at present
            cases present
            rfl

theorem flushJobs_steady (crypto : Crypto) (now : Instant) (jobs : List TransmitJob) (batch : List OutboundDatagram)
    (sender : Worker) : Steady sender (jobs.foldl (flushJob crypto now) (batch, sender)).2 := by
  induction jobs generalizing batch sender with
  | nil => exact .refl sender
  | cons job jobs ih => exact (flushJob_steady now batch sender job).trans (ih _ _)

theorem Prepared.moved {fec : Option ℕ}
    (place : ∀ index, sender.fecPeers.findIdx? (·.peer = tunnel.peer) = some index →
      after.fecPeers.findIdx? (·.peer = tunnel.peer) = some index)
    (prepared : tunnel.Prepared sender plain fec frame) : tunnel.Prepared after plain fec frame :=
  ⟨prepared.padded, prepared.size, prepared.admitted, fun index here => place index (prepared.place index here)⟩

/-- The jobs hold the frames, under consecutive counters. -/
inductive StagedAll (tunnel : Tunnel) (sender : Worker) : ℕ → List TransmitJob → List Bytes → Prop
  | nil (position : ℕ) : StagedAll tunnel sender position [] []
  | cons {position : ℕ} {job : TransmitJob} {frame : Bytes} {jobs : List TransmitJob} {frames : List Bytes} :
      tunnel.StagedAs sender position job frame → StagedAll tunnel sender (position + 1) jobs frames →
      StagedAll tunnel sender position (job :: jobs) (frame :: frames)

variable {jobs : List TransmitJob} {job : TransmitJob}

theorem StagedAll.moved (place : ∀ index, sender.fecPeers.findIdx? (·.peer = tunnel.peer) = some index →
      after.fecPeers.findIdx? (·.peer = tunnel.peer) = some index)
    (staged : tunnel.StagedAll sender position jobs frames) : tunnel.StagedAll after position jobs frames := by
  induction staged with
  | nil => exact .nil _
  | cons head _ ih => exact .cons ⟨head.session, head.counter, head.prepared.moved place⟩ ih

theorem StagedAll.append (staged : tunnel.StagedAll sender position jobs frames)
    (last : tunnel.StagedAs sender (position + frames.length) job frame) :
    tunnel.StagedAll sender position (jobs ++ [job]) (frames ++ [frame]) := by
  induction staged with
  | nil => exact .cons last (.nil _)
  | cons head _ ih =>
    rw [List.length_cons, Nat.add_comm _ 1, ← Nat.add_assoc] at last
    exact .cons head (ih last)

theorem Speaks.steady (steady : Steady sender after) (speaks : tunnel.Speaks sender) : tunnel.Speaks after := by
  refine ⟨speaks.named, ?_⟩
  rw [steady.node]
  exact speaks.session

theorem flushJobs_convey (heap : HeapAlgorithms) (inverts : crypto.Inverts) (speaks : tunnel.Speaks sender)
    (staged : tunnel.StagedAll sender position jobs frames) (now : Instant) (batch : List OutboundDatagram) :
    ∃ sent, (jobs.foldl (flushJob crypto now) (batch, sender)).1 = batch ++ sent ∧
      Conveys crypto heap tunnel sender (jobs.foldl (flushJob crypto now) (batch, sender)).2 position sent
        frames := by
  induction jobs generalizing sender position frames batch with
  | nil =>
    cases staged
    exact ⟨[], (List.append_nil _).symm, .refl sender position⟩
  | cons job jobs ih =>
    obtain _ | ⟨first, rest⟩ := staged
    obtain ⟨head, batched, conveys⟩ := flushJob_conveys heap inverts speaks first now batch
    have steady : Steady sender (flushJob crypto now (batch, sender) job).2 :=
      flushJob_steady now batch sender job
    obtain ⟨tail, batched', conveys'⟩ := ih (speaks.steady steady) (rest.moved (steady.place tunnel.peer))
      (flushJob crypto now (batch, sender) job).1
    refine ⟨head ++ tail, ?_, conveys.trans conveys'⟩
    rw [List.foldl_cons, ← List.append_assoc, ← batched]
    exact batched'

/-- The sender has the session, and the frames staged on it take the counters from `position` on. -/
structure Sends (tunnel : Tunnel) (sender : Worker) (position : ℕ) (staged : List Bytes) : Prop where
  named : tunnel.keyId ≠ kPreSessionKeyId
  queueing : sender.queueingEnabled = false
  mtu : sender.mtu ≤ kFrameBufferSize
  found : sender.node.table.findByPeer tunnel.peer = some tunnel.outgoing
  session : ∃ session, sender.node.table.get tunnel.outgoing = some session ∧ session.peer = tunnel.peer ∧
    session.remoteKeyId = tunnel.keyId ∧ session.sendKey = tunnel.key ∧
    session.sendCounter.position = position + staged.length
  jobs : tunnel.StagedAll sender position sender.transmitJobs staged

/-- A carrier that takes everything it is given. -/
def Lossless (env : Env) : Prop := ∀ batch, batch.length ≤ env.carrier.takes batch

theorem Sends.flush (heap : HeapAlgorithms) (inverts : crypto.Inverts) (sends : tunnel.Sends sender position staged)
    (lossless : Lossless env) :
    ∃ sent, (sender.flushTransmit crypto env).2.outbox = sender.outbox ++ sent ∧
      tunnel.Sends (sender.flushTransmit crypto env).2 (position + staged.length) [] ∧
      Conveys crypto heap tunnel sender (sender.flushTransmit crypto env).2 position sent staged := by
  obtain ⟨session, present, -, keyId, key, -⟩ := sends.session
  obtain ⟨sent, batch, conveys⟩ :=
    flushJobs_convey heap inverts ⟨sends.named, session, present, keyId, key⟩ sends.jobs env.now []
  have steady : Steady sender _ := flushJobs_steady crypto env.now sender.transmitJobs [] sender
  rw [List.nil_append] at batch
  generalize flushed : sender.transmitJobs.foldl (flushJob crypto env.now) ([], sender) = result
    at batch steady conveys
  obtain ⟨whole, after⟩ := result
  cases batch
  have taken : whole.take (env.carrier.takes whole) = whole := List.take_of_length_le (lossless whole)
  have shape : ∃ lastOutbound, (sender.flushTransmit crypto env).2 =
      { after with transmitJobs := [], outbox := after.outbox ++ whole, lastOutbound } := by
    simp only [flushTransmit, flushed, sendAll, taken]
    split_ifs
    · exact ⟨_, rfl⟩
    · exact ⟨_, rfl⟩
  obtain ⟨lastOutbound, shape⟩ := shape
  rw [shape]
  refine ⟨whole, congrArg (· ++ whole) steady.outbox, ⟨sends.named, ?_, ?_, ?_, ?_, .nil _⟩,
    conveys.coded fun _ coded => coded.of_same rfl⟩
  · exact steady.queueing.trans sends.queueing
  · exact steady.mtu.trans_le sends.mtu
  · have found := sends.found
    rw [← steady.node] at found
    exact found
  · have session := sends.session
    rw [← steady.node] at session
    exact session

/-- The encoder of the peer is the one there was, or a new one that has sent nothing. -/
structure Chosen (tunnel : Tunnel) (worker after : Worker) : Prop where
  steady : Steady worker after
  jobs : after.transmitJobs = worker.transmitJobs
  coded : ∀ decoder, tunnel.Coded worker decoder → tunnel.Coded after decoder

theorem Chosen.refl (worker : Worker) : tunnel.Chosen worker worker :=
  ⟨.refl worker, rfl, fun _ coded => coded⟩

theorem fecIndex_chosen (worker : Worker) (destination : Endpoint) :
    tunnel.Chosen worker (worker.fecIndex tunnel.peer destination).2 ∧
      (worker.fecIndex tunnel.peer destination).2.fecPeers.findIdx? (·.peer = tunnel.peer) =
        some (worker.fecIndex tunnel.peer destination).1 := by
  unfold fecIndex
  cases place : worker.fecPeers.findIdx? (·.peer = tunnel.peer) with
  | some index => exact ⟨.refl worker, place⟩
  | none =>
    dsimp only
    generalize (if worker.fecMode = .automatic then FecMode.off else worker.fecMode) = mode
    have appended (peer : PeerId) (entry : FecPeer) : (worker.fecPeers ++ [entry]).findIdx? (·.peer = peer) =
        (worker.fecPeers.findIdx? (·.peer = peer)).or
          (if entry.peer = peer then some worker.fecPeers.length else none) := by
      rw [List.findIdx?_append, List.findIdx?_singleton]
      split_ifs <;> simp_all
    have last (entry : FecPeer) (own : entry.peer = tunnel.peer) :
        (worker.fecPeers ++ [entry]).findIdx? (·.peer = tunnel.peer) = some worker.fecPeers.length := by
      rw [appended, place, if_pos own]
      rfl
    refine ⟨⟨⟨rfl, rfl, rfl, rfl, fun peer index here => ?_⟩, rfl, fun decoder coded => ⟨fun absent => ?_, ?_⟩⟩,
      last _ rfl⟩
    · rw [appended, here]
      rfl
    · rw [last _ rfl] at absent
      cases absent
    · intro index entry here found active
      rw [last _ rfl] at here
      cases here
      rw [List.getElem?_concat_length] at found
      cases found
      rw [coded.absent place, ← FecEncoder.resumeAt_zero]
      exact FecEncoder.resumed_synced _ 0 active

theorem fecFor_chosen {worker after : Worker} {destination : Endpoint} {fec : Option ℕ}
    (ran : worker.fecFor tunnel.peer destination = (fec, after)) :
    tunnel.Chosen worker after ∧
      ∀ index, fec = some index → after.fecPeers.findIdx? (·.peer = tunnel.peer) = some index := by
  obtain ⟨chosen, place⟩ : tunnel.Chosen worker (worker.fecIndex tunnel.peer destination).2 ∧ _ :=
    fecIndex_chosen worker destination
  unfold fecFor at ran
  by_cases off : worker.fecMode = .off
  · rw [if_pos off] at ran
    cases ran
    exact ⟨.refl worker, by simp⟩
  · rw [if_neg off] at ran
    dsimp only at ran
    split_ifs at ran
    · cases ran
      refine ⟨chosen, fun index here => ?_⟩
      cases here
      exact place
    · cases ran
      exact ⟨chosen, by simp⟩

theorem Sends.steady (sends : tunnel.Sends sender position staged) (steady : Steady sender after)
    (jobs : after.transmitJobs = sender.transmitJobs) : tunnel.Sends after position staged := by
  refine ⟨sends.named, steady.queueing.trans sends.queueing, steady.mtu.trans_le sends.mtu, ?_, ?_, ?_⟩
  · rw [steady.node]
    exact sends.found
  · rw [steady.node]
    exact sends.session
  · rw [jobs]
    exact sends.jobs.moved (steady.place tunnel.peer)

/-- A job is added to those staged. -/
theorem Sends.push (sends : tunnel.Sends sender position staged) {session changed : Session} {counter : UInt64}
    (present : sender.node.table.get tunnel.outgoing = some session)
    (reserved : session.reserveCounter = (.ok counter, changed)) {destination : Endpoint} {fec : Option ℕ}
    (prepared : tunnel.Prepared sender plain fec frame) :
    tunnel.Sends { sender.updateSession tunnel.outgoing (fun _ => changed) with
      transmitJobs := sender.transmitJobs ++ [⟨tunnel.outgoing, counter, plain, destination, fec⟩] }
      position (staged ++ [frame]) := by
  obtain ⟨same, found, peer, keyId, key, reached⟩ := sends.session
  rw [present] at found
  cases found
  obtain ⟨here, next, samePeer, sameKeyId, sameKey⟩ := Session.reserveCounter_position reserved
  refine ⟨sends.named, sends.queueing, sends.mtu, sends.found, ⟨changed, ?_, samePeer.trans peer,
    sameKeyId.trans keyId, sameKey.trans key, ?_⟩, ?_⟩
  · exact SessionTable.get_update_self present _
  · rw [next, reached, List.length_append]
    rfl
  · have last : tunnel.StagedAs sender (position + staged.length) ⟨tunnel.outgoing, counter, plain, destination,
        fec⟩ frame := ⟨rfl, here.trans reached, prepared⟩
    refine StagedAll.moved ?_ (sends.jobs.append last)
    exact fun _ same => same

/-- The frames accepted since `origin`: some delivered, once what was sent has arrived, and some staged. -/
structure Carried (crypto : Crypto) (heap : HeapAlgorithms) (tunnel : Tunnel) (origin : Worker) (start : ℕ)
    (sender : Worker) (sent : List OutboundDatagram) (delivered staged : List Bytes) : Prop where
  sends : tunnel.Sends sender (start + delivered.length) staged
  conveys : Conveys crypto heap tunnel origin sender start sent delivered

variable {origin : Worker}

theorem Carried.flush (inverts : crypto.Inverts)
    (carried : Carried crypto heap tunnel origin start sender sent delivered staged) (lossless : Lossless env) :
    ∃ more, (sender.flushTransmit crypto env).2.outbox = sender.outbox ++ more ∧
      Carried crypto heap tunnel origin start (sender.flushTransmit crypto env).2 (sent ++ more)
        (delivered ++ staged) [] := by
  obtain ⟨more, outbox, sends, conveys⟩ := carried.sends.flush heap inverts lossless
  refine ⟨more, outbox, ?_, carried.conveys.trans conveys⟩
  rw [List.length_append, ← Nat.add_assoc]
  exact sends

theorem Carried.chosen (carried : Carried crypto heap tunnel origin start sender sent delivered staged)
    (chosen : tunnel.Chosen sender after) : Carried crypto heap tunnel origin start after sent delivered staged :=
  ⟨carried.sends.steady chosen.steady chosen.jobs, carried.conveys.coded chosen.coded⟩

theorem Carried.push (carried : Carried crypto heap tunnel origin start sender sent delivered staged)
    {session changed : Session} {counter : UInt64}
    (present : sender.node.table.get tunnel.outgoing = some session)
    (reserved : session.reserveCounter = (.ok counter, changed)) {destination : Endpoint} {fec : Option ℕ}
    (prepared : tunnel.Prepared sender plain fec frame) :
    Carried crypto heap tunnel origin start { sender.updateSession tunnel.outgoing (fun _ => changed) with
      transmitJobs := sender.transmitJobs ++ [⟨tunnel.outgoing, counter, plain, destination, fec⟩] }
      sent delivered (staged ++ [frame]) :=
  ⟨carried.sends.push present reserved prepared, carried.conveys.coded fun _ coded => coded.of_same rfl⟩

/-- What the sender has sent since `before`, with `frames` accepted in all. -/
def Carries (crypto : Crypto) (heap : HeapAlgorithms) (tunnel : Tunnel) (origin : Worker) (start : ℕ)
    (before after : Worker) (sent : List OutboundDatagram) (frames : List Bytes) : Prop :=
  ∃ more done waiting, after.outbox = before.outbox ++ more ∧ done ++ waiting = frames ∧
    Carried crypto heap tunnel origin start after (sent ++ more) done waiting

theorem Carried.stage (inverts : crypto.Inverts)
    (carried : Carried crypto heap tunnel origin start sender sent delivered staged)
    {destination : Endpoint} {fec : Option ℕ} (lossless : Lossless env)
    (prepared : tunnel.Prepared sender plain fec frame)
    (ran : sender.stageTransmit crypto tunnel.outgoing destination plain fec env = (.none, after)) :
    Carries crypto heap tunnel origin start sender after sent (delivered ++ staged ++ [frame]) := by
  by_cases full : kDefaultBatchSize ≤ sender.transmitJobs.length
  · obtain ⟨more, outbox, flushed⟩ := carried.flush inverts lossless
    obtain ⟨session, present, -⟩ := flushed.sends.session
    simp only [stageTransmit, if_pos full, present] at ran
    rcases reserved : session.reserveCounter with ⟨error | counter, changed⟩
    · rw [reserved] at ran
      cases ran
    · rw [reserved] at ran
      cases ran
      refine ⟨more, delivered ++ staged, [frame], outbox, rfl, flushed.push present reserved (prepared.moved ?_)⟩
      have steady : Steady sender _ := flushJobs_steady crypto env.now sender.transmitJobs [] sender
      intro index place
      simp only [flushTransmit]
      split_ifs
      · exact steady.place tunnel.peer index place
      · exact steady.place tunnel.peer index place
  · obtain ⟨session, present, -⟩ := carried.sends.session
    simp only [stageTransmit, if_neg full, present] at ran
    rcases reserved : session.reserveCounter with ⟨error | counter, changed⟩
    · rw [reserved] at ran
      cases ran
    · rw [reserved] at ran
      cases ran
      refine ⟨[], delivered, staged ++ [frame], (List.append_nil _).symm, (List.append_assoc _ _ _).symm, ?_⟩
      rw [List.append_nil]
      exact carried.push present reserved prepared

theorem egressDrop_refused {result : ForwardResult} (refused : result.accepted = false) :
    egressDrop result.decision ≠ .none := by
  obtain ⟨decision, peer⟩ := result
  cases decision <;> simp_all [ForwardResult.accepted, egressDrop]

theorem Carried.transmit (inverts : crypto.Inverts)
    (carried : Carried crypto heap tunnel origin start sender sent delivered staged) {session : Session}
    (peer : session.peer = tunnel.peer) (lossless : Lossless env) (size : frame.length ≤ kFrameBufferSize)
    (admitted : tunnel.Admits frame) {parsed : IpPacketView}
    (ran : sender.transmit crypto tunnel.outgoing session parsed frame true env = (.none, after)) :
    Carries crypto heap tunnel origin start sender after sent (delivered ++ staged ++ [frame]) := by
  obtain ⟨above, below⟩ := paddedFrame_bounds carried.sends.mtu size
  have length : (padTo frame (sender.paddedFrame frame.length)).length = sender.paddedFrame frame.length := by
    rw [padTo, List.length_append, List.length_replicate, Nat.add_sub_cancel' above]
  unfold Worker.transmit at ran
  split at ran
  · cases ran
  · rename_i destination _
    have fits : ¬ kPadBufferSize < sender.paddedFrame frame.length :=
      not_lt.mpr (below.trans (Nat.le_add_right _ _))
    dsimp only at ran
    rw [if_neg fits] at ran
    cases choosing : sender.fecFor session.peer destination with
    | mk fec chosen =>
      rw [choosing] at ran
      rw [peer] at choosing
      obtain ⟨keeps, place⟩ := fecFor_chosen choosing
      simp only [keeps.steady.queueing, carried.sends.queueing, Bool.not_false, Bool.and_self, if_true] at ran
      have staged := (carried.chosen keeps).stage inverts lossless
        ⟨⟨_, rfl⟩, length.trans_le below, admitted, place⟩ ran
      rwa [Carries, keeps.steady.outbox] at staged

/-- A frame that route_from_tun accepts for the peer of the tunnel. -/
theorem Carried.route (inverts : crypto.Inverts)
    (carried : Carried crypto heap tunnel origin start sender sent delivered staged)
    (lossless : Lossless env) (size : frame.length ≤ kFrameBufferSize)
    (routed : ∀ view, parseIpPacket frame = .ok view → (sender.routes.classify view kNoPeer).peer = tunnel.peer)
    (admitted : ∀ view, parseIpPacket frame = .ok view →
      (tunnel.routes.classify view tunnel.ingress).accepted = true)
    (ran : sender.routeFromTun crypto heap frame true env = (.none, after)) :
    Carries crypto heap tunnel origin start sender after sent (delivered ++ staged ++ [frame]) := by
  obtain ⟨session, present, peer, -⟩ := carried.sends.session
  unfold routeFromTun at ran
  split at ran
  · cases ran
  · rename_i view parsed
    dsimp only at ran
    rw [routed view parsed, carried.sends.found] at ran
    simp only [present] at ran
    by_cases refused : (sender.routes.classify view kNoPeer).accepted = false
    · rw [if_pos refused] at ran
      exact absurd (congrArg Prod.fst ran) (egressDrop_refused refused)
    · rw [if_neg refused] at ran
      split_ifs at ran
      · cases ran
      · cases ran
      · exact carried.transmit inverts peer lossless size ⟨view, parsed, admitted view parsed⟩ ran

theorem Carried.call (inverts : crypto.Inverts)
    (carried : Carried crypto heap tunnel origin start sender sent delivered staged) {call : Call}
    (lossless : Lossless call.env) (accepted : call.Accepted crypto heap tunnel.peer sender)
    (admitted : ∀ frame ∈ call.frames, ∀ view, parseIpPacket frame = .ok view →
      (tunnel.routes.classify view tunnel.ingress).accepted = true) :
    Carries crypto heap tunnel origin start sender (call.perform crypto heap sender) sent
      (delivered ++ staged ++ call.frames) := by
  cases call with
  | route frame env =>
    obtain ⟨size, none, routed⟩ := accepted
    exact carried.route inverts lossless size routed (admitted frame (List.mem_singleton_self frame))
      (Prod.ext none rfl)
  | flush env =>
    obtain ⟨more, outbox, flushed⟩ := carried.flush inverts lossless
    exact ⟨more, delivered ++ staged, [], outbox, (List.append_nil _).trans (List.append_nil _).symm, flushed⟩

theorem Carried.run (inverts : crypto.Inverts)
    (carried : Carried crypto heap tunnel origin start sender sent delivered staged) (calls : List Call)
    (lossless : ∀ call ∈ calls, Lossless call.env) (accepted : Call.AllAccepted crypto heap tunnel.peer sender calls)
    (admitted : ∀ frame ∈ calls.flatMap Call.frames, ∀ view, parseIpPacket frame = .ok view →
      (tunnel.routes.classify view tunnel.ingress).accepted = true) :
    Carries crypto heap tunnel origin start sender (Call.performAll crypto heap sender calls) sent
      (delivered ++ staged ++ calls.flatMap Call.frames) := by
  induction calls generalizing sender sent delivered staged with
  | nil =>
    refine ⟨[], delivered, staged, (List.append_nil _).symm, (List.append_nil _).symm, ?_⟩
    rw [List.append_nil]
    exact carried
  | cons call calls ih =>
    rw [List.forall_mem_cons] at lossless
    rw [List.flatMap_cons, List.forall_mem_append] at admitted
    obtain ⟨more, done, waiting, outbox, split, later⟩ := carried.call inverts lossless.1 accepted.1 admitted.1
    obtain ⟨more', done', waiting', outbox', split', final⟩ := ih later lossless.2 accepted.2 admitted.2
    refine ⟨more ++ more', done', waiting', ?_, ?_, ?_⟩
    · rw [← List.append_assoc, ← outbox]
      exact outbox'
    · rw [split', split, List.flatMap_cons, List.append_assoc]
    · rw [← List.append_assoc]
      exact final

/-- Two workers at the ends of a tunnel that has carried nothing under its FEC plan: they have the
session, and the receiver has seen none of the counters still to come. -/
structure Links (tunnel : Tunnel) (sender receiver : Worker) : Prop where
  named : tunnel.keyId ≠ kPreSessionKeyId
  queueing : sender.queueingEnabled = false
  idle : sender.transmitJobs = []
  current : sender.node.table.findByPeer tunnel.peer = some tunnel.outgoing
  found : receiver.node.table.findByKeyId tunnel.keyId = some tunnel.incoming
  sessions : ∃ outgoing incoming, sender.node.table.get tunnel.outgoing = some outgoing ∧
    receiver.node.table.get tunnel.incoming = some incoming ∧ outgoing.peer = tunnel.peer ∧
    outgoing.remoteKeyId = tunnel.keyId ∧ outgoing.sendKey = tunnel.key ∧ incoming.receiveKey = tunnel.key ∧
    incoming.peer = tunnel.ingress ∧ incoming.replay.FreshFrom outgoing.sendCounter.position
  routes : receiver.routes = tunnel.routes
  encoder : ∀ entry ∈ sender.fecPeers, entry.peer = tunnel.peer →
    ∃ plan base, entry.encoder = (FecEncoder.configure {} plan).resumeAt base
  decoder : ∀ entry ∈ receiver.fecSources, entry.source ≠ tunnel.source

/-- The sender as it begins, and what the receiver is to it then. -/
theorem Links.carried (crypto : Crypto) (heap : HeapAlgorithms) (links : tunnel.Links sender receiver) (mtu : ℕ)
    (profile : TrafficProfile) :
    ∃ start, Carried crypto heap tunnel ((sender.setMtu mtu).setTrafficProfile profile) start
        ((sender.setMtu mtu).setTrafficProfile profile) [] [] [] ∧ tunnel.Listens receiver start ∧
      tunnel.Coded ((sender.setMtu mtu).setTrafficProfile profile) (receiver.decoderFor tunnel.source) := by
  obtain ⟨outgoing, incoming, present, present', peer, keyId, key, key', ingress, fresh⟩ := links.sessions
  have blank : receiver.decoderFor tunnel.source = {} := by
    have none : receiver.fecSources.find? (·.source = tunnel.source) = none := by
      rw [List.find?_eq_none]
      intro entry member
      simpa using links.decoder entry member
    rw [decoderFor, none]
    rfl
  refine ⟨outgoing.sendCounter.position, ⟨⟨links.named, links.queueing, min_le_right _ _, links.current,
    ⟨outgoing, present, peer, keyId, key, rfl⟩, ?_⟩, .refl _ _⟩,
    ⟨links.found, ⟨incoming, present', key', ingress, fresh⟩, links.routes⟩, fun _ => blank, ?_⟩
  · rw [show ((sender.setMtu mtu).setTrafficProfile profile).transmitJobs = [] from links.idle]
    exact .nil _
  · intro index entry place found active
    obtain ⟨bound, own, -⟩ := List.findIdx?_eq_some_iff_getElem.mp place
    obtain ⟨inside, here⟩ := List.getElem?_eq_some_iff.mp found
    have member : entry ∈ sender.fecPeers := here ▸ List.getElem_mem inside
    have owner : entry.peer = tunnel.peer := by
      rw [here] at own
      simpa using own
    obtain ⟨plan, base, fresh⟩ := links.encoder entry member owner
    rw [fresh] at active ⊢
    rw [blank]
    exact FecEncoder.resumed_synced plan base active

/-- For every traffic profile, MTU and FEC plan: what the receiver hands over, datagram by datagram or in
batches, are the frames the sender accepted, each once and in order. -/
theorem tunnel_keeps_frames (inverts : crypto.Inverts) (links : tunnel.Links sender receiver) (mtu : ℕ)
    (profile : TrafficProfile) (calls : List Call) (env : Env) (lossless : ∀ call ∈ calls, Lossless call.env)
    (final : Lossless env)
    (accepted : Call.AllAccepted crypto heap tunnel.peer ((sender.setMtu mtu).setTrafficProfile profile) calls)
    (admitted : ∀ frame ∈ calls.flatMap Call.frames, ∀ view, parseIpPacket frame = .ok view →
      (tunnel.routes.classify view tunnel.ingress).accepted = true) :
    ∃ sent, (Call.performAll crypto heap ((sender.setMtu mtu).setTrafficProfile profile)
        (calls ++ [.flush env])).outbox = sender.outbox ++ sent ∧
      ∀ inbounds, tunnel.Arrives sent inbounds →
        (receiver.forwardAll crypto heap inbounds).deliveries.map Delivery.handed =
          receiver.deliveries.map Delivery.handed ++ (calls.flatMap Call.frames).map some ∧
        ∀ batches, batches.flatten = inbounds → receiver.Wellformed → receiver.receiveJobs = [] →
          (receiver.pumpUdpToTun crypto heap batches).2.deliveries.map Delivery.handed =
            receiver.deliveries.map Delivery.handed ++ (calls.flatMap Call.frames).map some := by
  obtain ⟨start, carried, listens, coded⟩ := links.carried crypto heap mtu profile
  obtain ⟨more, done, waiting, outbox, split, run⟩ := carried.run inverts calls lossless accepted admitted
  obtain ⟨last, outbox', flushed⟩ := run.flush inverts final
  refine ⟨more ++ last, ?_, fun inbounds arrives => ?_⟩
  · rw [Call.performAll, List.foldl_append, ← List.append_assoc]
    exact outbox'.trans (congrArg (· ++ last) outbox)
  · obtain ⟨delivers, -⟩ := flushed.conveys receiver inbounds listens coded arrives
    rw [split] at delivers
    refine ⟨delivers.handed, fun batches whole wellformed idle => ?_⟩
    subst whole
    rw [Worker.pumpUdpToTun, Worker.pumpBatches_follow wellformed idle batches 0 delivers.data delivers.calm]
    exact delivers.handed

/-! The nodes of the sample link, once node 1 has sent a keepalive and a frame: two frames more. -/

def sampleCalls : List Call :=
  [.route Worker.sampleFrame Worker.plainEnv, .flush Worker.plainEnv, .route Worker.sampleFrame Worker.plainEnv]

def sampleKey : TrafficKey :=
  (((Worker.sample 1 Worker.sendCalls).node.table.get 0).map Session.sendKey).getD (Vector.replicate 32 0)

def sampleTunnel : Tunnel where
  peer := 7
  outgoing := 0
  incoming := 0
  keyId := 1
  key := sampleKey
  source := {}
  ingress := 9
  routes := Worker.hostRoute 1 9

theorem sample_outgoing : ((Worker.sample 1 Worker.sendCalls).node.table.get 0).isSome = true := by
  decide +kernel

theorem sample_incoming : ((Worker.sample 2 Worker.receiveCalls).node.table.get 0).isSome = true := by
  decide +kernel

theorem of_parsed {α : Type} {frame : Bytes} {value : IpPacketView → α} {result : α}
    (evaluated : (parseIpPacket frame).toOption.map value = some result) (view : IpPacketView)
    (parsed : parseIpPacket frame = .ok view) : value view = result := by
  rw [parsed] at evaluated
  exact Option.some.inj evaluated

theorem sample_links :
    sampleTunnel.Links (Worker.sample 1 Worker.sendCalls) (Worker.sample 2 Worker.receiveCalls) := by
  have encoders : (Worker.sample 1 Worker.sendCalls).fecPeers = [] := List.isEmpty_iff.mp (by decide +kernel)
  have decoders : (Worker.sample 2 Worker.receiveCalls).fecSources = [] := List.isEmpty_iff.mp (by decide +kernel)
  refine ⟨by decide, by decide +kernel, List.isEmpty_iff.mp (by decide +kernel), by decide +kernel,
    by decide +kernel, ?_, by decide +kernel, by simp [encoders], by simp [decoders]⟩
  refine ⟨_, _, (Option.some_get sample_outgoing).symm, (Option.some_get sample_incoming).symm, by decide +kernel,
    by decide +kernel, by decide +kernel, by decide +kernel, by decide +kernel, fun unset => ?_, fun _ => ?_⟩
  · exact absurd unset (by decide +kernel)
  · decide +kernel

theorem tunnel_keeps_frames_sample :
    ∃ sent, (Call.performAll Crypto.plain sortingHeap
        (((Worker.sample 1 Worker.sendCalls).setMtu 1300).setTrafficProfile .quic)
        (sampleCalls ++ [.flush Worker.plainEnv])).outbox = (Worker.sample 1 Worker.sendCalls).outbox ++ sent ∧
      ∀ inbounds, sampleTunnel.Arrives sent inbounds →
        ((Worker.sample 2 Worker.receiveCalls).forwardAll Crypto.plain sortingHeap inbounds).deliveries.map
            Delivery.handed =
          (Worker.sample 2 Worker.receiveCalls).deliveries.map Delivery.handed ++
            [some Worker.sampleFrame, some Worker.sampleFrame] := by
  have lossless (call : Call) (member : call ∈ sampleCalls) : Lossless call.env := by
    intro batch
    fin_cases member <;> exact le_rfl
  have accepted : Call.AllAccepted Crypto.plain sortingHeap sampleTunnel.peer
      (((Worker.sample 1 Worker.sendCalls).setMtu 1300).setTrafficProfile .quic) sampleCalls :=
    ⟨⟨by decide, by decide +kernel, of_parsed (by decide +kernel)⟩, trivial,
      ⟨by decide, by decide +kernel, of_parsed (by decide +kernel)⟩, trivial⟩
  have admitted (frame : Bytes) (member : frame ∈ sampleCalls.flatMap Call.frames) :
      ∀ view, parseIpPacket frame = .ok view →
        (sampleTunnel.routes.classify view sampleTunnel.ingress).accepted = true := by
    have same : frame = Worker.sampleFrame := by simpa [sampleCalls, Call.frames] using member
    subst same
    exact of_parsed (by decide +kernel)
  obtain ⟨sent, outbox, delivers⟩ := tunnel_keeps_frames Crypto.plain_correct.aead_inverts sample_links 1300 .quic
    sampleCalls Worker.plainEnv lossless (fun _ => le_rfl) accepted admitted
  exact ⟨sent, outbox, fun inbounds arrives => (delivers inbounds arrives).1⟩

end Tunnel

end Norr
