import Mathlib.Data.List.DropRight
import Norr.Fec.Encoder
import Norr.Net.Address
import Norr.Wire.Packet

/-! The configuration and its parser: `config.cpp`. A text is the list of its bytes, each the character of that
code, so that a length counts bytes. -/

namespace Norr

inductive ConfigError
  | unreadableFile
  | syntaxError
  | unknownSection
  | unknownKey
  | duplicateKey
  | missingRequired
  | invalidValue
  | valueOutOfRange
  | portConflict
  | invalidMtu
  | incompatibleOptions
  deriving DecidableEq, Repr

structure ConfigDiagnostic where
  error : ConfigError
  line : ℕ
  detail : String
  deriving DecidableEq, Repr

inductive NodeRole
  | server
  | client
  deriving DecidableEq, Repr

inductive TransportMode
  | automatic
  | udp
  | quic
  | tcpTls
  | icmp
  | ipip
  | gre
  | esp
  | ah
  | ospf
  | dns
  deriving DecidableEq, Repr

inductive CamouflageMode
  | off
  | fakeTls
  | pop3
  | smtp
  | xmpp
  | ssh
  | raw
  deriving DecidableEq, Repr

inductive ObfuscationMode
  | off
  | headerMask
  | full
  deriving DecidableEq, Repr

structure ObfuscationConfig where
  mode : ObfuscationMode := .off
  junkPadding : Bool := false
  priming : Bool := false
  uniformLength : Bool := false
  junkMax : UInt8 := 64
  lengthBucket : UInt16 := 256
  deriving DecidableEq, Repr

def kMinimumMtu : ℕ := 1280

def kMaximumMtu : ℕ := 9000

def kAutomaticMtu : UInt16 := 0

def kMaximumJunkLength : ℕ := 255

structure NetworkConfig where
  ipv4 : Bool := true
  ipv6 : Bool := true
  mtu : UInt16 := kAutomaticMtu
  fwmark : UInt32 := 0
  forward : Bool := false
  offload : Bool := true
  returnViaTunnel : Bool := false
  addresses : List String := []
  deriving DecidableEq, Repr

structure ForwardEntry where
  name : String := ""
  port : UInt16 := 0
  target : String := ""
  tcp : Bool := true
  udp : Bool := true
  preserveSource : Bool := false
  deriving DecidableEq, Repr

structure PeerEntry where
  name : String := ""
  publicKey : String := ""
  presharedKey : String := ""
  endpoint : String := ""
  allowedIps : List String := []
  routes : Bool := true
  deriving DecidableEq, Repr

structure Config where
  role : NodeRole := .server
  listenPort : UInt16 := 0
  identityKeyFile : String := ""
  network : NetworkConfig := {}
  transport : TransportMode := .automatic
  tcpConnections : UInt8 := 1
  camouflage : CamouflageMode := .off
  camouflageSni : String := "www.microsoft.com"
  camouflageSniPool : List String := []
  realityPrivateKey : String := ""
  realityPublicKey : String := ""
  realityShortId : String := ""
  realityCover : String := ""
  qosEnabled : Bool := false
  qosRateBytes : UInt64 := 0
  brutalRateBytes : UInt64 := 0
  qosBurstBytes : UInt64 := 0
  fec : Fec.FecMode := .off
  obfuscation : ObfuscationConfig := {}
  icmpEchoRequestOnly : Bool := true
  icmpSilenceKernel : Bool := false
  dnsDomain : String := "t.example.com"
  rekeyIntervalSeconds : Int32 := 120
  rotateIntervalSeconds : Int32 := 0
  spoofEnabled : Bool := false
  spoofSources : List UInt32 := []
  profile : TrafficProfile := .standard
  logLevel : String := "info"
  tuningProfile : String := "off"
  metricsEnabled : Bool := false
  metricsListen : String := ""
  tunName : String := "norr0"
  user : String := ""
  peers : List PeerEntry := []
  forwards : List ForwardEntry := []
  deriving DecidableEq, Repr

def carriesDatagrams : TransportMode → Bool
  | .automatic | .udp | .icmp | .ipip | .gre | .esp | .ah | .ospf | .dns => true
  | .quic | .tcpTls => false

namespace Config

def isSpace (character : Char) : Bool :=
  character = ' ' || character = '\t' || character = '\r' || character = '\n'

def trim (text : List Char) : List Char := (text.dropWhile isSpace).rdropWhile isSpace

def unquote (value : List Char) : Except ConfigError (List Char) :=
  if 2 ≤ value.length ∧ value.head? = some '"' ∧ value.getLast? = some '"' then .ok value.tail.dropLast
  else if '"' ∈ value then .error .syntaxError
  else .ok value

def parseBool (value : List Char) : Except ConfigError Bool :=
  if value = "true".toList then .ok true
  else if value = "false".toList then .ok false
  else .error .invalidValue

/-- std::from_chars into 64 bits, which must consume the whole text. -/
def parseUint (value : List Char) : Except ConfigError ℕ :=
  match Text.fromChars 10 value with
  | none => .error .invalidValue
  | some parsed => if parsed < 2 ^ 64 then .ok parsed else .error .invalidValue

def parseInt32 (value : List Char) : Except ConfigError Int32 :=
  match value with
  | '-' :: digits =>
    match Text.fromChars 10 digits with
    | none => .error .invalidValue
    | some parsed => if parsed ≤ 2 ^ 31 then .ok (Int32.ofInt (-parsed)) else .error .invalidValue
  | digits =>
    match Text.fromChars 10 digits with
    | none => .error .invalidValue
    | some parsed => if parsed < 2 ^ 31 then .ok (Int32.ofInt parsed) else .error .invalidValue

def parsePort (value : List Char) : Except ConfigError UInt16 := do
  let parsed ← parseUint value
  if parsed = 0 ∨ 65535 < parsed then throw .valueOutOfRange
  pure (UInt16.ofNat parsed)

def isHexKey (value : List Char) : Bool :=
  value.length = 64 && value.all fun character => (Text.digitValue 16 character).isSome

/-- The pieces between commas; nothing after a comma at the end. -/
def pieces (value : List Char) : List (List Char) :=
  let parts := value.splitOn ','
  if parts.getLast? = some [] then parts.dropLast else parts

def splitList (value : List Char) : List (List Char) := (pieces value).map trim

def parseMtu (value : List Char) : Except ConfigError UInt16 :=
  if value = "auto".toList then .ok kAutomaticMtu
  else
    match parseUint value with
    | .error _ => .error .invalidMtu
    | .ok parsed =>
      if parsed < kMinimumMtu ∨ kMaximumMtu < parsed then .error .invalidMtu else .ok (UInt16.ofNat parsed)

/-- The first word that is the value. -/
def choose {α : Type} (value : List Char) (words : List (String × α)) : Except ConfigError α :=
  match words.find? (·.1.toList = value) with
  | none => .error .invalidValue
  | some (_, meaning) => .ok meaning

/-- A flag of the configuration. -/
def flag (value : List Char) (store : Bool → Config) : Except ConfigError Config := return store (← parseBool value)

/-- A rate or a burst, which is not zero. -/
def positive (value : List Char) (store : UInt64 → Config) : Except ConfigError Config := do
  let parsed ← parseUint value
  if parsed = 0 then throw .valueOutOfRange
  pure (store (UInt64.ofNat parsed))

/-- A text within bounds on its length. -/
def bounded (value : List Char) (least most : ℕ) (store : String → Config) : Except ConfigError Config :=
  if value.length < least ∨ most < value.length then .error .invalidValue else .ok (store (String.ofList value))

def hexKey {α : Type} (value : List Char) (store : String → α) : Except ConfigError α :=
  if isHexKey value then .ok (store (String.ofList value)) else .error .invalidValue

/-- A list of prefixes behind the ones already there. -/
def prefixList (value : List Char) (already : List String) : Except ConfigError (List String) := do
  let parts := splitList value
  if parts.any fun part => part = [] || '/' ∉ part then throw .invalidValue
  let all := already ++ parts.map String.ofList
  if all = [] then throw .invalidValue
  pure all

def assignForward (key value : List Char) (entry : ForwardEntry) : Except ConfigError ForwardEntry :=
  if key = "name".toList then
    if value = [] then .error .invalidValue else .ok { entry with name := String.ofList value }
  else if key = "listen_port".toList then return { entry with port := ← parsePort value }
  else if key = "target".toList then
    match parseEndpoint value with
    | .error _ => .error .invalidValue
    | .ok _ => .ok { entry with target := String.ofList value }
  else if key = "preserve_source".toList then return { entry with preserveSource := ← parseBool value }
  else if key = "protocol".toList then do
    let (tcp, udp) ← choose value [("tcp", (true, false)), ("udp", (false, true)), ("both", (true, true))]
    pure { entry with tcp, udp }
  else .error .unknownKey

def assignPeer (key value : List Char) (entry : PeerEntry) : Except ConfigError PeerEntry :=
  if key = "name".toList then
    if value = [] then .error .invalidValue else .ok { entry with name := String.ofList value }
  else if key = "public_key".toList then hexKey value fun publicKey => { entry with publicKey }
  else if key = "preshared_key".toList then hexKey value fun presharedKey => { entry with presharedKey }
  else if key = "endpoint".toList then
    if value = [] ∨ ':' ∉ value then .error .invalidValue else .ok { entry with endpoint := String.ofList value }
  else if key = "routes".toList then return { entry with routes := ← parseBool value }
  else if key = "allowed_ips".toList then return { entry with allowedIps := ← prefixList value entry.allowedIps }
  else .error .unknownKey

/-- The entry of the section that was opened last. -/
def assignLast {α : Type} (entries : List α) (assign : α → Except ConfigError α) : Except ConfigError (List α) :=
  match entries.getLast? with
  | none => .ok []
  | some entry => return entries.dropLast ++ [← assign entry]

def spoofSource (part : List Char) : Except ConfigError UInt32 :=
  match parseAddress part with
  | .error _ => .error .invalidValue
  | .ok address =>
    if address.family ≠ .ipv4 then .error .invalidValue
    else .ok (UInt32.ofNat (address.bytes.foldl (fun value octet => value * 256 + octet.toNat) 0))

def isBlank (character : Char) : Bool := character = ' ' || character = '\t'

def sniPool (value : List Char) : List String :=
  (((pieces value).map fun item => (item.dropWhile isBlank).rdropWhile isBlank).filter fun item =>
    item ≠ [] ∧ item.length ≤ 253).map String.ofList

/-- What one line `key = value` of a section does to the configuration. -/
def assign (sectionName key value : List Char) (config : Config) : Except ConfigError Config :=
  let qualified := sectionName ++ '.' :: key
  let named (word : String) : Bool := qualified = word.toList
  if named "node.role" then
    return { config with role := ← choose value [("server", .server), ("client", .client)] }
  else if named "node.listen_port" then return { config with listenPort := ← parsePort value }
  else if named "node.user" then bounded value 1 32 fun user => { config with user }
  else if named "node.tun" then bounded value 1 15 fun tunName => { config with tunName }
  else if sectionName = "forward".toList then
    return { config with forwards := ← assignLast config.forwards (assignForward key value) }
  else if sectionName = "peer".toList then
    return { config with peers := ← assignLast config.peers (assignPeer key value) }
  else if named "identity.key_file" then
    if value = [] then .error .invalidValue else .ok { config with identityKeyFile := String.ofList value }
  else if named "network.ipv4" then flag value fun ipv4 => { config with network := { config.network with ipv4 } }
  else if named "network.ipv6" then flag value fun ipv6 => { config with network := { config.network with ipv6 } }
  else if named "network.address" then do
    let addresses ← prefixList value config.network.addresses
    pure { config with network := { config.network with addresses } }
  else if named "network.fwmark" then do
    let mark ← parseUint value
    if mark = 0 ∨ 0xFFFFFFFF < mark then throw .valueOutOfRange
    pure { config with network := { config.network with fwmark := UInt32.ofNat mark } }
  else if named "network.return_via_tunnel" then
    flag value fun returnViaTunnel => { config with network := { config.network with returnViaTunnel } }
  else if named "network.offload" then
    flag value fun offload => { config with network := { config.network with offload } }
  else if named "network.forward" then
    flag value fun forward => { config with network := { config.network with forward } }
  else if named "network.mtu" then
    return { config with network := { config.network with mtu := ← parseMtu value } }
  else if named "transport.mode" then do
    let transport ← choose value [("auto", .automatic), ("udp", .udp), ("quic", .quic), ("tcp-tls", .tcpTls),
      ("icmp", .icmp), ("ipip", .ipip), ("gre", .gre), ("esp", .esp), ("ah", .ah), ("ospf", .ospf), ("dns", .dns)]
    pure { config with transport }
  else if named "qos.enabled" then flag value fun qosEnabled => { config with qosEnabled }
  else if named "qos.rate_bytes" then positive value fun qosRateBytes => { config with qosRateBytes }
  else if named "qos.burst_bytes" then positive value fun qosBurstBytes => { config with qosBurstBytes }
  else if named "congestion.brutal_rate_bytes" then
    positive value fun brutalRateBytes => { config with brutalRateBytes }
  else if named "transport.connections" then do
    let count ← parseUint value
    if count < 1 ∨ 8 < count then throw .valueOutOfRange
    pure { config with tcpConnections := UInt8.ofNat count }
  else if named "transport.profile" then
    return { config with profile := ← choose value [("standard", .standard), ("quic", .quic), ("dns", .dns)] }
  else if named "transport.obfuscation" then do
    let mode ← choose value [("off", .off), ("header-mask", .headerMask), ("full", .full)]
    pure { config with obfuscation := { config.obfuscation with mode } }
  else if named "transport.junk" then
    flag value fun junkPadding => { config with obfuscation := { config.obfuscation with junkPadding } }
  else if named "transport.uniform_length" then
    flag value fun uniformLength => { config with obfuscation := { config.obfuscation with uniformLength } }
  else if named "transport.junk_max" then do
    let most ← parseUint value
    if most = 0 ∨ kMaximumJunkLength < most then throw .valueOutOfRange
    pure { config with obfuscation := { config.obfuscation with junkMax := UInt8.ofNat most } }
  else if named "transport.priming" then
    flag value fun priming => { config with obfuscation := { config.obfuscation with priming } }
  else if named "node.log_level" then do
    let logLevel ← choose value
      [("debug", "debug"), ("info", "info"), ("warn", "warn"), ("error", "error"), ("off", "off")]
    pure { config with logLevel }
  else if named "node.tuning" then do
    let tuningProfile ← choose value
      [("off", "off"), ("balanced", "balanced"), ("throughput", "throughput"), ("saver", "saver")]
    pure { config with tuningProfile }
  else if named "transport.icmp_echo_request_only" then
    flag value fun icmpEchoRequestOnly => { config with icmpEchoRequestOnly }
  else if named "transport.icmp_silence_kernel" then
    flag value fun icmpSilenceKernel => { config with icmpSilenceKernel }
  else if named "transport.dns_domain" then .ok { config with dnsDomain := String.ofList value }
  else if named "transport.rekey_interval" then return { config with rekeyIntervalSeconds := ← parseInt32 value }
  else if named "transport.rotate_interval" then return { config with rotateIntervalSeconds := ← parseInt32 value }
  else if named "transport.spoof" then flag value fun spoofEnabled => { config with spoofEnabled }
  else if named "transport.spoof_sources" then do
    let sources := (← (splitList value).mapM spoofSource).filter (· ≠ 0)
    if sources = [] then throw .invalidValue
    pure { config with spoofSources := sources }
  else if named "transport.camouflage" then do
    let camouflage ← choose value [("off", .off), ("fake-tls", .fakeTls), ("pop3", .pop3), ("smtp", .smtp),
      ("xmpp", .xmpp), ("ssh", .ssh), ("raw", .raw)]
    pure { config with camouflage }
  else if named "transport.sni" then
    if value = [] ∨ 2048 < value.length then .error .invalidValue
    else
      match sniPool value with
      | [] => .error .invalidValue
      | front :: rest => .ok { config with camouflageSniPool := front :: rest, camouflageSni := front }
  else if named "transport.reality_private_key" then
    hexKey value fun realityPrivateKey => { config with realityPrivateKey }
  else if named "transport.reality_public_key" then
    hexKey value fun realityPublicKey => { config with realityPublicKey }
  else if named "transport.reality_short_id" then
    bounded value 16 16 fun realityShortId => { config with realityShortId }
  else if named "transport.reality_cover" then
    bounded value 1 300 fun realityCover => { config with realityCover }
  else if named "fec.mode" then do
    let fec ← choose value [("off", .off), ("light", .light), ("moderate", .moderate),
      ("aggressive", .aggressive), ("auto", .automatic)]
    pure { config with fec }
  else if named "observability.metrics" then flag value fun metricsEnabled => { config with metricsEnabled }
  else if named "observability.listen" then
    if value = [] ∨ ':' ∉ value then .error .invalidValue
    else .ok { config with metricsListen := String.ofList value }
  else .error .unknownKey

/-- The parser between two lines. -/
structure Progress where
  config : Config := {}
  sectionName : List Char := []
  seen : List (List Char) := []
  present : List (List Char) := []

def knownSections : List (List Char) :=
  ["node", "identity", "network", "transport", "qos", "fec", "observability", "congestion"].map String.toList

def opensEntry (line : List Char) : Bool :=
  4 < line.length && line.take 2 = ['[', '['] && line.drop (line.length - 2) = [']', ']']

def parseSection (number : ℕ) (line : List Char) (progress : Progress) : Except ConfigDiagnostic Progress :=
  if opensEntry line then
    let name := trim ((line.drop 2).take (line.length - 4))
    if name = "peer".toList then
      .ok { progress with
        config := { progress.config with peers := progress.config.peers ++ [{}] }, sectionName := name }
    else if name = "forward".toList then
      .ok { progress with
        config := { progress.config with forwards := progress.config.forwards ++ [{}] }, sectionName := name }
    else .error ⟨.unknownSection, number, String.ofList name⟩
  else if line.getLast? ≠ some ']' ∨ line.length ≤ 2 then .error ⟨.syntaxError, number, String.ofList line⟩
  else
    let name := trim ((line.drop 1).take (line.length - 2))
    if name ∈ knownSections then .ok { progress with sectionName := name }
    else .error ⟨.unknownSection, number, String.ofList name⟩

def parseEntry (number : ℕ) (line : List Char) (progress : Progress) : Except ConfigDiagnostic Progress :=
  if '=' ∉ line ∨ progress.sectionName = [] then .error ⟨.syntaxError, number, String.ofList line⟩
  else
    let key := trim (line.takeWhile (· ≠ '='))
    match unquote (trim ((line.dropWhile (· ≠ '=')).drop 1)) with
    | .error error => .error ⟨error, number, String.ofList key⟩
    | .ok value =>
      if key = [] then .error ⟨.syntaxError, number, String.ofList line⟩
      else
        let qualified := progress.sectionName ++ '.' :: key
        let scope :=
          if progress.sectionName = "peer".toList then
            (toString progress.config.peers.length).toList ++ '.' :: qualified
          else if progress.sectionName = "forward".toList then
            (toString progress.config.forwards.length).toList ++ '.' :: qualified
          else qualified
        if scope ∈ progress.seen then .error ⟨.duplicateKey, number, String.ofList qualified⟩
        else
          match assign progress.sectionName key value progress.config with
          | .error error => .error ⟨error, number, String.ofList qualified⟩
          | .ok config =>
            .ok { progress with
              config, seen := scope :: progress.seen, present := qualified :: progress.present }

def parseLine (number : ℕ) (raw : List Char) (progress : Progress) : Except ConfigDiagnostic Progress :=
  let line := trim raw
  let line := if '#' ∈ line then trim (line.takeWhile (· ≠ '#')) else line
  match line with
  | [] => .ok progress
  | '[' :: _ => parseSection number line progress
  | _ => parseEntry number line progress

def parseLines : ℕ → List (List Char) → Progress → Except ConfigDiagnostic Progress
  | _, [], progress => .ok progress
  | number, raw :: rest, progress => do parseLines (number + 1) rest (← parseLine number raw progress)

def entryLabel (kind name : String) (index : ℕ) : String :=
  if name = "" then kind ++ "[" ++ toString index ++ "]" else name

/-- The peers with their keys in lower case, which must differ. -/
def checkPeers : ℕ → List String → List PeerEntry → Except ConfigDiagnostic (List PeerEntry)
  | _, _, [] => .ok []
  | index, keys, peer :: peers => do
      let label := entryLabel "peer" peer.name index
      if peer.publicKey = "" then throw ⟨.missingRequired, 0, label ++ ".public_key"⟩
      if peer.allowedIps = [] then throw ⟨.missingRequired, 0, label ++ ".allowed_ips"⟩
      let lowered := String.ofList (peer.publicKey.toList.map Char.toLower)
      if lowered ∈ keys then throw ⟨.duplicateKey, 0, label ++ ".public_key"⟩
      return { peer with publicKey := lowered } :: (← checkPeers (index + 1) (lowered :: keys) peers)

/-- `used` are the protocols and ports of the forwards before. -/
def checkForwards (listenPort : UInt16) : ℕ → List (Bool × UInt16) → List ForwardEntry →
    Except ConfigDiagnostic Unit
  | _, _, [] => .ok ()
  | index, used, forward :: forwards => do
      let label := entryLabel "forward" forward.name index
      if forward.port = 0 then throw ⟨.missingRequired, 0, label ++ ".listen_port"⟩
      if forward.target = "" then throw ⟨.missingRequired, 0, label ++ ".target"⟩
      if forward.tcp ∧ (true, forward.port) ∈ used then throw ⟨.duplicateKey, 0, label ++ ".listen_port"⟩
      if forward.udp ∧ (false, forward.port) ∈ used then throw ⟨.duplicateKey, 0, label ++ ".listen_port"⟩
      if forward.port = listenPort ∧ forward.udp then
        throw ⟨.incompatibleOptions, 0, label ++ " uses the tunnel port"⟩
      checkForwards listenPort (index + 1)
        ((if forward.tcp then [(true, forward.port)] else []) ++
          (if forward.udp then [(false, forward.port)] else []) ++ used) forwards

def tcpFramedCarrier (config : Config) : Bool :=
  (config.transport = .tcpTls || config.transport = .automatic) &&
    (config.camouflage = .pop3 || config.camouflage = .smtp || config.camouflage = .xmpp ||
      config.camouflage = .ssh || config.camouflage = .raw)

/-- What is required or excluded once the whole text is read. -/
def validate (present : List (List Char)) (config : Config) : Except ConfigDiagnostic Config := do
  let missing (detail : String) : ConfigDiagnostic := ⟨.missingRequired, 0, detail⟩
  let incompatible (detail : String) : ConfigDiagnostic := ⟨.incompatibleOptions, 0, detail⟩
  if "node.listen_port".toList ∉ present then throw (missing "node.listen_port")
  if "identity.key_file".toList ∉ present then throw (missing "identity.key_file")
  let config := { config with peers := ← checkPeers 0 [] config.peers }
  checkForwards config.listenPort 0 [] config.forwards
  if config.qosEnabled ∧ config.qosRateBytes = 0 then throw (missing "qos.rate_bytes")
  if config.qosEnabled = false ∧ (config.qosRateBytes ≠ 0 ∨ config.qosBurstBytes ≠ 0) then
    throw (incompatible "qos.rate_bytes without qos.enabled")
  let config :=
    if config.qosEnabled ∧ config.qosBurstBytes = 0 then
      { config with qosBurstBytes := config.qosRateBytes / 10 + UInt64.ofNat kMaximumMtu }
    else config
  if config.metricsEnabled ∧ config.metricsListen = "" then throw (missing "observability.listen")
  if config.metricsEnabled = false ∧ config.metricsListen ≠ "" then
    throw (incompatible "observability.listen without observability.metrics")
  if config.spoofEnabled ∧ config.spoofSources = [] then throw (missing "transport.spoof_sources")
  if config.spoofEnabled = false ∧ config.spoofSources ≠ [] then
    throw (incompatible "transport.spoof_sources without transport.spoof")
  if config.spoofEnabled ∧ config.transport ≠ .automatic ∧ config.transport ≠ .udp then
    throw (incompatible "transport.spoof applies to the udp transport")
  if config.network.ipv4 = false ∧ config.network.ipv6 = false then
    throw (incompatible "network.ipv4 and network.ipv6 are both disabled")
  if config.obfuscation.mode = .off ∧ (config.obfuscation.junkPadding ∨ config.obfuscation.priming) then
    throw (incompatible "transport.junk/priming require transport.obfuscation")
  if config.obfuscation.junkPadding ∧ config.obfuscation.mode ≠ .full then
    throw (incompatible "transport.junk requires transport.obfuscation = full")
  if config.obfuscation.mode ≠ .off ∧ carriesDatagrams config.transport = false ∧
      config.tcpFramedCarrier = false then
    throw (incompatible ("transport.obfuscation applies to the datagram transports (udp, icmp, ipip, gre, esp, " ++
      "ah, ospf) or a framed tcp carrier (camouflage = pop3/smtp/xmpp/ssh/raw)"))
  if config.camouflage ≠ .off ∧ config.transport ≠ .automatic ∧ config.transport ≠ .tcpTls then
    throw (incompatible "transport.camouflage applies to the tcp-tls transport")
  pure config

end Config

def parseConfig (text : List Char) : Except ConfigDiagnostic Config := do
  let progress ← Config.parseLines 1 (text.splitOn '\n') {}
  Config.validate progress.present progress.config

end Norr
