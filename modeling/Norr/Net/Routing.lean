import Norr.Net.IpPacket

/-! The RoutingTable of `routing.cpp`. -/

namespace Norr

inductive RoutingError
  | duplicatePrefix
  | invalidPeer
  | tooManyPrefixes
  deriving DecidableEq, Repr

inductive ForwardDecision
  | forward
  | deliverLocal
  | noRoute
  | sourceNotAuthorized
  | multicastDenied
  | unspecifiedAddress
  | loopbackAddress
  | hopLimitExceeded
  | routingLoop
  deriving DecidableEq, Repr

structure ForwardResult where
  decision : ForwardDecision
  peer : PeerId := kNoPeer
  deriving DecidableEq, Repr

def ForwardResult.accepted (result : ForwardResult) : Bool :=
  result.decision = .forward || result.decision = .deliverLocal

structure RouteEntry where
  range : Prefix
  peer : PeerId
  deriving DecidableEq

def kMaximumPrefixes : ℕ := 4096

/-- The entries keep decreasing lengths: the new one goes before the first that is not longer. -/
def placeEntry (entries : List RouteEntry) (entry : RouteEntry) : List RouteEntry :=
  entries.takeWhile (fun other => entry.range.length < other.range.length) ++
    entry :: entries.dropWhile (fun other => entry.range.length < other.range.length)

def LongestFirst (entries : List RouteEntry) : Prop :=
  entries.Pairwise fun first second => second.range.length ≤ first.range.length

theorem place_perm (entries : List RouteEntry) (entry : RouteEntry) :
    (placeEntry entries entry).Perm (entry :: entries) := by
  have middle : (placeEntry entries entry).Perm _ := List.perm_middle
  rwa [List.takeWhile_append_dropWhile] at middle

theorem place_longestFirst {entries : List RouteEntry} (sorted : LongestFirst entries)
    (entry : RouteEntry) : LongestFirst (placeEntry entries entry) := by
  induction entries with
  | nil => exact List.pairwise_singleton _ _
  | cons head tail ih =>
    obtain ⟨longest, rest⟩ := List.pairwise_cons.mp sorted
    by_cases longer : entry.range.length < head.range.length
    · have placed : placeEntry (head :: tail) entry = head :: placeEntry tail entry := by
        simp [placeEntry, longer]
      rw [placed]
      refine List.pairwise_cons.mpr ⟨fun other member => ?_, ih rest⟩
      rcases List.mem_cons.mp ((place_perm tail entry).mem_iff.mp member) with same | member
      · rw [same]
        exact UInt8.le_of_lt longer
      · exact longest other member
    · have placed : placeEntry (head :: tail) entry = entry :: head :: tail := by
        simp [placeEntry, longer]
      rw [placed]
      refine List.pairwise_cons.mpr ⟨fun other member => ?_, sorted⟩
      rcases List.mem_cons.mp member with same | member
      · rw [same]
        exact UInt8.not_lt.mp longer
      · exact UInt8.le_trans (longest other member) (UInt8.not_lt.mp longer)

theorem longestFirst_nil : LongestFirst [] := List.Pairwise.nil

structure RoutingTable where
  entries : List RouteEntry := []
  locals : List Prefix := []
  sorted : LongestFirst entries := by exact longestFirst_nil
  deriving DecidableEq

namespace RoutingTable

def add (table : RoutingTable) (peer : PeerId) (range : Prefix) : Except RoutingError RoutingTable :=
  if peer = kNoPeer then .error .invalidPeer
  else if kMaximumPrefixes ≤ table.entries.length then .error .tooManyPrefixes
  else
    match table.entries.find? (·.range = range) with
    | some entry => if entry.peer = peer then .ok table else .error .duplicatePrefix
    | none => .ok ⟨placeEntry table.entries ⟨range, peer⟩, table.locals, place_longestFirst table.sorted _⟩

def addLocal (table : RoutingTable) (range : Prefix) : Except RoutingError RoutingTable :=
  if kMaximumPrefixes ≤ table.locals.length then .error .tooManyPrefixes
  else if range ∈ table.locals then .ok table
  else .ok { table with locals := table.locals ++ [range] }

def clearPeerRoutes (table : RoutingTable) : RoutingTable := { locals := table.locals }

def covers (range : Prefix) (address : Address) : Bool :=
  range.address.family = address.family && range.contains address

def isLocal (table : RoutingTable) (address : Address) : Bool := table.locals.any (covers · address)

def lookup (table : RoutingTable) (address : Address) : PeerId :=
  match table.entries.find? (fun entry => covers entry.range address) with
  | none => kNoPeer
  | some entry => entry.peer

/-- A longest prefix that covers the address belongs to the peer. -/
def Resolves (table : RoutingTable) (address : Address) (peer : PeerId) : Prop :=
  ∃ entry ∈ table.entries, entry.peer = peer ∧ covers entry.range address ∧
    ∀ other ∈ table.entries, covers other.range address → other.range.length ≤ entry.range.length

def isAuthorized (table : RoutingTable) (peer : PeerId) (address : Address) : Bool :=
  peer ≠ kNoPeer && table.entries.any fun entry => entry.peer = peer && covers entry.range address

def classify (table : RoutingTable) (packet : IpPacketView) (ingressPeer : PeerId) : ForwardResult :=
  if isMulticast packet.destination then ⟨.multicastDenied, kNoPeer⟩
  else if isUnspecified packet.destination || isUnspecified packet.source then
    ⟨.unspecifiedAddress, kNoPeer⟩
  else if isLoopback packet.destination || isLoopback packet.source then ⟨.loopbackAddress, kNoPeer⟩
  else if packet.hopLimit ≤ 1 then ⟨.hopLimitExceeded, kNoPeer⟩
  else if ingressPeer ≠ kNoPeer ∧ table.isAuthorized ingressPeer packet.source = false then
    ⟨.sourceNotAuthorized, kNoPeer⟩
  else if table.isLocal packet.destination then ⟨.deliverLocal, kNoPeer⟩
  else
    let destinationPeer := table.lookup packet.destination
    if destinationPeer = kNoPeer then
      if ingressPeer ≠ kNoPeer then ⟨.deliverLocal, kNoPeer⟩ else ⟨.noRoute, kNoPeer⟩
    else if destinationPeer = ingressPeer then ⟨.routingLoop, kNoPeer⟩
    else ⟨.forward, destinationPeer⟩

theorem lookup_resolves (table : RoutingTable) (address : Address)
    (found : table.lookup address ≠ kNoPeer) : table.Resolves address (table.lookup address) := by
  unfold lookup at found ⊢
  split at found
  · exact absurd rfl found
  · rename_i entry first
    obtain ⟨covered, earlier, later, split, skipped⟩ := List.find?_eq_some_iff_append.mp first
    refine ⟨entry, List.mem_of_find?_eq_some first, rfl, covered, fun other member covers => ?_⟩
    have sorted := table.sorted
    rw [split] at member
    rw [LongestFirst, split, List.pairwise_append, List.pairwise_cons] at sorted
    rcases List.mem_append.mp member with before | after
    · have missed := skipped other before
      simp only [covers, Bool.not_true, Bool.false_eq_true] at missed
    · rcases List.mem_cons.mp after with same | after
      · rw [same]
        exact UInt8.le_refl _
      · exact sorted.2.1.1 other after

/-- What a packet from a peer must be for the table to let it in. -/
structure Admits (table : RoutingTable) (packet : IpPacketView) (peer : PeerId) : Prop where
  unicast : isMulticast packet.destination = false
  specified : isUnspecified packet.source = false ∧ isUnspecified packet.destination = false
  external : isLoopback packet.source = false ∧ isLoopback packet.destination = false
  hops : 2 ≤ packet.hopLimit
  authorised : ∃ entry ∈ table.entries, entry.peer = peer ∧ covers entry.range packet.source
  forward : table.isLocal packet.destination ∨ table.lookup packet.destination ≠ peer

theorem classify_accepted {table : RoutingTable} {packet : IpPacketView} {peer : PeerId}
    (known : peer ≠ kNoPeer) (accepted : (table.classify packet peer).accepted = true) :
    table.Admits packet peer := by
  simp only [classify] at accepted
  split_ifs at accepted with multicast unspecified loopback hops unauthorised isLocal unknown loop <;>
    cases accepted
  all_goals
    simp only [Bool.not_eq_true] at multicast
    simp only [Bool.or_eq_true, not_or, Bool.not_eq_true] at unspecified loopback
    have authorised : ∃ entry ∈ table.entries, entry.peer = peer ∧ covers entry.range packet.source := by
      simpa [isAuthorized, known] using unauthorised
    have far : 2 ≤ packet.hopLimit := by
      rw [UInt8.le_iff_toNat_le]
      rw [UInt8.le_iff_toNat_le] at hops
      exact not_le.mp hops
  · exact ⟨multicast, unspecified.symm, loopback.symm, far, authorised, .inl isLocal⟩
  · refine ⟨multicast, unspecified.symm, loopback.symm, far, authorised, .inr ?_⟩
    rw [unknown]
    exact known.symm
  · exact ⟨multicast, unspecified.symm, loopback.symm, far, authorised, .inr loop⟩

end RoutingTable

end Norr
