import Norr.Lib.Bits
import Norr.Net.Routing

/-! Longest-prefix routing: what `Prefix::contains` and `RoutingTable::lookup` compute, in terms of the
bits of an address. -/

namespace Norr

def Address.bit (address : Address) (index : ℕ) : Bool := BitString.bit address.bytes index

/-- Addresses of one family whose first bits are the same. -/
def Address.Agrees (first second : Address) (length : ℕ) : Prop :=
  first.family = second.family ∧ ∀ index < length, first.bit index = second.bit index

theorem Address.bytes_fromBytes {family : AddressFamily} {bytes : Bytes}
    (sized : bytes.length = addressLength family) : (fromBytes family bytes).bytes = bytes := by
  have short : addressLength family ≤ 16 := by cases family <;> decide
  apply List.ext_getElem
  · rw [bytes_length, sized]
    rfl
  · intro index bound inside
    have place : index < 16 := by omega
    simp [Address.bytes, fromBytes, Octets.ofBytes, inside]

namespace Prefix

theorem contains_iff {range : Prefix} {address : Address}
    (fits : range.length.toNat ≤ maximumPrefixLength range.address.family) :
    range.contains address = true ↔ address.Agrees range.address range.length.toNat := by
  have bits : maximumPrefixLength range.address.family = addressLength range.address.family * 8 := by
    cases range.address.family <;> rfl
  simp only [contains, Bool.and_eq_true, decide_eq_true_eq, and_assoc, Address.Agrees]
  apply and_congr_right
  intro family
  have sized : address.bytes.length = range.address.bytes.length := by
    rw [Address.bytes_length, Address.bytes_length, family]
  have room : range.length.toNat / 8 ≤ address.bytes.length := by
    rw [Address.bytes_length, family]
    omega
  rw [BitString.take_eq_iff _ room sized, Bool.or_eq_true, decide_eq_true_eq, decide_eq_true_eq,
    BitString.masked_eq_iff (Nat.mod_lt _ (by decide))]
  constructor
  · rintro ⟨whole, rest⟩ index inside
    by_cases octet : index < range.length.toNat / 8 * 8
    · exact whole index octet
    · rcases rest with none | masked
      · omega
      · have place := masked (7 - index % 8) (by omega) (by omega)
        have quotient : index / 8 = range.length.toNat / 8 := by omega
        rwa [← quotient] at place
  · intro same
    refine ⟨fun index inside => same index (by omega), ?_⟩
    refine or_iff_not_imp_left.mpr fun _ place inside covered => ?_
    have equal := same (range.length.toNat / 8 * 8 + (7 - place)) (by omega)
    rwa [Address.bit, Address.bit, BitString.bit_octet _ _ _ inside, BitString.bit_octet _ _ _ inside] at equal

theorem create_ok {given : Address} {length : UInt8} {range : Prefix} (created : create given length = .ok range) :
    length.toNat ≤ maximumPrefixLength given.family ∧ range.length = length ∧
      range.address.family = given.family ∧
      (∃ octets, octets.length = addressLength given.family ∧ range.address = .fromBytes given.family octets) ∧
      ∀ index < addressLength given.family * 8,
        range.address.bit index = (given.bit index && decide (index < length.toNat)) := by
  simp only [create] at created
  split_ifs at created with long
  cases created
  have inside : ∀ index ∈ List.range' length.toNat (addressLength given.family * 8 - length.toNat),
      index < given.bytes.length * 8 := by
    intro index member
    rw [List.mem_range'_1] at member
    rw [Address.bytes_length]
    omega
  obtain ⟨sized, bits⟩ := BitString.foldl_clear _ _ inside
  rw [Address.bytes_length] at sized
  refine ⟨not_lt.mp long, rfl, rfl, ⟨_, sized, rfl⟩, fun index bound => ?_⟩
  have back := congrArg (BitString.bit · index) (Address.bytes_fromBytes sized)
  refine (back.trans (bits index)).trans ?_
  congr 2
  apply propext
  rw [List.mem_range'_1]
  omega

theorem create_isOk (given : Address) (length : UInt8) :
    (∃ range, create given length = .ok range) ↔ length.toNat ≤ maximumPrefixLength given.family := by
  constructor
  · rintro ⟨range, created⟩
    exact (create_ok created).1
  · intro fits
    simp only [create]
    rw [if_neg (not_lt.mpr fits)]
    exact ⟨_, rfl⟩

theorem created_contains_iff {given : Address} {length : UInt8} {range : Prefix}
    (created : create given length = .ok range) (address : Address) :
    range.contains address = true ↔ address.Agrees given length.toNat := by
  obtain ⟨fits, lengths, family, -, bits⟩ := create_ok created
  have whole : maximumPrefixLength given.family = addressLength given.family * 8 := by
    cases given.family <;> rfl
  rw [contains_iff (by rw [lengths, family]; exact fits), Address.Agrees, Address.Agrees, family, lengths]
  apply and_congr_right
  intro _
  apply forall₂_congr
  intro index inside
  rw [bits index (by omega)]
  simp [inside]

/-- The prefixes there are: those Prefix::create returns. -/
def Made (range : Prefix) : Prop := ∃ given length, create given length = .ok range

theorem Made.fits {range : Prefix} (made : range.Made) :
    range.length.toNat ≤ maximumPrefixLength range.address.family := by
  obtain ⟨given, length, created⟩ := made
  obtain ⟨fits, lengths, family, -, -⟩ := create_ok created
  rw [lengths, family]
  exact fits

/-- The host bits are cleared, so that the bits of a prefix determine it. -/
theorem Made.ext {first second : Prefix} (made : first.Made) (otherMade : second.Made)
    (lengths : first.length = second.length)
    (same : first.address.Agrees second.address first.length.toNat) : first = second := by
  obtain ⟨given, length, created⟩ := made
  obtain ⟨otherGiven, otherLength, otherCreated⟩ := otherMade
  obtain ⟨-, firstLength, family, ⟨octets, sized, address⟩, bits⟩ := create_ok created
  obtain ⟨-, secondLength, otherFamily, ⟨otherOctets, otherSized, otherAddress⟩, otherBits⟩ :=
    create_ok otherCreated
  have families : given.family = otherGiven.family := by rw [← family, ← otherFamily, same.1]
  have equal : octets = otherOctets := by
    have every : octets.take (addressLength given.family) = otherOctets.take (addressLength given.family) := by
      refine (BitString.take_eq_iff _ sized.ge (by rw [sized, otherSized, families])).mpr ?_
      intro index bound
      have here := bits index bound
      have there := otherBits index (families ▸ bound)
      have agree := same.2 index
      rw [here, there] at agree
      rw [address, Address.bit, Address.bytes_fromBytes sized] at here
      rw [otherAddress, Address.bit, Address.bytes_fromBytes otherSized] at there
      rw [here, there]
      rw [firstLength] at agree lengths
      rw [secondLength] at lengths
      rw [← lengths] at agree ⊢
      by_cases inside : index < length.toNat
      · exact agree inside
      · simp [inside]
    rwa [List.take_of_length_le sized.le, List.take_of_length_le (by rw [otherSized, families])] at every
  have addresses : first.address = second.address := by rw [address, otherAddress, equal, families]
  cases first
  cases second
  simp_all

end Prefix

inductive RouteCall
  | add (peer : PeerId) (range : Prefix)
  | addLocal (range : Prefix)

def RouteCall.range : RouteCall → Prefix
  | .add _ range => range
  | .addLocal range => range

/-- The routes the calls ask for. -/
def RouteCall.entry? : RouteCall → Option RouteEntry
  | .add peer range => some ⟨range, peer⟩
  | .addLocal _ => none

/-- The address starts with the bits of the prefix. -/
def RouteEntry.Matches (entry : RouteEntry) (address : Address) : Prop :=
  address.Agrees entry.range.address entry.range.length.toNat

namespace RoutingTable

def perform (table : RoutingTable) : RouteCall → Except RoutingError RoutingTable
  | .add peer range => table.add peer range
  | .addLocal range => table.addLocal range

def performAll (calls : List RouteCall) : Except RoutingError RoutingTable := calls.foldlM perform {}

/-- The table holds each of the routes once, and nothing else. -/
structure Collects (table : RoutingTable) (routes : List RouteEntry) : Prop where
  members : ∀ entry, entry ∈ table.entries ↔ entry ∈ routes
  distinct : (table.entries.map RouteEntry.range).Nodup
  known : ∀ entry ∈ table.entries, entry.peer ≠ kNoPeer

theorem collects_perform {table after : RoutingTable} {routes : List RouteEntry} (collects : table.Collects routes)
    (call : RouteCall) (performed : table.perform call = .ok after) :
    after.Collects (routes ++ call.entry?.toList) := by
  obtain ⟨members, distinct, known⟩ := collects
  cases call with
  | addLocal range =>
    simp only [perform, addLocal] at performed
    simp only [RouteCall.entry?, Option.toList_none, List.append_nil]
    split_ifs at performed <;> cases performed <;> exact ⟨members, distinct, known⟩
  | add peer range =>
    simp only [perform, add] at performed
    simp only [RouteCall.entry?, Option.toList_some]
    split_ifs at performed with nobody full
    split at performed
    · rename_i entry found
      have covered : entry.range = range := by simpa using List.find?_some found
      split_ifs at performed with same
      cases performed
      refine ⟨fun other => ?_, distinct, known⟩
      have present : (⟨range, peer⟩ : RouteEntry) ∈ routes := by
        rw [← covered, ← same]
        exact (members entry).mp (List.mem_of_find?_eq_some found)
      rw [members, List.mem_append, List.mem_singleton]
      exact ⟨.inl, fun either => either.elim id fun equal => equal ▸ present⟩
    · rename_i absent
      cases performed
      have placed := place_perm table.entries ⟨range, peer⟩
      refine ⟨fun other => ?_, ?_, fun other member => ?_⟩
      · rw [placed.mem_iff, List.mem_cons, members, List.mem_append, List.mem_singleton, or_comm]
      · rw [(placed.map RouteEntry.range).nodup_iff, List.map_cons, List.nodup_cons]
        refine ⟨fun member => ?_, distinct⟩
        obtain ⟨entry, present, same⟩ := List.mem_map.mp member
        exact absurd same (by simpa using List.find?_eq_none.mp absent entry present)
      · rcases List.mem_cons.mp (placed.mem_iff.mp member) with rfl | old
        · exact nobody
        · exact known other old

theorem collects_performAll {calls : List RouteCall} {table : RoutingTable}
    (performed : performAll calls = .ok table) : table.Collects (calls.filterMap RouteCall.entry?) := by
  have general : ∀ (calls : List RouteCall) (start : RoutingTable) (routes : List RouteEntry),
      start.Collects routes → calls.foldlM perform start = .ok table →
        table.Collects (routes ++ calls.filterMap RouteCall.entry?) := by
    intro calls
    induction calls with
    | nil =>
      intro start routes collects performed
      cases performed
      simpa using collects
    | cons call calls ih =>
      intro start routes collects performed
      rw [List.foldlM_cons] at performed
      cases first : start.perform call with
      | error error => rw [first] at performed; cases performed
      | ok next =>
        rw [first] at performed
        have rest := ih next _ (collects_perform collects call first) performed
        have split : routes ++ (call :: calls).filterMap RouteCall.entry? =
            routes ++ call.entry?.toList ++ calls.filterMap RouteCall.entry? := by
          cases call <;> simp [RouteCall.entry?, List.filterMap_cons]
        rw [split]
        exact rest
  exact general calls {} [] ⟨by simp, by simp, by simp⟩ performed

theorem covers_iff {entry : RouteEntry} (made : entry.range.Made) (address : Address) :
    covers entry.range address = true ↔ entry.Matches address := by
  rw [covers, Bool.and_eq_true, Prefix.contains_iff made.fits, decide_eq_true_eq, RouteEntry.Matches]
  exact ⟨And.right, fun matching => ⟨matching.1.symm, matching⟩⟩

/-- The route is the only longest one that matches. -/
def Longest (routes : List RouteEntry) (address : Address) (entry : RouteEntry) : Prop :=
  entry ∈ routes ∧ entry.Matches address ∧ ∀ other ∈ routes, other.Matches address →
    other.range.length ≤ entry.range.length ∧ (other.range.length = entry.range.length → other = entry)

theorem Longest.unique {routes others : List RouteEntry} {address : Address} {first second : RouteEntry}
    (longest : Longest routes address first) (otherLongest : Longest others address second)
    (same : ∀ entry, entry ∈ others ↔ entry ∈ routes) : second = first := by
  obtain ⟨member, matching, largest⟩ := longest
  obtain ⟨otherMember, otherMatching, otherLargest⟩ := otherLongest
  obtain ⟨below, equal⟩ := largest second ((same second).mp otherMember) otherMatching
  have above := (otherLargest first ((same first).mpr member) matching).1
  exact equal (UInt8.le_antisymm below above)

theorem lookup_cases {table : RoutingTable} {routes : List RouteEntry} (collects : table.Collects routes)
    (made : ∀ entry ∈ routes, entry.range.Made) (address : Address) :
    (table.lookup address = kNoPeer ∧ ∀ entry ∈ routes, ¬ entry.Matches address) ∨
      ∃ entry, Longest routes address entry ∧ table.lookup address = entry.peer ∧ entry.peer ≠ kNoPeer := by
  unfold lookup
  split
  · rename_i none
    refine .inl ⟨rfl, fun entry member matching => ?_⟩
    have missed := List.find?_eq_none.mp none entry ((collects.members entry).mpr member)
    exact missed ((covers_iff (made entry member) address).mpr matching)
  · rename_i entry found
    have present := List.mem_of_find?_eq_some found
    have member := (collects.members entry).mp present
    have covered : covers entry.range address = true :=
      (List.find?_eq_some_iff_append.mp found).1
    have matching := (covers_iff (made entry member) address).mp covered
    refine .inr ⟨entry, ⟨member, matching, fun other otherMember otherMatching => ⟨?_, fun lengths => ?_⟩⟩,
      rfl, collects.known entry present⟩
    · -- entries are tried in the order of decreasing lengths
      obtain ⟨-, earlier, later, split, skipped⟩ := List.find?_eq_some_iff_append.mp found
      have sorted := table.sorted
      have place := (collects.members other).mpr otherMember
      rw [split] at place
      rw [LongestFirst, split, List.pairwise_append, List.pairwise_cons] at sorted
      rcases List.mem_append.mp place with before | after
      · have missed := skipped other before
        simp [(covers_iff (made other otherMember) address).mpr otherMatching] at missed
      · rcases List.mem_cons.mp after with rfl | after
        · exact UInt8.le_refl _
        · exact sorted.2.1.1 other after
    · have ranges : other.range = entry.range := by
        apply (made other otherMember).ext (made entry member) lengths
        refine ⟨otherMatching.1.symm.trans matching.1, fun index inside => ?_⟩
        exact (otherMatching.2 index inside).symm.trans (matching.2 index (lengths ▸ inside))
      exact List.inj_on_of_nodup_map collects.distinct ((collects.members other).mpr otherMember) present ranges

/-- lookup returns the peer of the longest of the prefixes added that matches the address, which is
unique, and kNoPeer if there is none, in whatever order they were added; a prefix made of an address
contains exactly the addresses that agree with it on the length of the prefix. -/
theorem lookup_longest {calls : List RouteCall} {table : RoutingTable} (performed : performAll calls = .ok table)
    (made : ∀ call ∈ calls, call.range.Made) (address : Address) :
    ((table.lookup address = kNoPeer ∧
        ∀ entry ∈ calls.filterMap RouteCall.entry?, ¬ entry.Matches address) ∨
      ∃ entry, Longest (calls.filterMap RouteCall.entry?) address entry ∧
        table.lookup address = entry.peer ∧ entry.peer ≠ kNoPeer) ∧
    (∀ reordered other, reordered.Perm calls → performAll reordered = .ok other →
      other.lookup address = table.lookup address) ∧
    ∀ given length, ((∃ range, Prefix.create given length = .ok range) ↔
        length.toNat ≤ maximumPrefixLength given.family) ∧
      ∀ range, Prefix.create given length = .ok range →
        (range.contains address = true ↔ address.Agrees given length.toNat) := by
  have entries {calls : List RouteCall} (made : ∀ call ∈ calls, call.range.Made) :
      ∀ entry ∈ calls.filterMap RouteCall.entry?, entry.range.Made := by
    intro entry member
    obtain ⟨call, present, asked⟩ := List.mem_filterMap.mp member
    cases call <;> cases asked
    exact made _ present
  have cases := lookup_cases (collects_performAll performed) (entries made) address
  refine ⟨cases, fun reordered other permuted reperformed => ?_, fun given length =>
    ⟨Prefix.create_isOk given length, fun range created => Prefix.created_contains_iff created address⟩⟩
  have otherMade : ∀ call ∈ reordered, call.range.Made := fun call member => made call (permuted.mem_iff.mp member)
  have same : ∀ entry, entry ∈ reordered.filterMap RouteCall.entry? ↔
      entry ∈ calls.filterMap RouteCall.entry? := fun entry => (permuted.filterMap _).mem_iff
  rcases lookup_cases (collects_performAll reperformed) (entries otherMade) address with
    ⟨nobody, unmatched⟩ | ⟨entry, longest, peer, -⟩
  · rcases cases with ⟨none, -⟩ | ⟨entry, longest, -, -⟩
    · rw [nobody, none]
    · exact absurd longest.2.1 (unmatched entry ((same entry).mpr longest.1))
  · rcases cases with ⟨-, unmatched⟩ | ⟨chosen, chosenLongest, chosenPeer, -⟩
    · exact absurd longest.2.1 (unmatched entry ((same entry).mp longest.1))
    · rw [peer, chosenPeer, chosenLongest.unique longest same]

/-- 10.0.0.0/8 and, longer, 10.1.0.0/16. -/
def nestedCalls : List RouteCall :=
  [.add 1 ⟨.fromBytes .ipv4 [10], 8⟩, .add 2 ⟨.fromBytes .ipv4 [10, 1], 16⟩]

def nestedTable : RoutingTable := (performAll nestedCalls).toOption.getD {}

theorem nestedCalls_made : ∀ call ∈ nestedCalls, call.range.Made := by
  intro call member
  refine ⟨call.range.address, call.range.length, ?_⟩
  revert call
  decide +kernel

theorem lookup_longest_nested :
    nestedTable.lookup (.fromBytes .ipv4 [10, 1, 2, 3]) = 2 ∧
      ∃ entry, Longest (nestedCalls.filterMap RouteCall.entry?) (.fromBytes .ipv4 [10, 1, 2, 3]) entry ∧
        entry.peer = 2 := by
  have found : nestedTable.lookup (.fromBytes .ipv4 [10, 1, 2, 3]) = 2 := by decide +kernel
  have performed : performAll nestedCalls = .ok nestedTable := by
    cases ran : performAll nestedCalls with
    | error error =>
      have fine : (performAll nestedCalls).isOk = true := by decide +kernel
      rw [ran] at fine
      cases fine
    | ok table => rw [nestedTable, ran]; rfl
  refine ⟨found, ?_⟩
  rcases (lookup_longest performed nestedCalls_made (.fromBytes .ipv4 [10, 1, 2, 3])).1 with
    ⟨nobody, -⟩ | ⟨entry, longest, peer, -⟩
  · rw [found] at nobody
    exact absurd nobody (by decide)
  · exact ⟨entry, longest, peer.symm.trans found⟩

end RoutingTable

end Norr
