import Mathlib.Data.List.Find
import Mathlib.Data.List.Dedup
import Norr.Runtime.Reload

/-! When a reload that fails has changed nothing. -/

namespace Norr

/-- What an entry of the new file asks for: a prefix, in the name of its key. -/
abbrev Claim := PublicKey × Prefix

def Incoming.key (next : Incoming) : PublicKey := next.peer.staticPublic

def Incoming.claims (next : Incoming) : List Claim := next.prefixes.map (next.key, ·)

def claimsOf (incoming : List Incoming) : List Claim := incoming.flatMap Incoming.claims

/-- The table is full, or another key has the prefix already. -/
def Refused (earlier : List Claim) (claim : Claim) : Prop :=
  kMaximumPrefixes ≤ (earlier.map Prod.snd).dedup.length ∨
    ∃ other ∈ earlier, other.2 = claim.2 ∧ other.1 ≠ claim.1

def Accepted (claims : List Claim) : Prop :=
  ∀ before claim after, claims = before ++ claim :: after → ¬ Refused before claim

/-- The entries a table has after the claims were added to it in order. -/
def tabulate (ids : PublicKey → PeerId) (claims : List Claim) : List RouteEntry :=
  claims.foldl (fun entries claim =>
    if entries.any (·.range = claim.2) then entries
    else placeEntry entries ⟨claim.2, ids claim.1⟩) []

theorem accepted_nil : Accepted [] := by
  intro before claim after split
  cases before <;> cases split

theorem accepted_append {claims : List Claim} {claim : Claim} :
    Accepted (claims ++ [claim]) ↔ Accepted claims ∧ ¬ Refused claims claim := by
  constructor
  · intro accepted
    refine ⟨fun before other after split => ?_, accepted claims claim [] rfl⟩
    apply accepted before other (after ++ [claim])
    rw [split, List.append_assoc, List.cons_append]
  · rintro ⟨accepted, kept⟩ before other after split
    rcases List.eq_nil_or_concat after with rfl | ⟨rest, last, rfl⟩
    · obtain ⟨same, final⟩ := List.append_inj' split rfl
      rw [← same, ← List.singleton_inj.mp final]
      exact kept
    · rw [List.concat_eq_append, ← List.cons_append, ← List.append_assoc] at split
      obtain ⟨same, -⟩ := List.append_inj' split rfl
      exact accepted before other rest same

theorem Accepted.left {earlier later : List Claim} (accepted : Accepted (earlier ++ later)) :
    Accepted earlier := by
  intro before claim after split
  apply accepted before claim (after ++ later)
  rw [split, List.append_assoc, List.cons_append]

theorem Accepted.same_key {claims : List Claim} (accepted : Accepted claims) {first second : Claim}
    (firstMember : first ∈ claims) (secondMember : second ∈ claims) (same : first.2 = second.2) :
    first.1 = second.1 := by
  induction claims using List.reverseRecOn with
  | nil => cases firstMember
  | append_singleton claims claim ih =>
    obtain ⟨accepted, kept⟩ := accepted_append.mp accepted
    have others (other : Claim) (member : other ∈ claims) (range : other.2 = claim.2) :
        other.1 = claim.1 := by
      by_contra differs
      exact kept (.inr ⟨other, member, range, differs⟩)
    rcases List.mem_append.mp firstMember with firstMember | firstMember
    · rcases List.mem_append.mp secondMember with secondMember | secondMember
      · exact ih accepted firstMember secondMember
      · rw [List.mem_singleton.mp secondMember] at same ⊢
        exact others first firstMember same
    · rw [List.mem_singleton.mp firstMember] at same ⊢
      rcases List.mem_append.mp secondMember with secondMember | secondMember
      · exact (others second secondMember same.symm).symm
      · rw [List.mem_singleton.mp secondMember]

variable {ids : PublicKey → PeerId}

theorem tabulate_append (claims : List Claim) (claim : Claim) :
    tabulate ids (claims ++ [claim]) =
      if (tabulate ids claims).any (·.range = claim.2) then tabulate ids claims
      else placeEntry (tabulate ids claims) ⟨claim.2, ids claim.1⟩ := by
  rw [tabulate, List.foldl_append]
  rfl

theorem tabulate_congr {others : PublicKey → PeerId} (claims : List Claim)
    (agree : ∀ claim ∈ claims, others claim.1 = ids claim.1) : tabulate others claims = tabulate ids claims := by
  induction claims using List.reverseRecOn with
  | nil => rfl
  | append_singleton claims claim ih =>
    rw [tabulate_append, tabulate_append, agree claim (by simp),
      ih (fun other member => agree other (List.mem_append_left _ member))]

/-- Every entry stems from a claim. -/
theorem tabulate_claimed {claims : List Claim} {entry : RouteEntry} (member : entry ∈ tabulate ids claims) :
    ∃ claim ∈ claims, claim.2 = entry.range ∧ entry.peer = ids claim.1 := by
  induction claims using List.reverseRecOn with
  | nil => cases member
  | append_singleton claims claim ih =>
    rw [tabulate_append] at member
    split_ifs at member
    · obtain ⟨other, claimed, facts⟩ := ih member
      exact ⟨other, List.mem_append_left _ claimed, facts⟩
    · rcases List.mem_cons.mp ((place_perm _ _).mem_iff.mp member) with same | member
      · rw [same]
        exact ⟨claim, by simp, rfl, rfl⟩
      · obtain ⟨other, claimed, facts⟩ := ih member
        exact ⟨other, List.mem_append_left _ claimed, facts⟩

theorem tabulate_ranges (ids : PublicKey → PeerId) (claims : List Claim) :
    ((tabulate ids claims).map RouteEntry.range).Nodup ∧
      ∀ range, range ∈ (tabulate ids claims).map RouteEntry.range ↔ range ∈ claims.map Prod.snd := by
  induction claims using List.reverseRecOn with
  | nil => exact ⟨List.nodup_nil, fun _ => Iff.rfl⟩
  | append_singleton claims claim ih =>
    obtain ⟨nodup, members⟩ := ih
    have present : (tabulate ids claims).any (·.range = claim.2) = true ↔
        claim.2 ∈ (tabulate ids claims).map RouteEntry.range := by
      simp only [List.any_eq_true, decide_eq_true_eq, List.mem_map]
    rw [tabulate_append]
    split_ifs with known
    · refine ⟨nodup, fun range => ?_⟩
      have claimed := (members claim.2).mp (present.mp known)
      rw [members, List.map_append, List.mem_append]
      constructor
      · exact .inl
      · rintro (member | member)
        · exact member
        · rw [List.mem_singleton.mp member]
          exact claimed
    · have placed := (place_perm (tabulate ids claims)
        ⟨claim.2, ids claim.1⟩).map RouteEntry.range
      have fresh : claim.2 ∉ (tabulate ids claims).map RouteEntry.range :=
        fun member => known (present.mpr member)
      refine ⟨placed.nodup_iff.mpr (List.nodup_cons.mpr ⟨fresh, nodup⟩), fun range => ?_⟩
      rw [placed.mem_iff, List.map_cons, List.mem_cons, members, List.map_append, List.mem_append,
        List.map_cons, List.map_nil, List.mem_singleton, or_comm]

theorem tabulate_length (claims : List Claim) :
    (tabulate ids claims).length = (claims.map Prod.snd).dedup.length := by
  obtain ⟨nodup, members⟩ := tabulate_ranges ids claims
  have perm := (List.perm_ext_iff_of_nodup nodup (List.nodup_dedup (claims.map Prod.snd))).mpr
    (fun range => by rw [members, List.mem_dedup])
  rw [← perm.length_eq, List.length_map]

theorem find_range {claims : List Claim} {range : Prefix} :
    ((tabulate ids claims).find? (·.range = range) = none ↔
      (tabulate ids claims).any (·.range = range) = false) := by
  simp only [List.find?_eq_none, List.any_eq_false]

theorem add_kept {routes : RoutingTable} {claims : List Claim} {key : PublicKey} {range : Prefix}
    (entries : routes.entries = tabulate ids claims) (valid : ids key ≠ kNoPeer)
    (kept : ¬ Refused claims (key, range)) :
    ∃ after, routes.add (ids key) range = .ok after ∧
      after.entries = tabulate ids (claims ++ [(key, range)]) := by
  unfold Refused at kept
  push Not at kept
  obtain ⟨room, owner⟩ := kept
  rw [← tabulate_length, ← entries] at room
  rw [tabulate_append, ← entries]
  simp only [RoutingTable.add]
  rw [if_neg valid, if_neg (not_le.mpr room)]
  split
  · rename_i entry found
    rw [entries] at found
    obtain ⟨claim, member, range', peer⟩ := tabulate_claimed (List.mem_of_find?_eq_some found)
    have same : entry.range = range := by simpa using List.find?_some found
    rw [if_pos (by rw [peer, owner claim member (range'.trans same)])]
    refine ⟨routes, rfl, ?_⟩
    rw [if_pos]
    rw [entries, List.any_eq_true]
    exact ⟨entry, List.mem_of_find?_eq_some found, by simpa using same⟩
  · rename_i absent
    refine ⟨_, rfl, ?_⟩
    rw [entries, find_range, ← entries] at absent
    rw [if_neg (by rw [absent]; exact Bool.false_ne_true)]

theorem add_refused {routes : RoutingTable} {claims : List Claim} {key : PublicKey} {range : Prefix}
    (entries : routes.entries = tabulate ids claims) (accepted : Accepted claims)
    (injective : ∀ claim ∈ claims, ids claim.1 = ids key → claim.1 = key)
    (refused : Refused claims (key, range)) : ∃ error, routes.add (ids key) range = .error error := by
  simp only [RoutingTable.add]
  split_ifs with invalid full
  · exact ⟨_, rfl⟩
  · exact ⟨_, rfl⟩
  · rcases refused with overfull | ⟨other, member, sameRange, differs⟩
    · rw [← tabulate_length, ← entries] at overfull
      exact absurd overfull full
    · split
      · rename_i entry found
        rw [entries] at found
        obtain ⟨claim, claimed, range', peer⟩ := tabulate_claimed (List.mem_of_find?_eq_some found)
        have same : entry.range = range := by simpa using List.find?_some found
        have owner := accepted.same_key claimed member ((range'.trans same).trans sameRange.symm)
        rw [if_neg]
        · exact ⟨_, rfl⟩
        · intro taken
          rw [peer] at taken
          exact differs (owner.symm.trans (injective claim claimed taken))
      · rename_i absent
        rw [entries, List.find?_eq_none] at absent
        have present := ((tabulate_ranges ids claims).2 range).mpr
          (List.mem_map.mpr ⟨other, member, sameRange⟩)
        obtain ⟨entry, placed, same⟩ := List.mem_map.mp present
        exact absurd (by simpa using same) (absent entry placed)

theorem addPrefixes_accepted (claimed left : List Prefix) {routes : RoutingTable} {claims : List Claim}
    {key : PublicKey} (entries : routes.entries = tabulate ids claims) (valid : ids key ≠ kNoPeer)
    (accepted : Accepted (claims ++ claimed.map (key, ·))) :
    ∃ after, after.entries = tabulate ids (claims ++ claimed.map (key, ·)) ∧
      Runtime.addPrefixes (ids key) (claimed ++ left) routes = Runtime.addPrefixes (ids key) left after := by
  induction claimed generalizing routes claims with
  | nil => exact ⟨routes, by simpa using entries, rfl⟩
  | cons range rest ih =>
    have regroup : claims ++ (range :: rest).map (key, ·) =
        claims ++ [(key, range)] ++ rest.map (key, ·) := by simp
    rw [regroup] at accepted ⊢
    obtain ⟨-, kept⟩ := accepted_append.mp accepted.left
    obtain ⟨after, added, tabulated⟩ := add_kept entries valid kept
    obtain ⟨last, entries, continued⟩ := ih tabulated accepted
    refine ⟨last, entries, ?_⟩
    rw [List.cons_append, Runtime.addPrefixes, added]
    exact continued

namespace Runtime

def idOf (node : Node) (count : ℕ) (key : PublicKey) : PeerId := (searchPeer node count key).getD kNoPeer

theorem ofNat_ne {first second : ℕ} (differs : first ≠ second) (firstBound : first ≤ kLastPeerId)
    (secondBound : second ≤ kLastPeerId) : UInt32.ofNat first ≠ UInt32.ofNat second := by
  intro same
  have values := congrArg UInt32.toNat same
  simp only [kLastPeerId] at firstBound secondBound
  rw [UInt32.toNat_ofNat_of_lt' (by simp [UInt32.size]; omega),
    UInt32.toNat_ofNat_of_lt' (by simp [UInt32.size]; omega)] at values
  exact differs values

theorem search_spec {node : Node} {count : ℕ} {key : PublicKey} {id : PeerId}
    (found : searchPeer node count key = some id) :
    id ≠ kNoPeer ∧ ∃ config, node.findPeer id = some config ∧ config.staticPublic = key := by
  have member := List.mem_of_find?_eq_some found
  have matched := List.find?_some found
  obtain ⟨number, inside, same⟩ := List.mem_map.mp member
  rw [List.mem_range'_1] at inside
  subst same
  refine ⟨(ofNat_ne (by omega) (by omega) (by omega) : UInt32.ofNat number ≠ UInt32.ofNat 0), ?_⟩
  rw [Option.any_eq_true] at matched
  obtain ⟨config, present, key⟩ := matched
  exact ⟨config, present, by simpa using key⟩

theorem search_injective {node : Node} {count : ℕ} {first second : PublicKey} {id : PeerId}
    (firstFound : searchPeer node count first = some id)
    (secondFound : searchPeer node count second = some id) : first = second := by
  obtain ⟨-, config, present, key⟩ := search_spec firstFound
  obtain ⟨-, other, otherPresent, otherKey⟩ := search_spec secondFound
  rw [present] at otherPresent
  cases otherPresent
  exact key.symm.trans otherKey

/-- Replacing the configuration of a peer by another with the same key does not move any key. -/
theorem search_replaced {node after : Node} {count : ℕ} {key : PublicKey} {id : PeerId}
    {config : PeerConfig} (found : searchPeer node count key = some id) (same : config.staticPublic = key)
    (replaced : ∀ other, after.findPeer other = if other = id then some config else node.findPeer other)
    (wanted : PublicKey) : searchPeer after count wanted = searchPeer node count wanted := by
  obtain ⟨-, old, present, oldKey⟩ := search_spec found
  unfold searchPeer
  congr 1
  funext other
  rw [replaced]
  split_ifs with own
  · rw [own, present, Option.any_some, Option.any_some, same, oldKey]
  · rfl

/-- A peer appended under the next id is found after all others. -/
theorem search_appended {node after : Node} {count : ℕ} {key : PublicKey} {config : PeerConfig}
    (room : count < kLastPeerId) (same : config.staticPublic = key)
    (appended : ∀ other, after.findPeer other =
      if other = UInt32.ofNat (count + 1) then some config else node.findPeer other)
    (wanted : PublicKey) : searchPeer after (count + 1) wanted =
      (searchPeer node count wanted).or
        (if key = wanted then some (UInt32.ofNat (count + 1)) else none) := by
  have older : ((List.range' 1 count).map UInt32.ofNat).find?
      (fun id => (after.findPeer id).any (·.staticPublic = wanted)) =
        ((List.range' 1 count).map UInt32.ofNat).find?
          (fun id => (node.findPeer id).any (·.staticPublic = wanted)) := by
    apply List.find?_congr
    intro other member
    obtain ⟨number, inside, numbered⟩ := List.mem_map.mp member
    rw [List.mem_range'_1] at inside
    rw [appended, if_neg]
    rw [← numbered]
    exact ofNat_ne (by omega) (by omega) (by omega)
  have newest : [UInt32.ofNat (count + 1)].find?
      (fun id => (after.findPeer id).any (·.staticPublic = wanted)) =
        if key = wanted then some (UInt32.ofNat (count + 1)) else none := by
    rw [List.find?_cons, appended, if_pos rfl, Option.any_some, same]
    by_cases matched : key = wanted <;> simp [matched]
  unfold searchPeer
  rw [min_eq_left (by omega), min_eq_left (by omega), List.range'_concat, List.map_append,
    List.find?_append, older, List.map_cons, List.map_nil, Nat.one_mul, Nat.add_comm 1 count, newest]

theorem findPeer_addPeer (node : Node) (config : PeerConfig) (valid : config.id ≠ kNoPeer) :
    ∃ after, node.addPeer config = (.ok (), after) ∧
      ∀ other, after.findPeer other = if other = config.id then some config else node.findPeer other := by
  refine ⟨_, if_neg valid, fun other => ?_⟩
  exact AList.lookup_insert_eq _ _ _ _

/-- The id and the peer count an entry gets: those of its key, or the next ones. -/
inductive Assigned (progress : Progress) (key : PublicKey) : PeerId → ℕ → Prop
  | known {id : PeerId} : searchPeer progress.node progress.count key = some id →
      Assigned progress key id progress.count
  | fresh : searchPeer progress.node progress.count key = none → progress.count < kLastPeerId →
      Assigned progress key (UInt32.ofNat (progress.count + 1)) (progress.count + 1)

theorem applyPeer_assigned {progress : Progress} {next : Incoming}
    {result : Except Diagnostic Unit × Progress} (applied : applyPeer progress next = some result) :
    ∃ id count, Assigned progress next.key id count ∧ result = applyWith progress next id count := by
  unfold applyPeer at applied
  split at applied
  · rename_i id found
    cases applied
    exact ⟨id, _, .known found, rfl⟩
  · rename_i absent
    split_ifs at applied with exhausted
    cases applied
    exact ⟨_, _, .fresh absent (not_le.mp exhausted), rfl⟩

/-- Once the entry is configured its key is found under the id, and no other key has moved. -/
theorem Assigned.written {progress : Progress} {next : Incoming} {id : PeerId} {count : ℕ}
    (assigned : Assigned progress next.key id count) :
    id ≠ kNoPeer ∧ ∃ node, progress.node.addPeer { next.peer with id } = (.ok (), node) ∧
      (∀ other, node.findPeer other =
        if other = id then some { next.peer with id } else progress.node.findPeer other) ∧
      searchPeer node count next.key = some id ∧
      ∀ key, (searchPeer progress.node progress.count key).isSome →
        searchPeer node count key = searchPeer progress.node progress.count key := by
  have valid : id ≠ kNoPeer := by
    cases assigned with
    | known found => exact (search_spec found).1
    | fresh absent room =>
      exact (ofNat_ne (by omega) (by omega) (by omega) :
        UInt32.ofNat (progress.count + 1) ≠ UInt32.ofNat 0)
  obtain ⟨node, added, configured⟩ :=
    findPeer_addPeer progress.node { next.peer with id } valid
  refine ⟨valid, node, added, configured, ?_⟩
  have owner : PeerConfig.staticPublic { next.peer with id } = next.key := rfl
  cases assigned with
  | known found =>
    have moved := search_replaced found owner configured
    exact ⟨(moved _).trans found, fun key _ => moved key⟩
  | fresh absent room =>
    have moved := search_appended room owner configured
    constructor
    · rw [moved, absent]
      exact if_pos rfl
    · intro key found
      rw [moved, Option.or_of_isSome found]

def Known (runtime : Runtime) (entry : Incoming) : Prop :=
  (searchPeer runtime.node runtime.peerCount entry.key).isSome

/-- What the id is configured to once the entries, all of known keys, were applied in order. -/
def written (runtime : Runtime) (done : List Incoming) (id : PeerId) : Option PeerConfig :=
  done.foldl (fun config entry =>
    if searchPeer runtime.node runtime.peerCount entry.key = some id then some { entry.peer with id }
    else config) (runtime.node.findPeer id)

theorem written_append (runtime : Runtime) (done : List Incoming) (next : Incoming) (id : PeerId) :
    runtime.written (done ++ [next]) id =
      if searchPeer runtime.node runtime.peerCount next.key = some id then some { next.peer with id }
      else runtime.written done id := by
  simp only [written, List.foldl_append, List.foldl_cons, List.foldl_nil]

structure Tracks (runtime : Runtime) (done : List Incoming) (progress : Progress) : Prop where
  entries : progress.routes.entries = tabulate (idOf progress.node progress.count) (claimsOf done)
  found : ∀ entry ∈ done, (searchPeer progress.node progress.count entry.key).isSome
  grown : runtime.peerCount ≤ progress.count
  counted : (∀ entry ∈ done, runtime.Known entry) → progress.count = runtime.peerCount
  settled : progress.count = runtime.peerCount → (∀ entry ∈ done, runtime.Known entry) ∧
    (∀ key, searchPeer progress.node progress.count key = searchPeer runtime.node runtime.peerCount key) ∧
    ∀ id, progress.node.findPeer id = runtime.written done id

theorem tracks_cleared (runtime : Runtime) :
    runtime.Tracks [] ⟨runtime.routes.clearPeerRoutes, runtime.node, runtime.peerCount, []⟩ where
  entries := rfl
  found := by simp
  grown := le_rfl
  counted := fun _ => rfl
  settled := fun _ => ⟨by simp, fun _ => rfl, fun _ => rfl⟩

theorem claimsOf_append (done : List Incoming) (next : Incoming) :
    claimsOf (done ++ [next]) = claimsOf done ++ next.claims := by
  simp [claimsOf]

theorem claimsOf_known {done : List Incoming} {claim : Claim} (member : claim ∈ claimsOf done) :
    ∃ entry ∈ done, entry.key = claim.1 := by
  obtain ⟨entry, inside, claimed⟩ := List.mem_flatMap.mp member
  obtain ⟨range, -, rfl⟩ := List.mem_map.mp claimed
  exact ⟨entry, inside, rfl⟩

section Step

variable {runtime : Runtime} {done : List Incoming} {progress : Progress} {next : Incoming}
  {id : PeerId} {count : ℕ}

/-- The table as it is seen from the ids after the step. -/
theorem Tracks.renamed (tracks : runtime.Tracks done progress) {node : Node}
    (stable : ∀ key, (searchPeer progress.node progress.count key).isSome →
      searchPeer node count key = searchPeer progress.node progress.count key) :
    progress.routes.entries = tabulate (idOf node count) (claimsOf done) := by
  rw [tracks.entries]
  apply tabulate_congr
  intro claim member
  obtain ⟨entry, inside, same⟩ := claimsOf_known member
  have present := tracks.found entry inside
  rw [same] at present
  simp only [idOf, stable _ present]

/-- The peer count stays what it was exactly when the key is one the runtime knew. -/
theorem Tracks.count_iff (tracks : runtime.Tracks done progress)
    (assigned : Assigned progress next.key id count) :
    count = runtime.peerCount ↔ ∀ entry ∈ done ++ [next], runtime.Known entry := by
  have grown := tracks.grown
  simp only [List.forall_mem_append, List.forall_mem_singleton]
  constructor
  · intro same
    cases assigned with
    | known found =>
      obtain ⟨known, searches, -⟩ := tracks.settled same
      refine ⟨known, ?_⟩
      rw [Known, ← searches, found]
      rfl
    | fresh absent room => omega
  · rintro ⟨known, nextKnown⟩
    have same := tracks.counted known
    obtain ⟨-, searches, -⟩ := tracks.settled same
    cases assigned with
    | known found => exact same
    | fresh absent room =>
      rw [Known, ← searches, absent] at nextKnown
      cases nextKnown

theorem Tracks.step (tracks : runtime.Tracks done progress)
    (accepted : Accepted (claimsOf (done ++ [next]))) {result : Except Diagnostic Unit × Progress}
    (applied : applyPeer progress next = some result) :
    ∃ after, result = (.ok (), after) ∧ runtime.Tracks (done ++ [next]) after := by
  obtain ⟨id, count, assigned, rfl⟩ := applyPeer_assigned applied
  have counted := tracks.count_iff assigned
  obtain ⟨valid, node, added, configured, own, stable⟩ := assigned.written
  have ownId : idOf node count next.key = id := by rw [idOf, own, Option.getD_some]
  rw [claimsOf_append, Incoming.claims] at accepted
  obtain ⟨routes, entries, placed⟩ := addPrefixes_accepted next.prefixes [] (tracks.renamed stable)
    (by rw [ownId]; exact valid) accepted
  rw [ownId, List.append_nil] at placed
  refine ⟨⟨routes, node, count, progress.present ++ [id]⟩, ?_, ?_⟩
  · simp only [applyWith, placed, addPrefixes, added]
  · refine ⟨?_, ?_, ?_, counted.mpr, ?_⟩
    · rw [claimsOf_append, Incoming.claims]
      exact entries
    · rw [List.forall_mem_append, List.forall_mem_singleton]
      refine ⟨fun entry member => ?_, by rw [own]; rfl⟩
      rw [stable _ (tracks.found entry member)]
      exact tracks.found entry member
    · have grown := tracks.grown
      cases assigned with
      | known found => exact grown
      | fresh absent room => exact le_trans grown (Nat.le_succ _)
    · intro same
      have known := counted.mp same
      rw [List.forall_mem_append, List.forall_mem_singleton] at known
      obtain ⟨-, searches, configs⟩ := tracks.settled (tracks.counted known.1)
      cases assigned with
      | fresh absent room =>
        have nextKnown := known.2
        rw [Known, ← searches, absent] at nextKnown
        cases nextKnown
      | known found =>
        refine ⟨counted.mp same, fun key => ?_, fun other => ?_⟩
        · have owner : PeerConfig.staticPublic { next.peer with id } = next.key := rfl
          exact (search_replaced found owner configured key).trans (searches key)
        · rw [written_append, configured, configs]
          rw [searches] at found
          by_cases named : other = id
          · rw [if_pos named, named, if_pos found]
          · rw [if_neg named, if_neg]
            rw [found, Option.some_inj]
            exact Ne.symm named

theorem Tracks.run (rest : List Incoming) {later : List Incoming} (tracks : runtime.Tracks done progress)
    (accepted : Accepted (claimsOf (done ++ rest))) {result : Except Diagnostic Unit × Progress}
    (applied : applyAll (rest ++ later) progress = some result) :
    ∃ after, runtime.Tracks (done ++ rest) after ∧ applyAll later after = some result := by
  induction rest generalizing done progress with
  | nil => exact ⟨progress, by simpa using tracks, applied⟩
  | cons next rest ih =>
    rw [List.append_cons] at accepted ⊢
    have first : Accepted (claimsOf (done ++ [next])) := by
      rw [claimsOf, List.flatMap_append] at accepted
      exact accepted.left
    rw [List.cons_append, applyAll] at applied
    cases stepped : applyPeer progress next with
    | none =>
      rw [stepped] at applied
      cases applied
    | some result =>
      obtain ⟨after, rfl, tracks⟩ := tracks.step first stepped
      rw [stepped] at applied
      exact ih tracks accepted applied

end Step

/-- The first prefix of the new file that the table refuses, with what was accepted before it. -/
structure Stop (incoming : List Incoming) where
  done : List Incoming
  next : Incoming
  rest : List Incoming
  claimed : List Prefix
  range : Prefix
  left : List Prefix
  entries : incoming = done ++ next :: rest
  prefixes : next.prefixes = claimed ++ range :: left
  accepted : Accepted (claimsOf done ++ claimed.map (next.key, ·))
  refused : Refused (claimsOf done ++ claimed.map (next.key, ·)) (next.key, range)

def Stop.claims {incoming : List Incoming} (stop : Stop incoming) : List Claim :=
  claimsOf stop.done ++ stop.claimed.map (stop.next.key, ·)

/-- What reload did before it stopped is what the runtime had already. -/
def Harmless (runtime : Runtime) {incoming : List Incoming} (stop : Stop incoming) : Prop :=
  (∀ entry ∈ stop.done ++ [stop.next], runtime.Known entry) ∧
    (∀ id, runtime.written stop.done id = runtime.node.findPeer id) ∧
    tabulate (idOf runtime.node runtime.peerCount) stop.claims = runtime.routes.entries

/-- The peer routes, the configured peers and the peer count are the same. -/
def Unchanged (before after : Runtime) : Prop :=
  after.routes.entries = before.routes.entries ∧
    (∀ id, after.node.findPeer id = before.node.findPeer id) ∧ after.peerCount = before.peerCount

theorem prefixes_stop {claims : List Claim} {key : PublicKey} {prefixes : List Prefix}
    (accepted : Accepted claims) (stopped : ¬ Accepted (claims ++ prefixes.map (key, ·))) :
    ∃ claimed range left, prefixes = claimed ++ range :: left ∧
      Accepted (claims ++ claimed.map (key, ·)) ∧ Refused (claims ++ claimed.map (key, ·)) (key, range) := by
  induction prefixes using List.reverseRecOn with
  | nil => exact absurd (by simpa using accepted) stopped
  | append_singleton prefixes range ih =>
    by_cases earlier : Accepted (claims ++ prefixes.map (key, ·))
    · rw [List.map_append, ← List.append_assoc, List.map_singleton, accepted_append] at stopped
      push Not at stopped
      exact ⟨prefixes, range, [], rfl, earlier, stopped earlier⟩
    · obtain ⟨claimed, other, left, rfl, facts⟩ := ih earlier
      exact ⟨claimed, other, left ++ [range], by simp, facts⟩

theorem exists_stop {incoming : List Incoming} (stopped : ¬ Accepted (claimsOf incoming)) :
    Nonempty (Stop incoming) := by
  induction incoming using List.reverseRecOn with
  | nil => exact absurd accepted_nil stopped
  | append_singleton incoming next ih =>
    by_cases earlier : Accepted (claimsOf incoming)
    · rw [claimsOf_append] at stopped
      obtain ⟨claimed, range, left, prefixes, accepted, refused⟩ := prefixes_stop earlier stopped
      exact ⟨⟨incoming, next, [], claimed, range, left, rfl, prefixes, accepted, refused⟩⟩
    · obtain ⟨stop⟩ := ih earlier
      refine ⟨{ stop with rest := stop.rest ++ [next], entries := ?_ }⟩
      exact (congrArg (· ++ [next]) stop.entries).trans (by simp)

/-- The progress a refused prefix leaves behind. -/
theorem Stop.reached {runtime : Runtime} {incoming : List Incoming} (stop : Stop incoming)
    {start : Progress} (tracks : runtime.Tracks [] start) {result : Except Diagnostic Unit × Progress}
    (applied : applyAll incoming start = some result) :
    ∃ before routes node id count, runtime.Tracks stop.done before ∧
      Assigned before stop.next.key id count ∧
      searchPeer node count stop.next.key = some id ∧
      (∀ key, (searchPeer before.node before.count key).isSome →
        searchPeer node count key = searchPeer before.node before.count key) ∧
      routes.entries = tabulate (idOf node count) stop.claims ∧
      ∃ diagnostic present, result = (.error diagnostic, ⟨routes, before.node, count, present⟩) := by
  have reached := tracks.run stop.done stop.accepted.left (stop.entries ▸ applied)
  obtain ⟨before, tracks, applied⟩ := reached
  rw [List.nil_append] at tracks
  cases stepped : applyPeer before stop.next with
  | none =>
    rw [applyAll, stepped] at applied
    cases applied
  | some step =>
    obtain ⟨id, count, assigned, rfl⟩ := applyPeer_assigned stepped
    obtain ⟨valid, node, -, -, own, stable⟩ := assigned.written
    have ownId : idOf node count stop.next.key = id := by rw [idOf, own, Option.getD_some]
    obtain ⟨routes, entries, placed⟩ := addPrefixes_accepted stop.claimed (stop.range :: stop.left)
      (tracks.renamed stable) (by rw [ownId]; exact valid) stop.accepted
    have injective : ∀ claim ∈ stop.claims,
        idOf node count claim.1 = idOf node count stop.next.key → claim.1 = stop.next.key := by
      intro claim member same
      rcases List.mem_append.mp member with member | member
      · obtain ⟨entry, inside, key⟩ := claimsOf_known member
        have present := tracks.found entry inside
        rw [← stable _ present, key] at present
        obtain ⟨other, found⟩ := Option.isSome_iff_exists.mp present
        rw [idOf, found, ownId, Option.getD_some] at same
        exact search_injective (found.trans (congrArg some same)) own
      · obtain ⟨range, -, rfl⟩ := List.mem_map.mp member
        rfl
    obtain ⟨error, refused⟩ := add_refused entries stop.accepted injective stop.refused
    rw [← stop.prefixes, ownId] at placed
    rw [ownId] at refused
    refine ⟨before, routes, node, id, count, tracks, assigned, own, stable, entries, ?_⟩
    rw [applyAll, stepped] at applied
    simp only [applyWith, placed, addPrefixes, refused] at applied
    cases applied
    exact ⟨_, _, rfl⟩

theorem Stop.unchanged {runtime : Runtime} {incoming : List Incoming} (stop : Stop incoming)
    {start : Progress} (tracks : runtime.Tracks [] start) {result : Except Diagnostic Unit × Progress}
    (applied : applyAll incoming start = some result) :
    (∃ diagnostic, result.1 = .error diagnostic) ∧
      (runtime.Unchanged { runtime with
        routes := result.2.routes, node := result.2.node, peerCount := result.2.count } ↔
          runtime.Harmless stop) := by
  obtain ⟨before, routes, node, id, count, tracks, assigned, own, stable, entries, diagnostic, present,
    rfl⟩ := stop.reached tracks applied
  refine ⟨⟨diagnostic, rfl⟩, ?_⟩
  have counted := tracks.count_iff assigned
  -- with all keys known the ids of the progress are those the runtime started from
  have renamed (same : count = runtime.peerCount) :
      (∀ id, before.node.findPeer id = runtime.written stop.done id) ∧
        routes.entries = tabulate (idOf runtime.node runtime.peerCount) stop.claims := by
    have known := counted.mp same
    rw [List.forall_mem_append] at known
    obtain ⟨-, searches, configs⟩ := tracks.settled (tracks.counted known.1)
    refine ⟨configs, entries.trans (tabulate_congr stop.claims fun claim member => ?_)⟩
    have claimed : (searchPeer runtime.node runtime.peerCount claim.1).isSome := by
      rcases List.mem_append.mp member with member | member
      · obtain ⟨entry, inside, key⟩ := claimsOf_known member
        exact key ▸ known.1 entry inside
      · obtain ⟨range, -, rfl⟩ := List.mem_map.mp member
        exact known.2 stop.next (List.mem_singleton_self _)
    rw [← searches] at claimed
    rw [idOf, idOf, stable _ claimed, searches]
  constructor
  · rintro ⟨sameEntries, sameConfigs, sameCount⟩
    obtain ⟨configs, tabulated⟩ := renamed sameCount
    exact ⟨counted.mp sameCount, fun id => (configs id).symm.trans (sameConfigs id),
      tabulated.symm.trans sameEntries⟩
  · rintro ⟨known, overwritten, tabulated⟩
    have sameCount := counted.mpr known
    obtain ⟨configs, entries⟩ := renamed sameCount
    exact ⟨entries.trans tabulated, fun id => (configs id).trans (overwritten id), sameCount⟩

/-- A reload that returns an error has changed nothing exactly when every entry of the new file up
to the first prefix the table refuses is one the runtime already had. -/
theorem reload_unchanged_iff {heap : HeapAlgorithms} {runtime after : Runtime}
    {load : Except String Config} {outcome : Except Diagnostic ℕ}
    (returned : runtime.reload heap load = some (outcome, after)) :
    ((∃ diagnostic, outcome = .error diagnostic) → runtime.Unchanged after) ↔
      ∀ incoming, runtime.stage load = .ok incoming → ∀ stop : Stop incoming, runtime.Harmless stop := by
  unfold reload at returned
  cases staged : runtime.stage load with
  | error diagnostic =>
    rw [staged] at returned
    cases returned
    exact ⟨fun _ incoming impossible => (by cases impossible), fun _ _ => ⟨rfl, fun _ => rfl, rfl⟩⟩
  | ok incoming =>
    rw [staged] at returned
    simp only at returned
    cases applied : applyAll incoming
        ⟨runtime.routes.clearPeerRoutes, runtime.node, runtime.peerCount, []⟩ with
    | none =>
      rw [applied] at returned
      cases returned
    | some result =>
      rw [applied] at returned
      have stops (stop : Stop incoming) := stop.unchanged (tracks_cleared runtime) applied
      obtain ⟨verdict, progress⟩ := result
      cases verdict with
      | ok done =>
        cases returned
        constructor
        · intro _ other same stop
          cases same
          obtain ⟨⟨diagnostic, failed⟩, -⟩ := stops stop
          cases failed
        · rintro _ ⟨diagnostic, failed⟩
          cases failed
      | error diagnostic =>
        cases returned
        constructor
        · intro unchanged other same stop
          cases same
          exact (stops stop).2.mp (unchanged ⟨diagnostic, rfl⟩)
        · intro harmless _
          -- had the table accepted every claim, the loop would have ended without an error
          have stopped : ¬ Accepted (claimsOf incoming) := by
            intro accepted
            obtain ⟨last, -, ended⟩ := (tracks_cleared runtime).run incoming accepted
              (by rw [List.append_nil]; exact applied)
            cases ended
          obtain ⟨stop⟩ := exists_stop stopped
          exact (stops stop).2.mpr (harmless incoming rfl stop)

def sampleConfig (second : String) : Config where
  tunName := "norr0"
  listenPort := 51820
  transport := .udp
  fec := .off
  peers := [
    { name := "first", publicKey := String.ofList (List.replicate 64 'a'), allowedIps := ["10.0.0.0/24"] },
    { name := "second", publicKey := String.ofList (List.replicate 64 'b'), allowedIps := [second] }]

def emptyRuntime : Runtime :=
  ⟨"norr0", 51820, .off, {}, Node.create Crypto.plain (Crypto.plainPair 1), 0⟩

def reloaded (runtime : Runtime) (config : Config) : Except Diagnostic ℕ × Runtime :=
  (runtime.reload sortingHeap (.ok config)).getD (.ok 0, runtime)

def sampleRuntime : Runtime := (reloaded emptyRuntime (sampleConfig "10.0.1.0/24")).2

def conflict : Except Diagnostic ℕ × Runtime := reloaded sampleRuntime (sampleConfig "10.0.0.0/24")

theorem reload_conflict : sampleRuntime.reload sortingHeap (.ok (sampleConfig "10.0.0.0/24")) =
    some conflict := by
  have returns : (sampleRuntime.reload sortingHeap (.ok (sampleConfig "10.0.0.0/24"))).isSome = true := by
    decide +kernel
  obtain ⟨result, returned⟩ := Option.isSome_iff_exists.mp returns
  rw [conflict, reloaded, returned, Option.getD_some]

theorem reload_unchanged_iff_conflict :
    ((∃ diagnostic, conflict.1 = .error diagnostic) → sampleRuntime.Unchanged conflict.2) ↔
      ∀ incoming, sampleRuntime.stage (.ok (sampleConfig "10.0.0.0/24")) = .ok incoming →
        ∀ stop : Stop incoming, sampleRuntime.Harmless stop :=
  reload_unchanged_iff reload_conflict

/-- Two entries claim one prefix: the error comes after the route of the second was dropped. -/
theorem reload_conflict_drops_route :
    sampleRuntime.reload sortingHeap (.ok (sampleConfig "10.0.0.0/24")) = some conflict ∧
      conflict.1 = .error ⟨.routingConflict, "prefix already assigned to another peer"⟩ ∧
      sampleRuntime.routes.entries.map RouteEntry.peer = [2, 1] ∧
      conflict.2.routes.entries.map RouteEntry.peer = [1] ∧ ¬ sampleRuntime.Unchanged conflict.2 := by
  have before : sampleRuntime.routes.entries.map RouteEntry.peer = [2, 1] := by decide +kernel
  have after : conflict.2.routes.entries.map RouteEntry.peer = [1] := by decide +kernel
  refine ⟨reload_conflict, by decide +kernel, before, after, ?_⟩
  rintro ⟨entries, -, -⟩
  rw [entries, before] at after
  cases after

end Runtime

end Norr
