import Norr.Control.KeyIds
import Norr.Control.Promotions
import Norr.Session.Integrity

/-! What remains of a peer once it is forgotten. -/

namespace Norr

open Crypto

namespace SessionTable

/-- No session of the peer is in the table. -/
def Sessionless (table : SessionTable) (peer : PeerId) : Prop :=
  ∀ keyId ref session, table.findByKeyId keyId = some ref → table.get ref = some session →
    session.peer ≠ peer

variable {table : SessionTable}

theorem Linked.findByPeer_none (linked : table.Linked) {peer : PeerId} (sessionless : table.Sessionless peer) :
    table.findByPeer peer = none := by
  unfold findByPeer
  split
  · rfl
  · rename_i keyId current
    obtain ⟨ref, session, found, present, own⟩ := linked.owned peer keyId current
    exact absurd own (sessionless keyId ref session found present)

theorem Linked.touch (linked : table.Linked) (ref : SessionRef) {change : Session → Session}
    (touches : Session.Touches change) : (table.update ref change).Linked := by
  constructor
  · intro peer keyId current
    obtain ⟨place, session, found, present, own⟩ := linked.owned peer keyId current
    refine ⟨place, if ref = place then change session else session, found, ?_, ?_⟩
    · rw [get] at present
      rw [get, update, List.getElem?_modify, present]
      rfl
    · split_ifs
      · rw [(touches session).1, own]
      · exact own
  · exact linked.kept

theorem Linked.install {after : SessionTable} {peer : PeerId} {keyId : UInt16} {session : Session} {clock : Instant}
    {ref : SessionRef} (linked : table.Linked) (fresh : keyId ∉ table.sessions) (owner : session.peer = peer)
    (ran : table.install peer keyId session clock = (.ok ref, after)) :
    after.Linked := by
  refine linked.installed owner (fun other _ current => ?_) (install_shape ran)
  obtain ⟨place, held, there, -⟩ := linked.owned other keyId current
  exact fresh ((AList.mem_iff_lookup _ _).mpr ⟨place, there⟩)

end SessionTable

namespace Node

variable {heap : HeapAlgorithms} {before after : Node} {peer : PeerId}

theorem Linked.step {now : Instant} {answering : Prop} (step : Step heap now answering before after)
    (apart : before.Apart) (linked : before.table.Linked) : after.table.Linked := by
  cases step with
  | allocate table advances =>
    obtain ⟨nextKeyId, rfl⟩ := advances
    exact ⟨linked.owned, linked.kept⟩
  | establish peer entry session clock ref table found owner keyId installed =>
    exact linked.install (apart.pending peer entry found).2.1 owner installed
  | promote keyId entry session clock ref table found owner own installed =>
    obtain ⟨-, rfl, fresh⟩ := apart.provisional keyId entry found
    exact linked.install fresh owner installed
  | touch ref change touches => exact linked.touch ref touches
  | remove keyId => exact linked.remove keyId
  | expireRetired time => exact linked.expireRetired time
  | _ => exact linked

/-- What the calls of a run keep up about the tables of a node. -/
structure Consistent (node : Node) : Prop where
  apart : node.Apart
  linked : node.table.Linked
  heaped : IsHeap node.wheel.timers
  timers : ∀ event ∈ node.wheel.timers, event.kind = .provisionalTimeout ∨ event.kind ∈ peerTimers

theorem consistent_create (crypto : Crypto) (localStatic : KeyPair) :
    (create crypto localStatic).Consistent where
  apart := apart_create crypto localStatic
  linked := ⟨fun _ _ found => (by cases found), fun _ _ found => (by cases found)⟩
  heaped := fun _ inside => absurd inside (Nat.not_lt_zero _)
  timers := fun _ member => by cases member

theorem Consistent.retimed (lawful : heap.Lawful) {allowed : TimerEvent → Prop}
    (retimed : Retimed heap allowed before after)
    (kinds : ∀ event, allowed event → event.kind = .provisionalTimeout ∨ event.kind ∈ peerTimers)
    (consistent : before.Consistent) : IsHeap after.wheel.timers ∧
      ∀ event ∈ after.wheel.timers, event.kind = .provisionalTimeout ∨ event.kind ∈ peerTimers := by
  refine ⟨retimed.reaches.isHeap lawful consistent.heaped, fun event member => ?_⟩
  rcases retimed.reaches.mem lawful member with old | new
  · exact consistent.timers event old
  · exact kinds event new

theorem consistent_preserved (lawful : heap.Lawful) :
    Preserves heap (fun _ => True) Consistent where
  step := by
    intro now answering before after step consistent
    have linked := Linked.step step consistent.apart consistent.linked
    have apart := consistent.apart.step step
    cases step with
    | timers wheel reaches =>
      have retimed : Retimed heap (before.Allows now) before { before with wheel } := ⟨rfl, reaches⟩
      obtain ⟨heaped, timers⟩ := consistent.retimed lawful retimed fun event allowed =>
        allowed.2.imp_right And.left
      exact ⟨apart, linked, heaped, timers⟩
    | _ => exact ⟨apart, linked, consistent.heaped, consistent.timers⟩
  add := by
    intro node config _ consistent
    have apart := (apart_preserves heap).add node config trivial consistent.apart
    revert apart
    unfold Node.addPeer
    split_ifs
    · exact fun _ => consistent
    · exact fun apart => ⟨apart, consistent.linked, consistent.heaped, consistent.timers⟩
  forget := by
    intro node peer _ consistent
    have retimed : Retimed heap (fun _ => False) _ _ := retimed_forgetPeer node peer
    refine ⟨consistent.apart.forgetPeer peer, ?_, retimed.reaches.isHeap lawful consistent.heaped,
      fun event member => ?_⟩
    · rw [retimed.frame]
      exact consistent.linked
    · rcases retimed.reaches.mem lawful member with old | new
      · exact consistent.timers event old
      · exact new.elim
  expire := by
    intro node now consistent
    have spec := TimerWheel.expire_spec lawful node.wheel now consistent.heaped
    exact ⟨(apart_preserves heap).expire node now consistent.apart, consistent.linked, spec.heaped,
      fun event member => consistent.timers event (spec.left event member)⟩

/-- The node has nothing to do with the peer any more. -/
structure CutOff (peer : PeerId) (node : Node) : Prop where
  sessions : node.table.Sessionless peer
  current : node.table.findByPeer peer = none
  peers : peer ∉ node.plane.peers
  pending : peer ∉ node.plane.pending
  provisional : ∀ keyId entry, node.plane.provisional.lookup keyId = some entry → entry.peer ≠ peer
  timers : ∀ event ∈ node.wheel.timers, event.kind ∈ peerTimers → event.subject ≠ peer
  keepalives : peer ∉ node.plane.keepaliveDue
  endpoints : peer ∉ node.plane.learnedEndpoint

theorem CutOff.unknown {node : Node} (cutOff : CutOff peer node) : ¬ node.Knows peer := by
  rintro (known | dialled | ⟨keyId, entry, found, own⟩ | session)
  · exact cutOff.peers known
  · exact cutOff.pending dialled
  · exact cutOff.provisional keyId entry found own
  · exact session cutOff.current

theorem sessionless_install {table after : SessionTable} {owner : PeerId} {keyId : UInt16} {session : Session}
    {clock : Instant} {ref : SessionRef} (sessionless : table.Sessionless peer) (foreign : session.peer ≠ peer)
    (ran : table.install owner keyId session clock = (.ok ref, after)) (keyed : table.Keyed) :
    after.Sessionless peer := by
  have installs := SessionTable.install_installs ran
  intro other place held found present
  rw [SessionTable.get, installs.heap] at present
  rcases installs.entries other place found with ⟨-, rfl⟩ | ⟨-, old⟩
  · rw [List.getElem?_concat_length, Option.some_inj] at present
    exact present ▸ foreign
  · obtain ⟨-, before, there, -⟩ := keyed other place old
    rw [List.getElem?_append_left (List.getElem?_eq_some_iff.mp there).1] at present
    exact sessionless other place held old present

theorem sessionless_shrinks {before after : SessionTable} (sessionless : before.Sessionless peer)
    (shrinks : before.Shrinks after) : after.Sessionless peer := by
  intro keyId ref session found present
  rw [SessionTable.get, shrinks.heap] at present
  exact sessionless keyId ref session (shrinks.kept keyId ref found) present

theorem sessionless_touch {table : SessionTable} (sessionless : table.Sessionless peer) (ref : SessionRef)
    {change : Session → Session} (touches : Session.Touches change) :
    (table.update ref change).Sessionless peer := by
  intro keyId place session found present
  rw [SessionTable.get, SessionTable.update, List.getElem?_modify] at present
  obtain ⟨held, there, same⟩ := Option.map_eq_some_iff.mp present
  have foreign := sessionless keyId place held found there
  split_ifs at same
  · rw [← same, (touches held).1]
    exact foreign
  · exact same ▸ foreign

/-- A step can do nothing for a peer that is cut off. -/
theorem CutOff.step {now : Instant} {answering : Prop} (lawful : heap.Lawful)
    (step : Step heap now answering before after) (consistent : before.Consistent) (cutOff : CutOff peer before) :
    CutOff peer after := by
  have linked := Linked.step step consistent.apart consistent.linked
  have unknown := cutOff.unknown
  have erased {keyId erased : UInt16} {entry : Provisional}
      (found : (before.plane.provisional.erase erased).lookup keyId = some entry) : entry.peer ≠ peer :=
    cutOff.provisional keyId entry (AList.of_lookup_erase found).2
  cases step with
  | allocate table advances =>
    obtain ⟨nextKeyId, rfl⟩ := advances
    exact { cutOff with }
  | timers wheel reaches =>
    refine { cutOff with timers := fun event member own same => ?_ }
    rcases reaches.mem lawful member with old | ⟨-, other | ⟨-, known⟩⟩
    · exact cutOff.timers event old own same
    · rw [other] at own
      simp [peerTimers] at own
    · exact unknown (same ▸ known)
  | dial entry known =>
    refine { cutOff with pending := fun dialled => ?_ }
    rcases AList.mem_put.mp dialled with same | old
    · exact cutOff.peers (same ▸ known)
    · exact cutOff.pending old
  | redial other old entry held =>
    refine { cutOff with pending := fun dialled => ?_ }
    rcases AList.mem_put.mp dialled with same | there
    · exact cutOff.pending ((AList.mem_iff_lookup _ _).mpr ⟨old, same ▸ held⟩)
    · exact cutOff.pending there
  | hangUp other => exact { cutOff with pending := fun dialled => cutOff.pending (AList.mem_erase.mp dialled).2 }
  | hold entry answers known =>
    refine { cutOff with provisional := fun keyId value found => ?_ }
    rw [setProvisional, AList.lookup_insert_eq] at found
    split_ifs at found
    · cases found
      exact fun same => cutOff.peers (same ▸ known)
    · exact cutOff.provisional keyId value found
  | release keyId => exact { cutOff with provisional := fun _ _ found => erased found }
  | establish other entry session clock ref table found owner keyId installed =>
    have foreign : session.peer ≠ peer := fun same =>
      cutOff.pending ((AList.mem_iff_lookup _ _).mpr ⟨entry, same ▸ owner ▸ found⟩)
    have still := sessionless_install cutOff.sessions foreign installed consistent.apart.keyed
    exact { cutOff with
      sessions := still
      current := linked.findByPeer_none still
      pending := fun dialled => cutOff.pending (AList.mem_erase.mp dialled).2 }
  | promote keyId entry session clock ref table found owner own installed =>
    have foreign : session.peer ≠ peer := fun same => cutOff.provisional keyId entry found (owner.symm.trans same)
    have still := sessionless_install cutOff.sessions foreign installed consistent.apart.keyed
    exact { cutOff with
      sessions := still
      current := linked.findByPeer_none still
      provisional := fun _ _ there => erased there }
  | touch ref change touches => exact { cutOff with sessions := sessionless_touch cutOff.sessions ref touches }
  | learn other endpoint known =>
    refine { cutOff with endpoints := fun learned => ?_ }
    rcases (AList.mem_insert _).mp learned with same | old
    · exact unknown (same ▸ known)
    · exact cutOff.endpoints old
  | due keepaliveDue legal =>
    exact { cutOff with keepalives := fun member => (legal peer member).elim cutOff.keepalives unknown }
  | remove keyId =>
    have still := sessionless_shrinks cutOff.sessions (before.table.remove_shrinks keyId)
    exact { cutOff with sessions := still, current := linked.findByPeer_none still }
  | expireRetired time =>
    have still := sessionless_shrinks cutOff.sessions (before.table.expireRetired_shrinks time)
    exact { cutOff with sessions := still, current := linked.findByPeer_none still }
  | complete | stamp | refresh | load => exact { cutOff with }

theorem mem_cancelAll (lawful : heap.Lawful) (kinds : List TimerKind) (subject : UInt32) (node : Node)
    {event : TimerEvent}
    (member : event ∈ (kinds.foldl (fun node kind => cancel heap node kind subject) node).wheel.timers) :
    event ∈ node.wheel.timers ∧ (event.kind ∈ kinds → event.subject ≠ subject) := by
  induction kinds generalizing node with
  | nil => exact ⟨member, fun none => by cases none⟩
  | cons kind kinds ih =>
    obtain ⟨left, others⟩ := ih (node.cancel heap kind subject) member
    have kept := (TimerWheel.cancel_timers lawful node.wheel kind subject).mem_iff.mp left
    rw [List.mem_filter] at kept
    refine ⟨kept.1, fun listed same => ?_⟩
    rcases List.mem_cons.mp listed with here | later
    · simp [here, same] at kept
    · exact others later same

theorem forgetPeer_timers (lawful : heap.Lawful) (node : Node) (peer : PeerId) {event : TimerEvent}
    (member : event ∈ (node.forgetPeer heap peer).wheel.timers) (own : event.kind ∈ peerTimers) :
    event.subject ≠ peer := by
  have before (entries : List (Sigma fun _ : UInt16 => Provisional)) (start : Node)
      (left : event ∈ (entries.foldl (fun node entry =>
        cancel heap node .provisionalTimeout entry.1.toUInt32) start).wheel.timers) :
      event ∈ start.wheel.timers := by
    have retimed : Retimed heap (fun _ => False) start _ := retimed_cancelProvisional entries start
    exact (retimed.reaches.mem lawful left).elim id False.elim
  unfold forgetPeer at member
  exact (mem_cancelAll lawful peerTimers peer _ (before _ _ member)).2 own

theorem cutOff_forgetPeer (lawful : heap.Lawful) {node : Node} (consistent : node.Consistent)
    (sessionless : node.table.Sessionless peer) : CutOff peer (node.forgetPeer heap peer) := by
  have timers (event : TimerEvent) (member : event ∈ (node.forgetPeer heap peer).wheel.timers)
      (own : event.kind ∈ peerTimers) : event.subject ≠ peer := forgetPeer_timers lawful node peer member own
  rw [forgetPeer_frame] at timers ⊢
  refine ⟨sessionless, consistent.linked.findByPeer_none sessionless, ?_, ?_, ?_,
    timers, ?_, ?_⟩
  · exact fun known => (AList.mem_erase.mp known).1 rfl
  · exact fun dialled => (AList.mem_erase.mp dialled).1 rfl
  · intro keyId entry found
    simpa using (AList.lookup_keep.mp found).2
  · simp [withoutPeer]
  · exact fun learned => (AList.mem_erase.mp learned).1 rfl

theorem cutOff_preserved (lawful : heap.Lawful) (peer : PeerId) :
    Preserves heap (fun action => ∀ config, action = .addPeer config → config.id ≠ peer)
      (fun node => node.Consistent ∧ CutOff peer node) where
  step := fun now answering before after step holds =>
    ⟨(consistent_preserved lawful).step now answering before after step holds.1,
      holds.2.step lawful step holds.1⟩
  add := by
    intro node config legal holds
    refine ⟨(consistent_preserved lawful).add node config trivial holds.1, ?_⟩
    obtain ⟨-, cutOff⟩ := holds
    unfold Node.addPeer
    split_ifs
    · exact cutOff
    · refine { cutOff with peers := fun known => ?_ }
      rcases (AList.mem_insert _).mp known with same | old
      · exact legal config rfl same.symm
      · exact cutOff.peers old
  forget := by
    intro node other _ holds
    refine ⟨(consistent_preserved lawful).forget node other trivial holds.1, ?_⟩
    obtain ⟨-, cutOff⟩ := holds
    have retimed : Retimed heap (fun _ => False) _ _ := retimed_forgetPeer node other
    have timers (event : TimerEvent) (member : event ∈ (node.forgetPeer heap other).wheel.timers) :
        event ∈ node.wheel.timers := (retimed.reaches.mem lawful member).elim id False.elim
    rw [retimed.frame] at timers ⊢
    exact { cutOff with
      peers := fun known => cutOff.peers (AList.mem_erase.mp known).2
      pending := fun dialled => cutOff.pending (AList.mem_erase.mp dialled).2
      provisional := fun keyId entry found => cutOff.provisional keyId entry (AList.lookup_keep.mp found).1
      timers := fun event member => cutOff.timers event (timers event member)
      keepalives := fun member => cutOff.keepalives (List.mem_of_mem_filter member)
      endpoints := fun learned => cutOff.endpoints (AList.mem_erase.mp learned).2 }
  expire := by
    intro node now holds
    have spec := TimerWheel.expire_spec lawful node.wheel now holds.1.heaped
    refine ⟨(consistent_preserved lawful).expire node now holds.1, ?_⟩
    obtain ⟨-, cutOff⟩ := holds
    exact { cutOff with timers := fun event member => cutOff.timers event (spec.left event member) }

/-- A forgotten peer is cut off for good exactly if it had no session left in the table. -/
theorem forgotten_peer_cut_off_iff {crypto : Crypto} {heap : HeapAlgorithms} (lawful : heap.Lawful)
    (localStatic : KeyPair) (calls : List Call) (peer : PeerId) :
    (∀ later : List Call, (∀ config, Call.addPeer config ∈ later → config.id ≠ peer) →
        CutOff peer ((((create crypto localStatic).run crypto heap calls).forgetPeer heap peer).run crypto
          heap later)) ↔
      ((create crypto localStatic).run crypto heap calls).table.Sessionless peer := by
  have consistent : ((create crypto localStatic).run crypto heap calls).Consistent :=
    (consistent_preserved lawful).run calls (fun _ _ => trivial) (consistent_create crypto localStatic)
  constructor
  · intro cutOff
    have none := (cutOff [] fun _ member => by cases member).sessions
    rw [Node.run, List.foldl_nil, forgetPeer_frame] at none
    exact none
  · intro sessionless later absent
    refine ((cutOff_preserved lawful peer).run later (fun action member config same => ?_)
      ⟨(consistent_preserved lawful).forget _ peer trivial consistent,
        cutOff_forgetPeer lawful consistent sessionless⟩).2
    exact absent config (same ▸ member)

/-- Node 2 with one answered initiation of peer 9, still provisional. -/
def answeredOnce : List Call := [.addPeer callerPeer, .handleDatagram {} (sampleInitiation 1) plainDraws 0]

theorem forgotten_peer_cut_off_iff_provisional :
    ((create plain (plainPair 2)).run plain sortingHeap
        answeredOnce).plane.provisional.size = 1 ∧
      CutOff 9 ((((create plain (plainPair 2)).run plain sortingHeap
        answeredOnce).forgetPeer sortingHeap 9).run plain sortingHeap (Watched.firstPacket 1)) := by
  refine ⟨by decide +kernel, (forgotten_peer_cut_off_iff sortingHeap_lawful (plainPair 2) answeredOnce
    9).mpr ?_ _ ?_⟩
  · intro keyId ref session found
    have blank : ((create plain (plainPair 2)).run plain sortingHeap
        answeredOnce).table.sessions.entries = [] := by decide +kernel
    have member := (AList.mem_entries_iff _ keyId ref).mpr found
    rw [blank] at member
    cases member
  · intro config member
    have others : Watched.firstPacket 1 = [_] := rfl
    rw [others] at member
    cases List.mem_singleton.mp member

def forgotten : Node :=
  ((create Crypto.plain (Crypto.plainPair 2)).run Crypto.plain sortingHeap
    (answeredOnce ++ Watched.firstPacket 1)).forgetPeer sortingHeap 9

/-- Once its session is promoted, a peer that is forgotten still has it, and its packets are opened. -/
theorem forgotten_peer_still_received :
    (do
      let view ← (parsePacket (Watched.samplePacket 1 1)).toOption
      let session ← forgotten.table.get (← forgotten.table.findByPeer 9)
      some (session.peer, (session.open plain view (Watched.samplePacket 1 1) 64 0).1.isOk)) =
        some (9, true) := by
  decide +kernel

end Node

end Norr
